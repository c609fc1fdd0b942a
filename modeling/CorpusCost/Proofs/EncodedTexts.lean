import CorpusCost.Text.Bytes

/-!
# Texts as bytes and back

The bytes of a text are those of its characters one after the other, and reading them gives the
text. A byte below 0x80 is the whole of a character and never part of another one
(`mem_ofChar_iff`), so bytes can be searched for such a character as the text could be.
-/

set_option autoImplicit false

namespace CorpusCost.Bytes

/-! ## Bytes of a character -/

/-- The UTF-8 bytes of a character. -/
def ofChar (c : Char) : Bytes := String.utf8EncodeChar c

theorem ofChar_ne_nil (c : Char) : ofChar c ≠ [] := String.utf8EncodeChar_ne_nil

theorem ofChar_of_lt {c : Char} (h : c.toNat < 0x80) : ofChar c = [UInt8.ofNat c.toNat] := by
  have hle : c.val.toNat ≤ 0x7f := Nat.le_of_lt_succ h
  simp only [ofChar, String.utf8EncodeChar, if_pos hle]
  rfl

theorem le_of_mem_ofChar {c : Char} (h : 0x80 ≤ c.toNat) {byte : UInt8} (hbyte : byte ∈ ofChar c) :
    0x80 ≤ byte.toNat := by
  have hgt : ¬c.val.toNat ≤ 0x7f := Nat.not_le_of_lt h
  simp only [ofChar, String.utf8EncodeChar, if_neg hgt] at hbyte
  split at hbyte
  · simp only [List.mem_cons, List.not_mem_nil, or_false] at hbyte
    rcases hbyte with rfl | rfl <;> simp <;> omega
  · split at hbyte <;> simp only [List.mem_cons, List.not_mem_nil, or_false] at hbyte
    · rcases hbyte with rfl | rfl | rfl <;> simp <;> omega
    · rcases hbyte with rfl | rfl | rfl | rfl <;> simp <;> omega

/-- A byte below 0x80 is the whole of a character or no part of it. -/
theorem mem_ofChar_iff {c : Char} (sign : Char) (hsign : sign.toNat < 0x80) :
    UInt8.ofNat sign.toNat ∈ ofChar c ↔ c = sign := by
  constructor
  · intro hmem
    have hvalue : (UInt8.ofNat sign.toNat).toNat = sign.toNat := by
      rw [UInt8.toNat_ofNat']
      omega
    rcases Nat.lt_or_ge c.toNat 0x80 with hsmall | hlarge
    · rw [ofChar_of_lt hsmall, List.mem_singleton] at hmem
      have heq := congrArg UInt8.toNat hmem
      rw [hvalue, UInt8.toNat_ofNat', Nat.mod_eq_of_lt (by omega)] at heq
      exact Char.toNat_inj.mp heq.symm
    · have hbyte := le_of_mem_ofChar hlarge hmem
      omega
  · rintro rfl
    simp [ofChar_of_lt hsign]

/-- No character begins with the bytes of another one. -/
theorem ofChar_append_inj {c d : Char} {rest others : Bytes}
    (h : ofChar c ++ rest = ofChar d ++ others) : c = d := by
  have hdecode (c : Char) (rest : Bytes) :
      (ofChar c ++ rest).toByteArray.utf8DecodeChar? 0 = some c := by
    rw [List.toByteArray_append]
    exact ByteArray.utf8DecodeChar?_utf8EncodeChar_append
  have hfirst := hdecode c rest
  rw [h, hdecode d others] at hfirst
  exact (Option.some.inj hfirst).symm

/-! ## Bytes of a text -/

theorem ofText_eq_flatMap (text : String) : ofText text = text.toList.flatMap ofChar := by
  have hbytes : (String.ofList text.toList).toByteArray.data.toList =
      text.toList.flatMap ofChar := by
    rw [String.toByteArray_ofList, List.utf8Encode, List.data_toByteArray]
    rfl
  rwa [String.ofList_toList] at hbytes

theorem ofText_ne_nil {text : String} (h : text ≠ "") : ofText text ≠ [] := by
  obtain ⟨c, cs, htext⟩ := List.exists_cons_of_ne_nil (mt String.toList_eq_nil_iff.mp h)
  rw [ofText_eq_flatMap, htext, List.flatMap_cons]
  exact List.append_ne_nil_of_left_ne_nil (ofChar_ne_nil c) _

@[simp] theorem ofText_append (text other : String) :
    ofText (text ++ other) = ofText text ++ ofText other := by
  simp [ofText_eq_flatMap]

/-- Bytes begin with a byte below 0x80 only where their text begins with its character. -/
theorem head?_ofText_ne {text : String} (sign : Char) (hsign : sign.toNat < 0x80)
    (h : text.toList.head? ≠ some sign) :
    (ofText text).head? ≠ some (UInt8.ofNat sign.toNat) := by
  rw [ofText_eq_flatMap]
  cases htext : text.toList with
  | nil => simp
  | cons c cs =>
    obtain ⟨first, others, hchar⟩ := List.exists_cons_of_ne_nil (ofChar_ne_nil c)
    rw [List.flatMap_cons, hchar, List.cons_append, List.head?_cons]
    intro hfirst
    have hmem : UInt8.ofNat sign.toNat ∈ ofChar c := by
      rw [hchar, ← Option.some.inj hfirst]
      exact List.mem_cons_self
    exact h (by rw [htext, (mem_ofChar_iff sign hsign).mp hmem, List.head?_cons])

/-- Reading the bytes of a text gives the text. -/
theorem text?_ofText (text : String) : text? (ofText text) = some text := by
  have hbytes : (⟨(ofText text).toArray⟩ : ByteArray) = text.toByteArray := by
    simp [ofText]
  rw [text?, hbytes, String.fromUTF8?, dif_pos text.isValidUTF8]
  rfl

theorem mapM_text?_ofText (texts : List String) : (texts.map ofText).mapM text? = some texts := by
  simp only [List.mapM_map, Function.comp_def, text?_ofText]
  exact List.mapM_pure.trans (by simp)

end CorpusCost.Bytes
