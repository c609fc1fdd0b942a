import Mathlib.Algebra.Ring.Nat
import CorpusCost.Fit.Chunk

/-!
# Chunks put together again

The sizes of the chunks of a list add up to its length, so the chunks put together are the list.
There are as many of them as asked for, or as many as items where these are fewer. None is empty,
none is longer than one before it, and no two differ by more than one item.

Cutting takes each chunk from what the chunks before it have left. Because the sizes add up to what
there is, what is left is never shorter than the next chunk (`cut?_eq_some`).
-/

set_option autoImplicit false

namespace CorpusCost

variable {α : Type}

namespace Chunk

/-! ## Sizes -/

theorem sum_sizes (size : Nat) {pieces : Nat} (hpieces : 0 < pieces) :
    (sizes size pieces).sum = size := by
  have hdivide := Nat.div_add_mod size pieces
  have hlt := Nat.mod_lt size hpieces
  obtain ⟨others, hothers⟩ := Nat.exists_eq_add_of_le (Nat.le_of_lt hlt)
  unfold sizes
  rw [if_neg (by omega), List.sum_append, List.sum_replicate_nat]
  generalize size / pieces = quotient at hdivide ⊢
  generalize size % pieces = remainder at hdivide hothers ⊢
  subst hothers
  have hsum : (if quotient = 0 then []
      else List.replicate (remainder + others - remainder) quotient).sum = others * quotient := by
    split
    · rename_i hzero
      simp [hzero]
    · rw [List.sum_replicate_nat, Nat.add_sub_cancel_left]
  rw [hsum, ← hdivide, Nat.mul_add, Nat.add_mul]
  omega

theorem length_sizes (size : Nat) {pieces : Nat} (hpieces : 0 < pieces) :
    (sizes size pieces).length = min size pieces := by
  have hlt := Nat.mod_lt size hpieces
  unfold sizes
  rw [if_neg (by omega), List.length_append, List.length_replicate]
  split
  · rename_i hzero
    have hfew : size < pieces := (Nat.div_eq_zero_iff_lt hpieces).mp hzero
    rw [Nat.mod_eq_of_lt hfew, List.length_nil]
    omega
  · rename_i hquotient
    have hmany : pieces ≤ size := by
      by_contra hfew
      exact hquotient (Nat.div_eq_of_lt (by omega))
    rw [List.length_replicate]
    omega

theorem pos_of_mem_sizes {size pieces part : Nat} (hpart : part ∈ sizes size pieces) :
    0 < part := by
  unfold sizes at hpart
  split at hpart
  · simp at hpart
  · rcases List.mem_append.mp hpart with hlong | hshort
    · rw [List.eq_of_mem_replicate hlong]
      exact Nat.succ_pos _
    · split at hshort
      · simp at hshort
      · rename_i hquotient
        rw [List.eq_of_mem_replicate hshort]
        exact Nat.pos_of_ne_zero hquotient

/-- A size is never more than one before it, and never less by more than one. -/
theorem pairwise_sizes (size pieces : Nat) :
    (sizes size pieces).Pairwise fun earlier later => later ≤ earlier ∧ earlier ≤ later + 1 := by
  have hreplicate (n part : Nat) : (List.replicate n part).Pairwise
      fun earlier later => later ≤ earlier ∧ earlier ≤ later + 1 :=
    List.pairwise_replicate.mpr (.inr (by omega))
  unfold sizes
  split
  · exact .nil
  · refine List.pairwise_append.mpr ⟨hreplicate _ _, ?_, ?_⟩
    · split
      · exact .nil
      · exact hreplicate _ _
    · intro earlier hlong later hshort
      rw [List.eq_of_mem_replicate hlong]
      split at hshort
      · simp at hshort
      · rw [List.eq_of_mem_replicate hshort]
        omega

/-! ## Cutting -/

theorem flatten_cut (items : List α) (sizes : List Nat) :
    (cut items sizes).flatten = items.take sizes.sum := by
  induction sizes generalizing items with
  | nil => simp [cut]
  | cons size sizes ih =>
    rw [cut, List.flatten_cons, ih, List.sum_cons, List.take_add]

/-- Nothing is lost when a list is cut into chunks. -/
theorem flatten_split (items : List α) {pieces : Nat} (hpieces : 0 < pieces) :
    (split items pieces).flatten = items := by
  rw [split, flatten_cut, sum_sizes _ hpieces, List.take_length]

/-- The items before a place and those from it on; none if the place is beyond the last item. -/
def splitAt? (items : List α) (place : Nat) : Option (List α × List α) :=
  if place ≤ items.length then some (items.splitAt place) else none

/-- Chunks of the given sizes, each split off from what is left; none if a split fails. -/
def cut? (items : List α) : List Nat → Option (List (List α))
  | [] => some []
  | size :: sizes => do
    let (chunk, rest) ← splitAt? items size
    let chunks ← cut? rest sizes
    pure (chunk :: chunks)

/-- What a chunk leaves is enough for the sizes after its own. -/
theorem sum_le_length_drop {items : List α} {size : Nat} {sizes : List Nat}
    (hsum : (size :: sizes).sum ≤ items.length) : sizes.sum ≤ (items.drop size).length := by
  rw [List.sum_cons] at hsum
  rw [List.length_drop]
  omega

/-- No split fails where the sizes add up to no more than there is. -/
theorem cut?_eq_some {items : List α} {sizes : List Nat} (hsum : sizes.sum ≤ items.length) :
    cut? items sizes = some (cut items sizes) := by
  induction sizes generalizing items with
  | nil => rfl
  | cons size sizes ih =>
    have hrest := sum_le_length_drop hsum
    rw [List.sum_cons] at hsum
    have hsplit : splitAt? items size = some (items.take size, items.drop size) := by
      rw [splitAt?, if_pos (by omega), List.splitAt_eq]
    simp [cut?, hsplit, ih hrest, cut]

/-- The chunks have the sizes asked for where these add up to no more than there is. -/
theorem map_length_cut {items : List α} {sizes : List Nat} (hsum : sizes.sum ≤ items.length) :
    (cut items sizes).map List.length = sizes := by
  induction sizes generalizing items with
  | nil => rfl
  | cons size sizes ih =>
    have hrest := sum_le_length_drop hsum
    rw [List.sum_cons] at hsum
    rw [cut, List.map_cons, ih hrest, List.length_take, Nat.min_eq_left (by omega)]

/-- The chunks of a list put together are the list; there are as many as asked for, or as many as
items where these are fewer; none is empty, none is longer than one before it, and no two differ by
more than one item. No chunk is split off that is longer than what is left. -/
theorem split_partition (items : List α) {pieces : Nat} (hpieces : 1 ≤ pieces) :
    (split items pieces).flatten = items ∧
      (split items pieces).length = min items.length pieces ∧
      (∀ chunk ∈ split items pieces, chunk ≠ []) ∧
      (split items pieces).Pairwise (fun earlier later =>
        later.length ≤ earlier.length ∧ earlier.length ≤ later.length + 1) ∧
      cut? items (sizes items.length pieces) = some (split items pieces) := by
  have hsum : (sizes items.length pieces).sum ≤ items.length :=
    Nat.le_of_eq (sum_sizes _ hpieces)
  have hlengths : (split items pieces).map List.length = sizes items.length pieces :=
    map_length_cut hsum
  refine ⟨flatten_split items hpieces, ?_, ?_, ?_, cut?_eq_some hsum⟩
  · rw [split, length_cut, length_sizes _ hpieces]
  · intro chunk hchunk
    have hsize : chunk.length ∈ sizes items.length pieces :=
      hlengths ▸ List.mem_map_of_mem hchunk
    exact List.ne_nil_of_length_pos (pos_of_mem_sizes hsize)
  · have hpairwise := pairwise_sizes items.length pieces
    rw [← hlengths] at hpairwise
    exact List.pairwise_map.mp hpairwise

/-- Seven items for three workers. -/
theorem split_partition_three :
    1 ≤ 3 ∧ split [1, 2, 3, 4, 5, 6, 7] 3 = [[1, 2, 3], [4, 5], [6, 7]] ∧
      (split [1, 2, 3, 4, 5, 6, 7] 3).flatten = [1, 2, 3, 4, 5, 6, 7] ∧
      cut? [1, 2, 3, 4, 5, 6, 7] (sizes 7 3) = some (split [1, 2, 3, 4, 5, 6, 7] 3) := by
  obtain ⟨hflatten, -, -, -, hcut⟩ :=
    split_partition [1, 2, 3, 4, 5, 6, 7] (show 1 ≤ 3 by decide)
  exact ⟨by decide, by decide, hflatten, hcut⟩

end Chunk

end CorpusCost
