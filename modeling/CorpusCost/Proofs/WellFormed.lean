import CorpusCost.Proofs.Everywhere
import CorpusCost.Proofs.RegexReadBack
import CorpusCost.Proofs.Yields
import CorpusCost.Query.Parser

/-!
# Well-formed nodes

The types of the syntax allow more than is ever read: lists that must not be empty, the end of a
structure with conditions on it, names and literals of any text, and a row of atoms cut in two.
`Node.WellFormed` says what a single node of a query that was read looks like. The shapes that
depend on more than the kind of a node are proved of the readers here.
-/

set_option autoImplicit false

namespace CorpusCost

open CorpusCost.Parser

/-! ## Names -/

/-- A letter of the Latin alphabet without diacritics, or an underscore. -/
def IsLetter (c : Char) : Prop := ('A' ≤ c ∧ c ≤ 'Z') ∨ ('a' ≤ c ∧ c ≤ 'z') ∨ c = '_'

/-- A letter, an underscore or a decimal digit. -/
def IsLetterOrDigit (c : Char) : Prop := IsLetter c ∨ ('0' ≤ c ∧ c ≤ '9')

instance {c : Char} : Decidable (IsLetter c) := inferInstanceAs (Decidable (_ ∨ _))

instance {c : Char} : Decidable (IsLetterOrDigit c) := inferInstanceAs (Decidable (_ ∨ _))

/-- A letter or an underscore, then letters, underscores and digits. -/
def IsIdentifier (name : String) : Prop :=
  ∃ first others, name.toList = first :: others ∧ IsLetter first ∧
    ∀ c ∈ others, IsLetterOrDigit c

instance {name : String} : Decidable (IsIdentifier name) :=
  match h : name.toList with
  | [] => isFalse fun ⟨_, _, hname, _⟩ => absurd (h.symm.trans hname) nofun
  | first :: others =>
    have : Decidable (∀ c ∈ others, IsLetterOrDigit c) := List.decidableBAll IsLetterOrDigit others
    decidable_of_iff (IsLetter first ∧ ∀ c ∈ others, IsLetterOrDigit c)
      ⟨fun hname => ⟨first, others, h, hname⟩, fun ⟨_, _, hname, hfirst, hothers⟩ =>
        have heq := List.cons.inj (h.symm.trans hname)
        ⟨heq.1 ▸ hfirst, heq.2 ▸ hothers⟩⟩

theorem isLetter_of_isNameStart {c : Char} (h : isNameStart c = true) : IsLetter c := by
  unfold isNameStart Char.isAlpha Char.isUpper Char.isLower at h
  simp only [Bool.or_eq_true, Bool.and_eq_true, decide_eq_true_eq, beq_iff_eq] at h
  rcases h with (hupper | hlower) | hunderscore
  · exact .inl hupper
  · exact .inr (.inl hlower)
  · exact .inr (.inr hunderscore)

theorem isLetterOrDigit_of_isNameChar {c : Char} (h : isNameChar c = true) :
    IsLetterOrDigit c := by
  unfold isNameChar Char.isAlphanum Char.isDigit at h
  simp only [Bool.or_eq_true, Bool.and_eq_true, decide_eq_true_eq] at h
  rcases h with (halpha | hdigit) | hunderscore
  · exact .inl (isLetter_of_isNameStart (by simp [isNameStart, halpha]))
  · exact .inr hdigit
  · exact .inl (isLetter_of_isNameStart (by simp [isNameStart, hunderscore]))

theorem yields_name : Yields IsIdentifier name := by
  intro s x rest hread
  obtain ⟨first, others, hx, hfirst, hothers, -, -⟩ := name_eq_read.mp hread
  exact ⟨first, others, hx, isLetter_of_isNameStart hfirst,
    fun c hc => isLetterOrDigit_of_isNameChar (hothers c hc)⟩

theorem yields_labelledAttribute :
    Yields (fun labelled => IsIdentifier labelled.2) labelledAttribute :=
  yields_then fun _ => yields_then fun _ => yields_bind yields_name fun _ hname =>
    yields_pure hname

/-- The attribute that a test is about. -/
def Test.attribute? : Test → Option String
  | .exactly attr _ _ => some attr
  | .matching attr _ _ _ => some attr
  | .positionRange _ _ => none
  | .position _ => none
  | .similarity _ _ => none

/-- The attributes that a condition across tokens is about. -/
def GlobalCondition.attributes : GlobalCondition → List String
  | .agreement _ leftAttr _ _ rightAttr => [leftAttr, rightAttr]
  | .frequency _ attr _ _ _ => [attr]

theorem GlobalCondition.parser_yields :
    Yields (fun condition => ∀ attr ∈ condition.attributes, IsIdentifier attr)
      GlobalCondition.parser := by
  apply yields_orElse
  · refine yields_then fun _ => yields_bind (yields_parenthesized yields_labelledAttribute)
      fun labelled hname => yields_then fun _ => yields_then fun _ => yields_then fun _ =>
        yields_pure ?_
    simpa [attributes] using hname
  · refine yields_bind yields_labelledAttribute fun left hleft => yields_then fun _ =>
      yields_bind yields_labelledAttribute fun right hright => yields_pure ?_
    simpa [attributes] using ⟨hleft, hright⟩

namespace Regex

/-! ## Literals -/

/-- A property class as written: `\p` or `\P`, and a letter or a name in curly brackets. -/
def IsPropertyClass (cs : List Char) : Prop :=
  ∃ sign property, cs = '\\' :: sign :: property ∧ (sign = 'p' ∨ sign = 'P') ∧
    ((∃ c, property = [c] ∧ c.isAlpha = true) ∨
      ∃ name, property = '\x7b' :: name ++ ['\x7d'] ∧ name ≠ [] ∧
        ∀ c ∈ name, isPropertyChar c = true)

/-- What the literals among symbols look like: a property class where they are said to be one, and
otherwise one character, alone or behind a backslash. -/
def Symbol.WellFormed : Symbol → Prop
  | .literal text true => IsPropertyClass text.toList
  | .literal text false => ∃ c, text.toList = [c] ∨ text.toList = ['\\', c]
  | _ => True

theorem Symbol.wellFormed_ofChar (c : Char) : (Symbol.ofChar c).WellFormed :=
  ⟨c, .inl (String.toList_singleton c)⟩

theorem yields_symbol : Yields Symbol.WellFormed symbol := by
  refine yields_firstOf ?_
  simp only [List.forall_mem_cons, List.not_mem_nil, false_imp_iff, implies_true, and_true]
  refine ⟨yields_map (yields_of_forall ?_ _), yields_map (yields_of_forall ?_ _),
    yields_map (yields_of_forall ?_ _), yields_map (yields_of_forall ?_ _), yields_map ?_,
    yields_map ?_, yields_map (yields_of_forall Symbol.wellFormed_ofChar _)⟩
  · exact fun _ => trivial
  · exact fun _ => trivial
  · exact fun _ => trivial
  · exact fun _ => trivial
  · intro s cs rest hread
    obtain ⟨sign, property, hsign, rfl, t, -, hproperty⟩ := propertyClass_eq_read.mp hread
    refine ⟨sign, property, String.toList_ofList, by simpa using hsign, ?_⟩
    rcases orElse_eq_read.mp hproperty with hbraced | ⟨-, hletter⟩
    · obtain ⟨name, rfl, hne, hname, -⟩ := bracedProperty_eq_read.mp hbraced
      exact .inr ⟨name, rfl, hne, hname⟩
    · obtain ⟨c, mid, hc, hpure⟩ := bind_eq_read.mp hletter
      obtain ⟨rfl, -⟩ := pure_eq_read.mp hpure
      exact .inl ⟨c, rfl, (satisfy_eq_read.mp hc).1⟩
  · intro s cs rest hread
    obtain ⟨c, rfl, -⟩ := escape_eq_read.mp hread
    exact ⟨c, .inr String.toList_ofList⟩

/-- Whether a symbol among the members of a class is one character that stands for itself. -/
def Member.WellFormed : Member → Prop
  | .symbol sign => ∃ c, sign = .ofChar c
  | _ => True

theorem yields_member : Yields Member.WellFormed member := by
  refine yields_firstOf ?_
  simp only [List.forall_mem_cons, List.not_mem_nil, false_imp_iff, implies_true, and_true]
  refine ⟨yields_map (yields_of_forall ?_ _), yields_map (yields_of_forall ?_ _),
    yields_then fun _ => yields_then fun _ => yields_then fun _ => yields_pure ?_,
    yields_map (yields_of_forall ?_ _)⟩
  · exact fun _ => trivial
  · exact fun _ => trivial
  · trivial
  · exact fun c => ⟨c, rfl⟩

/-! ## Look-arounds -/

/-- The number of brackets that are open behind a text, where `depth` are open before it; none if
one is closed that was not opened. A backslash hides the character behind it. -/
def openBehind : Nat → List Char → Option Nat
  | depth, [] => some depth
  | depth, '\\' :: _ :: cs => openBehind depth cs
  | depth, '(' :: cs => openBehind (depth + 1) cs
  | 0, ')' :: _ => none
  | depth + 1, ')' :: cs => openBehind depth cs
  | depth, _ :: cs => openBehind depth cs

/-- Whether a text begins and ends like a look-around, and all brackets in it are closed. -/
def IsLook (cs : List Char) : Prop :=
  ['(', '?'] <+: cs ∧ [')'] <:+ cs ∧ openBehind 0 cs = some 0

/-- Whether a text closes the brackets that it opens, and no others. -/
def Closed (cs : List Char) : Prop :=
  ∀ depth rest, openBehind depth (cs ++ rest) = openBehind depth rest

theorem closed_nil : Closed [] := fun _ _ => rfl

theorem Closed.append {cs ds : List Char} (hcs : Closed cs) (hds : Closed ds) :
    Closed (cs ++ ds) := by
  intro depth rest
  rw [List.append_assoc, hcs, hds]

theorem closed_flatten {parts : List (List Char)} (h : ∀ part ∈ parts, Closed part) :
    Closed parts.flatten := by
  induction parts with
  | nil => exact closed_nil
  | cons part parts ih =>
    obtain ⟨hpart, hparts⟩ := List.forall_mem_cons.mp h
    exact hpart.append (ih hparts)

theorem closed_escape (c : Char) : Closed ['\\', c] := by
  intro depth rest
  simp [openBehind]

theorem closed_plain {c : Char} (h : LookPlain c) : Closed [c] := by
  intro depth rest
  simp only [LookPlain, List.mem_cons, List.not_mem_nil, or_false, not_or] at h
  simp [openBehind, h]

theorem Closed.bracket {body : List Char} (h : Closed body) : Closed ('(' :: body ++ [')']) := by
  intro depth rest
  simp [openBehind, h _ _]

theorem yields_lookBody (nesting : Nesting) : Yields Closed (lookBody nesting) := by
  refine yields_recursive (fun _ => Closed) ?_ nesting
  intro inner hinner nesting
  refine yields_map (Yields.imp ?_ (yields_many (P := Closed) (yields_firstOf ?_)))
  · exact fun _ => closed_flatten
  · simp only [List.forall_mem_cons, List.not_mem_nil, false_imp_iff, implies_true, and_true]
    refine ⟨?_, ?_, ?_⟩
    · intro s cs rest hread
      obtain ⟨c, rfl, -⟩ := escape_eq_read.mp hread
      exact closed_escape c
    · intro s cs rest hread
      obtain ⟨body, inside, rfl, -, -, hbody⟩ := lookBracket_eq_read.mp hread
      exact (hinner nesting.deeper inside body _ hbody).bracket
    · intro s cs rest hread
      obtain ⟨c, rfl, hc⟩ := map_eq_read.mp hread
      exact closed_plain (noneOf_eq_read.mp hc).1

theorem yields_look (nesting : Nesting) : Yields IsLook (look nesting) := by
  intro s cs rest hread
  obtain ⟨body, rfl, inside, -, hbody⟩ := look_eq_read.mp hread
  have hclosed := yields_lookBody nesting inside body _ hbody
  refine ⟨⟨body ++ [')'], by simp⟩, ⟨['(', '?'] ++ body, rfl⟩, ?_⟩
  have hflagged : Closed ('?' :: body) := (closed_plain (by simp [LookPlain])).append hclosed
  simpa [openBehind] using hflagged.bracket 0 []

/-! ## Rows -/

/-- Whether no row of atoms in a branch is followed by a further one. -/
def UncutRows (branch : Branch) : Prop :=
  ∀ atoms others, ¬ [.row atoms, .row others] <:+: branch

theorem pieceOf_eq_read_row {choice : Nesting → Parser (List Branch)} {nesting : Nesting}
    {s rest : List Char} {atoms : List Atom}
    (h : pieceOf choice nesting s = .read (.row atoms) rest) :
    atoms ≠ [] ∧ many atom s = .read atoms rest := by
  rcases pieceOf_eq_read h with ⟨_, hpiece, -⟩ | ⟨_, _, hpiece, -⟩ | ⟨as, hne, hpiece, -, has⟩
  · cases hpiece
  · cases hpiece
  · obtain rfl := Piece.row.inj hpiece
    exact ⟨hne, has⟩

/-- A row takes all atoms there are, so none is left for a row behind it. -/
theorem yields_uncutRows (choice : Nesting → Parser (List Branch)) (nesting : Nesting) :
    Yields UncutRows (many (pieceOf choice nesting)) := by
  intro s branch
  induction branch generalizing s with
  | nil =>
    intro rest _ atoms others hinfix
    exact absurd (List.infix_nil.mp hinfix) nofun
  | cons piece branch ih =>
    intro rest hread atoms others hinfix
    obtain ⟨mid, hpiece, -, hmore⟩ := many_eq_read_cons.mp hread
    rcases List.infix_cons_iff.mp hinfix with hhere | hbelow
    · obtain ⟨rfl, branch', rfl⟩ := List.cons_prefix_cons.mp hhere
      obtain ⟨_, hnext, -, -⟩ := many_eq_read_cons.mp hmore
      obtain ⟨-, hatoms⟩ := pieceOf_eq_read_row hpiece
      obtain ⟨hne, hothers⟩ := pieceOf_eq_read_row hnext
      -- The first atom of the second row would have been read into the first one.
      obtain ⟨a, as, rfl⟩ := List.exists_cons_of_ne_nil hne
      obtain ⟨_, ha, hlt, -⟩ := many_eq_read_cons.mp hothers
      exact not_shorter_of_many hatoms ha hlt
    · exact ih mid rest hmore atoms others hbelow

end Regex

/-! ## Nodes -/

/-- What a node of a query that was read looks like. -/
def Node.WellFormed : Node → Prop
  | .sequence s => s.chains ≠ []
  | .chain c => c.elements ≠ []
  | .disjunction alternatives => alternatives ≠ []
  | .conjunction conditions => conditions ≠ []
  | .globals conditions => conditions ≠ []
  | .regex r => r.branches ≠ []
  | .group branches => branches ≠ []
  | .row atoms => atoms ≠ []
  | .charClass c => c.members ≠ []
  | .closing s => s.conditions = none
  | .struct s => IsIdentifier s.name
  | .aligned corpus _ => IsIdentifier corpus
  | .condition (.test t) => ∀ attr ∈ t.attribute?, IsIdentifier attr
  | .globalCondition c => ∀ attr ∈ c.attributes, IsIdentifier attr
  | .branch b => Regex.UncutRows b
  | .look text => Regex.IsLook text.toList
  | .member m => m.WellFormed
  | .symbol s => s.WellFormed
  | _ => True

end CorpusCost
