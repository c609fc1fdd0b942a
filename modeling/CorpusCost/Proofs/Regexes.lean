import CorpusCost.Query.Basic

/-!
# The expressions of a query

A query holds regular expressions in its tokens and conditions. `mapRegexes` changes each of them
in its place and nothing else; `regexes` lists them. A query stays as it is exactly where each
expression in the list does.
-/

set_option autoImplicit false

namespace CorpusCost

variable {f : Regex → Regex}

/-- `f` leaves each expression of the list as it is. -/
def Fixes (f : Regex → Regex) (regexes : List Regex) : Prop := ∀ regex ∈ regexes, f regex = regex

@[simp] theorem fixes_nil : Fixes f [] := by
  intro regex hregex
  simp at hregex

@[simp] theorem fixes_cons {regex : Regex} {regexes : List Regex} :
    Fixes f (regex :: regexes) ↔ f regex = regex ∧ Fixes f regexes := by
  simp [Fixes]

@[simp] theorem fixes_append {regexes more : List Regex} :
    Fixes f (regexes ++ more) ↔ Fixes f regexes ∧ Fixes f more := by
  unfold Fixes
  simp only [List.mem_append]
  constructor
  · intro h
    exact ⟨fun regex hregex => h regex (.inl hregex), fun regex hregex => h regex (.inr hregex)⟩
  · rintro ⟨hfirst, hmore⟩ regex (hregex | hregex)
    · exact hfirst regex hregex
    · exact hmore regex hregex

/-! ## Conditions -/

/-- The expressions a look-up is given. -/
def SimilarityArgs.regexes : SimilarityArgs → List Regex
  | .numbers _ _ => []
  | .patterns first second third => [first, second, third]

/-- The arguments of a look-up with each expression changed. -/
def SimilarityArgs.mapRegexes (f : Regex → Regex) : SimilarityArgs → SimilarityArgs
  | .numbers first second => .numbers first second
  | .patterns first second third => .patterns (f first) (f second) (f third)

/-- The expressions of a test. -/
def Test.regexes : Test → List Regex
  | .matching _ _ _ regex => [regex]
  | .similarity _ args => args.regexes
  | _ => []

/-- A test with each expression changed. -/
def Test.mapRegexes (f : Regex → Regex) : Test → Test
  | .matching attr negated comparison regex => .matching attr negated comparison (f regex)
  | .similarity keyword args => .similarity keyword (args.mapRegexes f)
  | test => test

theorem Test.mapRegexes_eq_self_iff (test : Test) :
    test.mapRegexes f = test ↔ Fixes f test.regexes := by
  cases test with
  | exactly => simp [Test.mapRegexes, Test.regexes]
  | matching => simp [Test.mapRegexes, Test.regexes]
  | positionRange => simp [Test.mapRegexes, Test.regexes]
  | position => simp [Test.mapRegexes, Test.regexes]
  | similarity keyword args =>
    cases args <;>
      simp [Test.mapRegexes, Test.regexes, SimilarityArgs.mapRegexes, SimilarityArgs.regexes]

mutual

/-- The expressions of a condition. -/
def Condition.regexes : Condition → List Regex
  | .test test => test.regexes
  | .not inner => Condition.regexes inner
  | .bracketed _ alternatives => Disjunction.regexes alternatives

/-- The expressions of conditions that hold together. -/
def Conjunction.regexes : List Condition → List Regex
  | [] => []
  | condition :: conditions => Condition.regexes condition ++ Conjunction.regexes conditions

/-- The expressions of alternatives. -/
def Disjunction.regexes : List (List Condition) → List Regex
  | [] => []
  | conditions :: alternatives =>
    Conjunction.regexes conditions ++ Disjunction.regexes alternatives

end

mutual

/-- A condition with each expression changed. -/
def Condition.mapRegexes (f : Regex → Regex) : Condition → Condition
  | .test test => .test (test.mapRegexes f)
  | .not inner => .not (Condition.mapRegexes f inner)
  | .bracketed bracket alternatives => .bracketed bracket (Disjunction.mapRegexes f alternatives)

/-- Conditions that hold together, with each expression changed. -/
def Conjunction.mapRegexes (f : Regex → Regex) : List Condition → List Condition
  | [] => []
  | condition :: conditions =>
    Condition.mapRegexes f condition :: Conjunction.mapRegexes f conditions

/-- Alternatives with each expression changed. -/
def Disjunction.mapRegexes (f : Regex → Regex) : List (List Condition) → List (List Condition)
  | [] => []
  | conditions :: alternatives =>
    Conjunction.mapRegexes f conditions :: Disjunction.mapRegexes f alternatives

end

theorem Conjunction.mapRegexes_eq_map (conditions : Conjunction) :
    Conjunction.mapRegexes f conditions = conditions.map (Condition.mapRegexes f) := by
  induction conditions with
  | nil => rfl
  | cons condition conditions ih => rw [Conjunction.mapRegexes, ih, List.map_cons]

theorem Disjunction.mapRegexes_eq_map (alternatives : Disjunction) :
    Disjunction.mapRegexes f alternatives = alternatives.map (Conjunction.mapRegexes f) := by
  induction alternatives with
  | nil => rfl
  | cons conditions alternatives ih => rw [Disjunction.mapRegexes, ih, List.map_cons]

mutual

theorem Condition.mapRegexes_eq_self_iff : (condition : Condition) →
    (Condition.mapRegexes f condition = condition ↔ Fixes f (Condition.regexes condition))
  | .test test => by
    rw [Condition.mapRegexes, Condition.regexes, Condition.test.injEq]
    exact Test.mapRegexes_eq_self_iff test
  | .not inner => by
    rw [Condition.mapRegexes, Condition.regexes, Condition.not.injEq]
    exact Condition.mapRegexes_eq_self_iff inner
  | .bracketed bracket alternatives => by
    rw [Condition.mapRegexes, Condition.regexes, Condition.bracketed.injEq, and_iff_right rfl]
    exact Disjunction.mapRegexes_eq_self_iff alternatives

theorem Conjunction.mapRegexes_eq_self_iff : (conditions : List Condition) →
    (Conjunction.mapRegexes f conditions = conditions ↔ Fixes f (Conjunction.regexes conditions))
  | [] => by simp [Conjunction.mapRegexes, Conjunction.regexes]
  | condition :: conditions => by
    rw [Conjunction.mapRegexes, Conjunction.regexes, List.cons_eq_cons, fixes_append]
    exact and_congr (Condition.mapRegexes_eq_self_iff condition)
      (Conjunction.mapRegexes_eq_self_iff conditions)

theorem Disjunction.mapRegexes_eq_self_iff : (alternatives : List (List Condition)) →
    (Disjunction.mapRegexes f alternatives = alternatives ↔
      Fixes f (Disjunction.regexes alternatives))
  | [] => by simp [Disjunction.mapRegexes, Disjunction.regexes]
  | conditions :: alternatives => by
    rw [Disjunction.mapRegexes, Disjunction.regexes, List.cons_eq_cons, fixes_append]
    exact and_congr (Conjunction.mapRegexes_eq_self_iff conditions)
      (Disjunction.mapRegexes_eq_self_iff alternatives)

end

/-! ## Tokens -/

mutual

/-- The expressions of a position. -/
def Position.regexes : Position → List Regex
  | ⟨_, token⟩ => Token.regexes token

/-- The expressions of a token. -/
def Token.regexes : Token → List Regex
  | .conditions none => []
  | .conditions (some alternatives) => Disjunction.regexes alternatives
  | .word regex => [regex]
  | .anchored _ regex => [regex]
  | .mu => []
  | .pairing pairing => Pairing.regexes pairing

/-- The expressions of a pairing. -/
def Pairing.regexes : Pairing → List Regex
  | .union left right => Position.regexes left ++ Position.regexes right
  | .meet left right _ => Position.regexes left ++ Position.regexes right

end

mutual

/-- A position with each expression changed. -/
def Position.mapRegexes (f : Regex → Regex) : Position → Position
  | ⟨label, token⟩ => ⟨label, Token.mapRegexes f token⟩

/-- A token with each expression changed. -/
def Token.mapRegexes (f : Regex → Regex) : Token → Token
  | .conditions none => .conditions none
  | .conditions (some alternatives) => .conditions (some (Disjunction.mapRegexes f alternatives))
  | .word regex => .word (f regex)
  | .anchored number regex => .anchored number (f regex)
  | .mu => .mu
  | .pairing pairing => .pairing (Pairing.mapRegexes f pairing)

/-- A pairing with each expression changed. -/
def Pairing.mapRegexes (f : Regex → Regex) : Pairing → Pairing
  | .union left right => .union (Position.mapRegexes f left) (Position.mapRegexes f right)
  | .meet left right window =>
    .meet (Position.mapRegexes f left) (Position.mapRegexes f right) window

end

mutual

theorem Position.mapRegexes_eq_self_iff : (position : Position) →
    (Position.mapRegexes f position = position ↔ Fixes f (Position.regexes position))
  | ⟨label, token⟩ => by
    rw [Position.mapRegexes, Position.regexes, Position.mk.injEq, and_iff_right rfl]
    exact Token.mapRegexes_eq_self_iff token

theorem Token.mapRegexes_eq_self_iff : (token : Token) →
    (Token.mapRegexes f token = token ↔ Fixes f (Token.regexes token))
  | .conditions none => by simp [Token.mapRegexes, Token.regexes]
  | .conditions (some alternatives) => by
    rw [Token.mapRegexes, Token.regexes, Token.conditions.injEq, Option.some.injEq]
    exact Disjunction.mapRegexes_eq_self_iff alternatives
  | .word regex => by simp [Token.mapRegexes, Token.regexes]
  | .anchored number regex => by simp [Token.mapRegexes, Token.regexes]
  | .mu => by simp [Token.mapRegexes, Token.regexes]
  | .pairing pairing => by
    rw [Token.mapRegexes, Token.regexes, Token.pairing.injEq]
    exact Pairing.mapRegexes_eq_self_iff pairing

theorem Pairing.mapRegexes_eq_self_iff : (pairing : Pairing) →
    (Pairing.mapRegexes f pairing = pairing ↔ Fixes f (Pairing.regexes pairing))
  | .union left right => by
    rw [Pairing.mapRegexes, Pairing.regexes, Pairing.union.injEq, fixes_append]
    exact and_congr (Position.mapRegexes_eq_self_iff left) (Position.mapRegexes_eq_self_iff right)
  | .meet left right window => by
    rw [Pairing.mapRegexes, Pairing.regexes, Pairing.meet.injEq, and_iff_left rfl, fixes_append]
    exact and_congr (Position.mapRegexes_eq_self_iff left) (Position.mapRegexes_eq_self_iff right)

end

/-! ## Chains -/

/-- The expressions in the conditions of a structure. -/
def Structure.regexes (struct : Structure) : List Regex :=
  match struct.conditions with
  | none => []
  | some alternatives => Disjunction.regexes alternatives

/-- A structure with each expression changed. -/
def Structure.mapRegexes (f : Regex → Regex) (struct : Structure) : Structure :=
  { struct with conditions := struct.conditions.map (Disjunction.mapRegexes f) }

theorem Structure.mapRegexes_eq_self_iff (struct : Structure) :
    struct.mapRegexes f = struct ↔ Fixes f struct.regexes := by
  obtain ⟨name, conditions⟩ := struct
  cases conditions with
  | none => simp [Structure.mapRegexes, Structure.regexes]
  | some alternatives =>
    simp [Structure.mapRegexes, Structure.regexes, Disjunction.mapRegexes_eq_self_iff]

mutual

/-- The expressions of a sequence. -/
def Sequence.regexes : Sequence → List Regex
  | ⟨chains⟩ => Chain.regexesOfAll chains

/-- The expressions of chains. -/
def Chain.regexesOfAll : List Chain → List Regex
  | [] => []
  | chain :: chains => Chain.regexes chain ++ Chain.regexesOfAll chains

/-- The expressions of a chain. -/
def Chain.regexes : Chain → List Regex
  | ⟨_, elements⟩ => Element.regexesOfAll elements

/-- The expressions of elements. -/
def Element.regexesOfAll : List Element → List Regex
  | [] => []
  | element :: elements => Element.regexes element ++ Element.regexesOfAll elements

/-- The expressions of an element. -/
def Element.regexes : Element → List Regex
  | .atom atom _ => Atom.regexes atom
  | .opening struct _ => struct.regexes
  | .closing struct => struct.regexes

/-- The expressions of an atom. -/
def Atom.regexes : Atom → List Regex
  | .position position => position.regexes
  | .group sequence blocks => Sequence.regexes sequence ++ Block.regexesOfAll blocks

/-- The expressions of blocks. -/
def Block.regexesOfAll : List Block → List Regex
  | [] => []
  | block :: blocks => Block.regexes block ++ Block.regexesOfAll blocks

/-- The expressions of a block. -/
def Block.regexes : Block → List Regex
  | ⟨_, _, scope⟩ => Scope.regexes scope

/-- The expressions of a scope. -/
def Scope.regexes : Scope → List Regex
  | .sequence sequence => Sequence.regexes sequence
  | .number _ => []
  | .aligned _ _ sequence => Sequence.regexes sequence

end

mutual

/-- A sequence with each expression changed. -/
def Sequence.mapRegexes (f : Regex → Regex) : Sequence → Sequence
  | ⟨chains⟩ => ⟨Chain.mapRegexesOfAll f chains⟩

/-- Chains with each expression changed. -/
def Chain.mapRegexesOfAll (f : Regex → Regex) : List Chain → List Chain
  | [] => []
  | chain :: chains => Chain.mapRegexes f chain :: Chain.mapRegexesOfAll f chains

/-- A chain with each expression changed. -/
def Chain.mapRegexes (f : Regex → Regex) : Chain → Chain
  | ⟨negated, elements⟩ => ⟨negated, Element.mapRegexesOfAll f elements⟩

/-- Elements with each expression changed. -/
def Element.mapRegexesOfAll (f : Regex → Regex) : List Element → List Element
  | [] => []
  | element :: elements => Element.mapRegexes f element :: Element.mapRegexesOfAll f elements

/-- An element with each expression changed. -/
def Element.mapRegexes (f : Regex → Regex) : Element → Element
  | .atom atom repetition => .atom (Atom.mapRegexes f atom) repetition
  | .opening struct selfClosing => .opening (struct.mapRegexes f) selfClosing
  | .closing struct => .closing (struct.mapRegexes f)

/-- An atom with each expression changed. -/
def Atom.mapRegexes (f : Regex → Regex) : Atom → Atom
  | .position position => .position (position.mapRegexes f)
  | .group sequence blocks =>
    .group (Sequence.mapRegexes f sequence) (Block.mapRegexesOfAll f blocks)

/-- Blocks with each expression changed. -/
def Block.mapRegexesOfAll (f : Regex → Regex) : List Block → List Block
  | [] => []
  | block :: blocks => Block.mapRegexes f block :: Block.mapRegexesOfAll f blocks

/-- A block with each expression changed. -/
def Block.mapRegexes (f : Regex → Regex) : Block → Block
  | ⟨negated, keyword, scope⟩ => ⟨negated, keyword, Scope.mapRegexes f scope⟩

/-- A scope with each expression changed. -/
def Scope.mapRegexes (f : Regex → Regex) : Scope → Scope
  | .sequence sequence => .sequence (Sequence.mapRegexes f sequence)
  | .number number => .number number
  | .aligned negated corpus sequence => .aligned negated corpus (Sequence.mapRegexes f sequence)

end

theorem Chain.mapRegexesOfAll_eq_map (chains : List Chain) :
    Chain.mapRegexesOfAll f chains = chains.map (Chain.mapRegexes f) := by
  induction chains with
  | nil => rw [Chain.mapRegexesOfAll, List.map_nil]
  | cons chain chains ih => rw [Chain.mapRegexesOfAll, ih, List.map_cons]

theorem Element.mapRegexesOfAll_eq_map (elements : List Element) :
    Element.mapRegexesOfAll f elements = elements.map (Element.mapRegexes f) := by
  induction elements with
  | nil => rw [Element.mapRegexesOfAll, List.map_nil]
  | cons element elements ih => rw [Element.mapRegexesOfAll, ih, List.map_cons]

theorem Block.mapRegexesOfAll_eq_map (blocks : List Block) :
    Block.mapRegexesOfAll f blocks = blocks.map (Block.mapRegexes f) := by
  induction blocks with
  | nil => rw [Block.mapRegexesOfAll, List.map_nil]
  | cons block blocks ih => rw [Block.mapRegexesOfAll, ih, List.map_cons]

mutual

theorem Sequence.mapRegexes_eq_self_iff : (sequence : Sequence) →
    (Sequence.mapRegexes f sequence = sequence ↔ Fixes f (Sequence.regexes sequence))
  | ⟨chains⟩ => by
    rw [Sequence.mapRegexes, Sequence.regexes, Sequence.mk.injEq]
    exact Chain.mapRegexesOfAll_eq_self_iff chains

theorem Chain.mapRegexesOfAll_eq_self_iff : (chains : List Chain) →
    (Chain.mapRegexesOfAll f chains = chains ↔ Fixes f (Chain.regexesOfAll chains))
  | [] => by simp [Chain.mapRegexesOfAll, Chain.regexesOfAll]
  | chain :: chains => by
    rw [Chain.mapRegexesOfAll, Chain.regexesOfAll, List.cons_eq_cons, fixes_append]
    exact and_congr (Chain.mapRegexes_eq_self_iff chain) (Chain.mapRegexesOfAll_eq_self_iff chains)

theorem Chain.mapRegexes_eq_self_iff : (chain : Chain) →
    (Chain.mapRegexes f chain = chain ↔ Fixes f (Chain.regexes chain))
  | ⟨negated, elements⟩ => by
    rw [Chain.mapRegexes, Chain.regexes, Chain.mk.injEq, and_iff_right rfl]
    exact Element.mapRegexesOfAll_eq_self_iff elements

theorem Element.mapRegexesOfAll_eq_self_iff : (elements : List Element) →
    (Element.mapRegexesOfAll f elements = elements ↔ Fixes f (Element.regexesOfAll elements))
  | [] => by simp [Element.mapRegexesOfAll, Element.regexesOfAll]
  | element :: elements => by
    rw [Element.mapRegexesOfAll, Element.regexesOfAll, List.cons_eq_cons, fixes_append]
    exact and_congr (Element.mapRegexes_eq_self_iff element)
      (Element.mapRegexesOfAll_eq_self_iff elements)

theorem Element.mapRegexes_eq_self_iff : (element : Element) →
    (Element.mapRegexes f element = element ↔ Fixes f (Element.regexes element))
  | .atom atom repetition => by
    rw [Element.mapRegexes, Element.regexes, Element.atom.injEq, and_iff_left rfl]
    exact Atom.mapRegexes_eq_self_iff atom
  | .opening struct selfClosing => by
    rw [Element.mapRegexes, Element.regexes, Element.opening.injEq, and_iff_left rfl]
    exact Structure.mapRegexes_eq_self_iff struct
  | .closing struct => by
    rw [Element.mapRegexes, Element.regexes, Element.closing.injEq]
    exact Structure.mapRegexes_eq_self_iff struct

theorem Atom.mapRegexes_eq_self_iff : (atom : Atom) →
    (Atom.mapRegexes f atom = atom ↔ Fixes f (Atom.regexes atom))
  | .position position => by
    rw [Atom.mapRegexes, Atom.regexes, Atom.position.injEq]
    exact Position.mapRegexes_eq_self_iff position
  | .group sequence blocks => by
    rw [Atom.mapRegexes, Atom.regexes, Atom.group.injEq, fixes_append]
    exact and_congr (Sequence.mapRegexes_eq_self_iff sequence)
      (Block.mapRegexesOfAll_eq_self_iff blocks)

theorem Block.mapRegexesOfAll_eq_self_iff : (blocks : List Block) →
    (Block.mapRegexesOfAll f blocks = blocks ↔ Fixes f (Block.regexesOfAll blocks))
  | [] => by simp [Block.mapRegexesOfAll, Block.regexesOfAll]
  | block :: blocks => by
    rw [Block.mapRegexesOfAll, Block.regexesOfAll, List.cons_eq_cons, fixes_append]
    exact and_congr (Block.mapRegexes_eq_self_iff block) (Block.mapRegexesOfAll_eq_self_iff blocks)

theorem Block.mapRegexes_eq_self_iff : (block : Block) →
    (Block.mapRegexes f block = block ↔ Fixes f (Block.regexes block))
  | ⟨negated, keyword, scope⟩ => by
    rw [Block.mapRegexes, Block.regexes, Block.mk.injEq, and_iff_right rfl, and_iff_right rfl]
    exact Scope.mapRegexes_eq_self_iff scope

theorem Scope.mapRegexes_eq_self_iff : (scope : Scope) →
    (Scope.mapRegexes f scope = scope ↔ Fixes f (Scope.regexes scope))
  | .sequence sequence => by
    rw [Scope.mapRegexes, Scope.regexes, Scope.sequence.injEq]
    exact Sequence.mapRegexes_eq_self_iff sequence
  | .number number => by simp [Scope.mapRegexes, Scope.regexes]
  | .aligned negated corpus sequence => by
    rw [Scope.mapRegexes, Scope.regexes, Scope.aligned.injEq, and_iff_right rfl,
      and_iff_right rfl]
    exact Sequence.mapRegexes_eq_self_iff sequence

end

/-! ## Queries -/

/-- The expressions of a query. -/
def Query.regexes (query : Query) : List Regex :=
  (query.sequence.elim [] Sequence.regexes) ++ Block.regexesOfAll query.blocks

/-- A query with each expression changed. -/
def Query.mapRegexes (f : Regex → Regex) (query : Query) : Query where
  sequence := query.sequence.map (Sequence.mapRegexes f)
  globals := query.globals
  blocks := Block.mapRegexesOfAll f query.blocks

/-- A query stays as it is exactly where each of its expressions does. -/
theorem Query.mapRegexes_eq_self_iff (query : Query) :
    query.mapRegexes f = query ↔ ∀ regex ∈ query.regexes, f regex = regex := by
  obtain ⟨sequence, globals, blocks⟩ := query
  change _ ↔ Fixes f (sequence.elim [] Sequence.regexes ++ Block.regexesOfAll blocks)
  rw [Query.mapRegexes, Query.mk.injEq, and_iff_right rfl, fixes_append]
  refine and_congr ?_ (Block.mapRegexesOfAll_eq_self_iff blocks)
  cases sequence with
  | none => simp
  | some sequence => simp [Sequence.mapRegexes_eq_self_iff]

end CorpusCost
