import CorpusCost.Condition.Basic

/-!
# Corpus queries

The tree of a query: a choice of chains of tokens, tags and bracketed groups, conditions across
labelled tokens, and blocks that say in what the match lies or what it holds. Trees are compared
for equality.
-/

set_option autoImplicit false

namespace CorpusCost

/-! ## Tokens -/

mutual

/-- One token, with an optional label. -/
structure Position where
  /-- The label by which conditions across tokens refer to the token. -/
  label : Option Nat
  /-- The token itself. -/
  token : Token

/-- What a token is. -/
inductive Token where
  /-- `[…]`: a token that meets conditions; any token when there are none. -/
  | conditions (alternatives : Option Disjunction)
  /-- `"…"`: a token whose default attribute matches. -/
  | word (regex : Regex)
  /-- `~2"…"`: a token similar to the matching ones. -/
  | anchored (number : Option Nat) (regex : Regex)
  /-- `mu` -/
  | mu
  /-- Two tokens taken together. -/
  | pairing (pairing : Pairing)

/-- Two tokens taken together. -/
inductive Pairing where
  /-- Either of the two. -/
  | union (left right : Position)
  /-- The first with the second near it, within a window of distances where one is given. -/
  | meet (left right : Position) (window : Option (Int × Int))

end

deriving instance DecidableEq for Position, Token, Pairing

/-! ## Chains -/

/-- How often an element occurs. -/
inductive Repetition where
  /-- `*` -/
  | zeroOrMore
  /-- `+` -/
  | oneOrMore
  /-- `?` -/
  | zeroOrOne
  /-- Counting bounds. -/
  | bounds (bounds : Bounds)
  deriving DecidableEq, Repr

/-- Whether a repetition has no upper end. -/
def Repetition.isUnbounded : Repetition → Bool
  | .zeroOrMore => true
  | .oneOrMore => true
  | .zeroOrOne => false
  | .bounds range => range.hi.isNone

/-- A structure of the corpus, such as a sentence, with optional conditions on it. -/
structure Structure where
  /-- The name of the structure. -/
  name : String
  /-- The conditions it has to meet. -/
  conditions : Option Disjunction
  deriving DecidableEq

/-- Structures that cover a whole corpus in many small pieces. -/
def bigStructures : List String := ["s", "g", "p"]

/-- Whether structures of this name cover the whole corpus in many small pieces. -/
def isBigStructure (name : String) : Bool := bigStructures.contains name

/-- The word that begins a block. -/
inductive BlockKeyword where
  /-- The match lies within the scope. -/
  | within
  /-- The match holds the scope. -/
  | containing
  deriving DecidableEq, Repr

mutual

/-- A choice of chains. -/
structure Sequence where
  /-- The chains, in order. -/
  chains : List Chain

/-- Elements one after the other. -/
structure Chain where
  /-- Whether the chain is excluded. -/
  negated : Bool
  /-- The elements, in order. -/
  elements : List Element

/-- A member of a chain. -/
inductive Element where
  /-- A token or a group, occurring once or as often as the repetition says. -/
  | atom (atom : Atom) (repetition : Option Repetition)
  /-- The beginning of a structure, or a whole structure. -/
  | opening (struct : Structure) (selfClosing : Bool)
  /-- The end of a structure. -/
  | closing (struct : Structure)

/-- What may be repeated. -/
inductive Atom where
  /-- One token. -/
  | position (position : Position)
  /-- A bracketed sequence with blocks of its own. -/
  | group (sequence : Sequence) (blocks : List Block)

/-- What a match lies in, or what it holds. -/
structure Block where
  /-- Whether matches that meet the block are excluded. -/
  negated : Bool
  /-- Whether the match lies in the scope or holds it. -/
  keyword : BlockKeyword
  /-- The scope. -/
  scope : Scope

/-- The scope of a block. -/
inductive Scope where
  /-- What a sequence matches. -/
  | sequence (sequence : Sequence)
  /-- A number of tokens. -/
  | number (number : Nat)
  /-- What a sequence matches in an aligned corpus. -/
  | aligned (negated : Bool) (corpus : String) (sequence : Sequence)

end

/-- How a frequency is compared with a number. -/
inductive FrequencyComparison where
  /-- `=` -/
  | equal
  /-- `<=` -/
  | atMost
  /-- `>=` -/
  | atLeast
  /-- `<` -/
  | less
  /-- `>` -/
  | greater
  deriving DecidableEq, Repr

/-- A condition across labelled tokens. -/
inductive GlobalCondition where
  /-- Attributes of two labelled tokens agree, or differ. -/
  | agreement (left : Nat) (leftAttr : String) (negated : Bool) (right : Nat)
      (rightAttr : String)
  /-- The frequency of an attribute of a labelled token compares with a number. -/
  | frequency (label : Nat) (attr : String) (negated : Bool) (comparison : FrequencyComparison)
      (value : Nat)
  deriving DecidableEq, Repr

/-- A corpus query. -/
structure Query where
  /-- What is searched for. -/
  sequence : Option Sequence
  /-- Conditions across labelled tokens. -/
  globals : Option (List GlobalCondition)
  /-- What the match lies in or holds. -/
  blocks : List Block

/-! ## Equality of sequences -/

mutual

/-- Decides whether two sequences are equal. -/
def Sequence.decEq : (s t : Sequence) → Decidable (s = t)
  | ⟨cs⟩, ⟨ds⟩ =>
    match Chain.decEqList cs ds with
    | isTrue h => isTrue (h ▸ rfl)
    | isFalse h => isFalse fun e => h (Sequence.mk.inj e)

/-- Decides whether two chains are equal. -/
def Chain.decEq : (c d : Chain) → Decidable (c = d)
  | ⟨m, es⟩, ⟨n, fs⟩ =>
    match (inferInstance : Decidable (m = n)), Element.decEqList es fs with
    | isTrue h, isTrue hs => isTrue (h ▸ hs ▸ rfl)
    | isFalse h, _ => isFalse fun e => h (Chain.mk.inj e).1
    | _, isFalse hs => isFalse fun e => hs (Chain.mk.inj e).2

/-- Decides whether two lists of chains are equal. -/
def Chain.decEqList : (cs ds : List Chain) → Decidable (cs = ds)
  | [], [] => isTrue rfl
  | [], _ :: _ => isFalse nofun
  | _ :: _, [] => isFalse nofun
  | c :: cs, d :: ds =>
    match Chain.decEq c d, Chain.decEqList cs ds with
    | isTrue h, isTrue hs => isTrue (h ▸ hs ▸ rfl)
    | isFalse h, _ => isFalse fun e => h (List.cons.inj e).1
    | _, isFalse hs => isFalse fun e => hs (List.cons.inj e).2

/-- Decides whether two elements are equal. -/
def Element.decEq : (e f : Element) → Decidable (e = f)
  | .atom a r, .atom b q =>
    match Atom.decEq a b, (inferInstance : Decidable (r = q)) with
    | isTrue h, isTrue hs => isTrue (h ▸ hs ▸ rfl)
    | isFalse h, _ => isFalse fun e => h (Element.atom.inj e).1
    | _, isFalse hs => isFalse fun e => hs (Element.atom.inj e).2
  | .opening s m, .opening t n => decidable_of_iff (s = t ∧ m = n) (by simp)
  | .closing s, .closing t => decidable_of_iff (s = t) (by simp)
  | .atom _ _, .opening _ _ => isFalse nofun
  | .atom _ _, .closing _ => isFalse nofun
  | .opening _ _, .atom _ _ => isFalse nofun
  | .opening _ _, .closing _ => isFalse nofun
  | .closing _, .atom _ _ => isFalse nofun
  | .closing _, .opening _ _ => isFalse nofun

/-- Decides whether two lists of elements are equal. -/
def Element.decEqList : (es fs : List Element) → Decidable (es = fs)
  | [], [] => isTrue rfl
  | [], _ :: _ => isFalse nofun
  | _ :: _, [] => isFalse nofun
  | e :: es, f :: fs =>
    match Element.decEq e f, Element.decEqList es fs with
    | isTrue h, isTrue hs => isTrue (h ▸ hs ▸ rfl)
    | isFalse h, _ => isFalse fun e => h (List.cons.inj e).1
    | _, isFalse hs => isFalse fun e => hs (List.cons.inj e).2

/-- Decides whether two atoms are equal. -/
def Atom.decEq : (a b : Atom) → Decidable (a = b)
  | .position p, .position q => decidable_of_iff (p = q) (by simp)
  | .group s bs, .group t cs =>
    match Sequence.decEq s t, Block.decEqList bs cs with
    | isTrue h, isTrue hs => isTrue (h ▸ hs ▸ rfl)
    | isFalse h, _ => isFalse fun e => h (Atom.group.inj e).1
    | _, isFalse hs => isFalse fun e => hs (Atom.group.inj e).2
  | .position _, .group _ _ => isFalse nofun
  | .group _ _, .position _ => isFalse nofun

/-- Decides whether two blocks are equal. -/
def Block.decEq : (b c : Block) → Decidable (b = c)
  | ⟨m, k, s⟩, ⟨n, l, t⟩ =>
    match (inferInstance : Decidable (m = n ∧ k = l)), Scope.decEq s t with
    | isTrue h, isTrue hs => isTrue (h.1 ▸ h.2 ▸ hs ▸ rfl)
    | isFalse h, _ => isFalse fun e => h ⟨(Block.mk.inj e).1, (Block.mk.inj e).2.1⟩
    | _, isFalse hs => isFalse fun e => hs (Block.mk.inj e).2.2

/-- Decides whether two lists of blocks are equal. -/
def Block.decEqList : (bs cs : List Block) → Decidable (bs = cs)
  | [], [] => isTrue rfl
  | [], _ :: _ => isFalse nofun
  | _ :: _, [] => isFalse nofun
  | b :: bs, c :: cs =>
    match Block.decEq b c, Block.decEqList bs cs with
    | isTrue h, isTrue hs => isTrue (h ▸ hs ▸ rfl)
    | isFalse h, _ => isFalse fun e => h (List.cons.inj e).1
    | _, isFalse hs => isFalse fun e => hs (List.cons.inj e).2

/-- Decides whether two scopes are equal. -/
def Scope.decEq : (s t : Scope) → Decidable (s = t)
  | .sequence s, .sequence t =>
    match Sequence.decEq s t with
    | isTrue h => isTrue (h ▸ rfl)
    | isFalse h => isFalse fun e => h (Scope.sequence.inj e)
  | .number m, .number n => decidable_of_iff (m = n) (by simp)
  | .aligned m c s, .aligned n d t =>
    match (inferInstance : Decidable (m = n ∧ c = d)), Sequence.decEq s t with
    | isTrue h, isTrue hs => isTrue (h.1 ▸ h.2 ▸ hs ▸ rfl)
    | isFalse h, _ => isFalse fun e => h ⟨(Scope.aligned.inj e).1, (Scope.aligned.inj e).2.1⟩
    | _, isFalse hs => isFalse fun e => hs (Scope.aligned.inj e).2.2
  | .sequence _, .number _ => isFalse nofun
  | .sequence _, .aligned _ _ _ => isFalse nofun
  | .number _, .sequence _ => isFalse nofun
  | .number _, .aligned _ _ _ => isFalse nofun
  | .aligned _ _ _, .sequence _ => isFalse nofun
  | .aligned _ _ _, .number _ => isFalse nofun

end

instance : DecidableEq Sequence := Sequence.decEq

instance : DecidableEq Chain := Chain.decEq

instance : DecidableEq Element := Element.decEq

instance : DecidableEq Atom := Atom.decEq

instance : DecidableEq Block := Block.decEq

instance : DecidableEq Scope := Scope.decEq

deriving instance DecidableEq for Query

end CorpusCost
