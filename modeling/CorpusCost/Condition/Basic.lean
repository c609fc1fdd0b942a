import CorpusCost.Regex.Basic

/-!
# Conditions on a token

What stands between the square brackets of a token: tests of attributes and positions, joined by
`&` and `|`, negated by `!`, and bracketed. Trees are compared for equality.
-/

set_option autoImplicit false

namespace CorpusCost

/-- How an attribute is compared with a regular expression. -/
inductive Comparison where
  /-- `=` -/
  | equal
  /-- `<=` -/
  | atMost
  /-- `>=` -/
  | atLeast
  /-- `~`, with an optional threshold. -/
  | similar (threshold : Option Nat)
  deriving DecidableEq, Repr

/-- The word that begins a look-up of similar words. -/
inductive SimilarityKeyword where
  /-- `ws` -/
  | ws
  /-- `term` -/
  | term
  deriving DecidableEq, Repr

/-- What is looked up among similar words. -/
inductive SimilarityArgs where
  /-- A word and a relation by their numbers. -/
  | numbers (first second : Nat)
  /-- Three expressions. -/
  | patterns (first second third : Regex)
  deriving DecidableEq

/-- A single test of a token. -/
inductive Test where
  /-- The attribute is exactly `value`: `attribute == "value"`. -/
  | exactly (attr : String) (negated : Bool) (value : String)
  /-- The attribute compares with an expression: `attribute = "regex"`. -/
  | matching (attr : String) (negated : Bool) (comparison : Comparison) (regex : Regex)
  /-- The token's number lies in a range: `#3-5`. -/
  | positionRange (first last : Nat)
  /-- The token's number: `#3`. -/
  | position (number : Nat)
  /-- A look-up of similar words. -/
  | similarity (keyword : SimilarityKeyword) (args : SimilarityArgs)
  deriving DecidableEq

/-- What a bracketed list of conditions is the argument of. -/
inductive Bracket where
  /-- Nothing: the brackets only group. -/
  | group
  /-- `swap(number, …)` -/
  | swap (number : Nat)
  /-- `ccoll(first, last, …)` -/
  | ccoll (first last : Nat)
  deriving DecidableEq, Repr

/-- A condition on a token. -/
inductive Condition where
  /-- A single test. -/
  | test (test : Test)
  /-- The negation of a condition. -/
  | not (inner : Condition)
  /-- A bracketed list of alternatives, each a list of conditions that hold together. -/
  | bracketed (bracket : Bracket) (alternatives : List (List Condition))

/-- Conditions that hold together. -/
abbrev Conjunction := List Condition

/-- Alternatives, each a list of conditions that hold together. -/
abbrev Disjunction := List Conjunction

namespace Condition

/-- The attribute a condition tests, if it is a test of one. -/
def attribute? : Condition → Option String
  | .test (.exactly attr _ _) => some attr
  | .test (.matching attr _ _ _) => some attr
  | _ => none

/-- Whether a condition negates: a test written with `!`, or a negated condition. -/
def isNegation : Condition → Bool
  | .test (.exactly _ negated _) => negated
  | .test (.matching _ negated _ _) => negated
  | .not _ => true
  | _ => false

end Condition

/-- The number of conditions in all alternatives. -/
def Disjunction.size (alternatives : Disjunction) : Nat :=
  alternatives.flatten.length

/-- Attributes with few values, such as tags: a condition on one matches much of the corpus. -/
def smallAttributes : List String := ["tag", "pos", "postag", "xpos", "upos", "deprel"]

/-- Whether an attribute has few values. -/
def isSmallAttribute (attr : String) : Bool := smallAttributes.contains attr

/-! ## Equality of conditions -/

mutual

/-- Decides whether two conditions are equal. -/
def Condition.decEq : (c d : Condition) → Decidable (c = d)
  | .test s, .test t => decidable_of_iff (s = t) (by simp)
  | .not c, .not d =>
    match Condition.decEq c d with
    | isTrue h => isTrue (h ▸ rfl)
    | isFalse h => isFalse fun e => h (Condition.not.inj e)
  | .bracketed b cs, .bracketed c ds =>
    match (inferInstance : Decidable (b = c)), Disjunction.decEq cs ds with
    | isTrue h, isTrue hs => isTrue (h ▸ hs ▸ rfl)
    | isFalse h, _ => isFalse fun e => h (Condition.bracketed.inj e).1
    | _, isFalse hs => isFalse fun e => hs (Condition.bracketed.inj e).2
  | .test _, .not _ => isFalse nofun
  | .test _, .bracketed _ _ => isFalse nofun
  | .not _, .test _ => isFalse nofun
  | .not _, .bracketed _ _ => isFalse nofun
  | .bracketed _ _, .test _ => isFalse nofun
  | .bracketed _ _, .not _ => isFalse nofun

/-- Decides whether two lists of conditions are equal. -/
def Conjunction.decEq : (cs ds : List Condition) → Decidable (cs = ds)
  | [], [] => isTrue rfl
  | [], _ :: _ => isFalse nofun
  | _ :: _, [] => isFalse nofun
  | c :: cs, d :: ds =>
    match Condition.decEq c d, Conjunction.decEq cs ds with
    | isTrue h, isTrue hs => isTrue (h ▸ hs ▸ rfl)
    | isFalse h, _ => isFalse fun e => h (List.cons.inj e).1
    | _, isFalse hs => isFalse fun e => hs (List.cons.inj e).2

/-- Decides whether two lists of alternatives are equal. -/
def Disjunction.decEq : (cs ds : List (List Condition)) → Decidable (cs = ds)
  | [], [] => isTrue rfl
  | [], _ :: _ => isFalse nofun
  | _ :: _, [] => isFalse nofun
  | c :: cs, d :: ds =>
    match Conjunction.decEq c d, Disjunction.decEq cs ds with
    | isTrue h, isTrue hs => isTrue (h ▸ hs ▸ rfl)
    | isFalse h, _ => isFalse fun e => h (List.cons.inj e).1
    | _, isFalse hs => isFalse fun e => hs (List.cons.inj e).2

end

instance : DecidableEq Condition := Condition.decEq

end CorpusCost
