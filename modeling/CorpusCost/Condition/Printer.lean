import CorpusCost.Condition.Basic
import CorpusCost.Regex.Printer

/-!
# Conditions as text

The canonical form of conditions: no blanks around comparisons, one blank on each side of `&` and
`|`, and in a text compared literally a backslash before each quote and each backslash.
-/

set_option autoImplicit false

namespace CorpusCost

open Text (joined natural)

/-- A comparison as written. -/
def Comparison.written : Comparison → List Char
  | .equal => ['=']
  | .atMost => ['<', '=']
  | .atLeast => ['>', '=']
  | .similar none => ['~']
  | .similar (some threshold) => '~' :: natural threshold

/-- A regular expression between its quotes. -/
def Regex.quotedText (regex : Regex) : List Char := '"' :: regex.written ++ ['"']

/-- A character of a literal text: quotes and backslashes are escaped. -/
def escapedChar (c : Char) : List Char :=
  if c = '"' ∨ c = '\\' then ['\\', c] else [c]

/-- A literal text with its escapes, without quotes. -/
def literalText (value : String) : List Char := value.toList.flatMap escapedChar

/-- A literal text between quotes. -/
def quotedLiteral (value : String) : List Char := '"' :: literalText value ++ ['"']

/-- A `!` where `negated` holds. -/
def bangText (negated : Bool) : List Char := if negated then ['!'] else []

/-- The word that begins a look-up. -/
def SimilarityKeyword.written : SimilarityKeyword → List Char
  | .ws => "ws".toList
  | .term => "term".toList

/-- The arguments of a look-up, without brackets. -/
def SimilarityArgs.written : SimilarityArgs → List Char
  | .numbers first second => natural first ++ [',', ' '] ++ natural second
  | .patterns first second third =>
    joined [',', ' '] [first.quotedText, second.quotedText, third.quotedText]

/-- A test as written. -/
def Test.written : Test → List Char
  | .exactly attr negated value =>
    attr.toList ++ bangText negated ++ ['=', '='] ++ quotedLiteral value
  | .matching attr negated comparison regex =>
    attr.toList ++ bangText negated ++ comparison.written ++ regex.quotedText
  | .positionRange first last => '#' :: natural first ++ '-' :: natural last
  | .position number => '#' :: natural number
  | .similarity keyword args => keyword.written ++ '(' :: args.written ++ [')']

/-- What stands before the list inside brackets, with the opening bracket. -/
def Bracket.written : Bracket → List Char
  | .group => ['(']
  | .swap number => "swap(".toList ++ natural number ++ [',', ' ']
  | .ccoll first last =>
    "ccoll(".toList ++ natural first ++ [',', ' '] ++ natural last ++ [',', ' ']

mutual

/-- A condition as written. -/
def Condition.written : Condition → List Char
  | .test test => test.written
  | .not inner => '!' :: Condition.written inner
  | .bracketed bracket alternatives =>
    bracket.written ++ Disjunction.written alternatives ++ [')']

/-- Conditions as written, with ` & ` between any two. -/
def Conjunction.written : List Condition → List Char
  | [] => []
  | [condition] => Condition.written condition
  | condition :: conditions =>
    Condition.written condition ++ [' ', '&', ' '] ++ Conjunction.written conditions

/-- Alternatives as written, with ` | ` between any two. -/
def Disjunction.written : List (List Condition) → List Char
  | [] => []
  | [conditions] => Conjunction.written conditions
  | conditions :: alternatives =>
    Conjunction.written conditions ++ [' ', '|', ' '] ++ Disjunction.written alternatives

end

theorem Conjunction.written_eq_joined (conditions : Conjunction) :
    Conjunction.written conditions =
      joined [' ', '&', ' '] (conditions.map Condition.written) := by
  induction conditions with
  | nil => rfl
  | cons condition conditions ih =>
    cases conditions with
    | nil => rfl
    | cons next conditions =>
      rw [List.map_cons, List.map_cons, Text.joined_cons_cons, ← List.map_cons, ← ih]
      simp [Conjunction.written]

theorem Disjunction.written_eq_joined (alternatives : Disjunction) :
    Disjunction.written alternatives =
      joined [' ', '|', ' '] (alternatives.map Conjunction.written) := by
  induction alternatives with
  | nil => rfl
  | cons conditions alternatives ih =>
    cases alternatives with
    | nil => rfl
    | cons next alternatives =>
      rw [List.map_cons, List.map_cons, Text.joined_cons_cons, ← List.map_cons, ← ih]
      simp [Disjunction.written]

end CorpusCost
