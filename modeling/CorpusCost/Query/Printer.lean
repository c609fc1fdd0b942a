import CorpusCost.Query.Basic
import CorpusCost.Condition.Printer

/-!
# Queries as text

The canonical form of a query: one blank between the elements of a chain, on each side of `|` and
`&`, and before each block; none inside brackets. `Query.text` is the form as a text.
-/

set_option autoImplicit false

namespace CorpusCost

open Text (joined natural integer)

/-! ## Tokens -/

/-- The window of a meeting as written, with a blank before each distance. -/
def windowText : Option (Int × Int) → List Char
  | none => []
  | some (first, last) => ' ' :: integer first ++ ' ' :: integer last

mutual

/-- A position as written. -/
def Position.written : Position → List Char
  | ⟨none, token⟩ => Token.written token
  | ⟨some label, token⟩ => natural label ++ ':' :: Token.written token

/-- A token as written. -/
def Token.written : Token → List Char
  | .conditions none => ['[', ']']
  | .conditions (some alternatives) => '[' :: Disjunction.written alternatives ++ [']']
  | .word regex => regex.quotedText
  | .anchored none regex => '~' :: regex.quotedText
  | .anchored (some number) regex => '~' :: natural number ++ regex.quotedText
  | .mu => "mu".toList
  | .pairing pairing => Pairing.written pairing

/-- A pairing as written, with its brackets. -/
def Pairing.written : Pairing → List Char
  | .union left right =>
    "(union ".toList ++ Position.written left ++ ' ' :: Position.written right ++ [')']
  | .meet left right window =>
    "(meet ".toList ++ Position.written left ++ ' ' :: Position.written right ++
      windowText window ++ [')']

end

/-! ## Chains -/

/-- A repetition as written. -/
def Repetition.written : Repetition → List Char
  | .zeroOrMore => ['*']
  | .oneOrMore => ['+']
  | .zeroOrOne => ['?']
  | .bounds range => range.written

/-- A structure with its conditions, without angle brackets. -/
def Structure.written (struct : Structure) : List Char :=
  match struct.conditions with
  | none => struct.name.toList
  | some alternatives => struct.name.toList ++ ' ' :: Disjunction.written alternatives

/-- The word that begins a block. -/
def BlockKeyword.written : BlockKeyword → List Char
  | .within => "within".toList
  | .containing => "containing".toList

mutual

/-- A sequence as written. -/
def Sequence.written : Sequence → List Char
  | ⟨chains⟩ => Chain.writtenChoice chains

/-- Chains as written, with ` | ` between any two. -/
def Chain.writtenChoice : List Chain → List Char
  | [] => []
  | [chain] => Chain.written chain
  | chain :: chains => Chain.written chain ++ [' ', '|', ' '] ++ Chain.writtenChoice chains

/-- A chain as written. -/
def Chain.written : Chain → List Char
  | ⟨negated, elements⟩ => bangText negated ++ Element.writtenRow elements

/-- Elements as written, with a blank between any two. -/
def Element.writtenRow : List Element → List Char
  | [] => []
  | [element] => Element.written element
  | element :: elements => Element.written element ++ ' ' :: Element.writtenRow elements

/-- An element as written. -/
def Element.written : Element → List Char
  | .atom atom none => Atom.written atom
  | .atom atom (some repetition) => Atom.written atom ++ repetition.written
  | .opening struct selfClosing =>
    '<' :: struct.written ++ if selfClosing then ['/', '>'] else ['>']
  | .closing struct => ['<', '/'] ++ struct.written ++ ['>']

/-- An atom as written. -/
def Atom.written : Atom → List Char
  | .position position => position.written
  | .group sequence blocks =>
    '(' :: Sequence.written sequence ++ Block.writtenEach blocks ++ [')']

/-- Blocks as written, with a blank before each. -/
def Block.writtenEach : List Block → List Char
  | [] => []
  | block :: blocks => ' ' :: Block.written block ++ Block.writtenEach blocks

/-- A block as written. -/
def Block.written : Block → List Char
  | ⟨negated, keyword, scope⟩ =>
    bangText negated ++ keyword.written ++ ' ' :: Scope.written scope

/-- A scope as written. -/
def Scope.written : Scope → List Char
  | .sequence sequence => Sequence.written sequence
  | .number number => natural number
  | .aligned negated corpus sequence =>
    bangText negated ++ corpus.toList ++ ':' :: Sequence.written sequence

end

/-! ## Queries -/

/-- A comparison of a frequency as written. -/
def FrequencyComparison.written : FrequencyComparison → List Char
  | .equal => ['=']
  | .atMost => ['<', '=']
  | .atLeast => ['>', '=']
  | .less => ['<']
  | .greater => ['>']

/-- A condition across tokens as written. -/
def GlobalCondition.written : GlobalCondition → List Char
  | .agreement left leftAttr negated right rightAttr =>
    natural left ++ '.' :: leftAttr.toList ++ (if negated then " != " else " = ").toList ++
      natural right ++ '.' :: rightAttr.toList
  | .frequency label attr negated comparison value =>
    ['f', '('] ++ natural label ++ '.' :: attr.toList ++ [')', ' '] ++ bangText negated ++
      comparison.written ++ ' ' :: natural value

/-- Conditions across tokens as written, with ` & ` between any two. -/
def GlobalCondition.writtenAll (conditions : List GlobalCondition) : List Char :=
  joined [' ', '&', ' '] (conditions.map GlobalCondition.written)

/-- A query as written. -/
def Query.written (query : Query) : List Char :=
  joined [' '] <|
    (query.sequence.map Sequence.written).toList ++
    (query.globals.map fun globals => ['&', ' '] ++ GlobalCondition.writtenAll globals).toList ++
    query.blocks.map Block.written

/-- The canonical text of a query. -/
def Query.text (query : Query) : String := String.ofList query.written

@[simp] theorem Query.toList_text (query : Query) : query.text.toList = query.written := by
  simp [Query.text]

end CorpusCost
