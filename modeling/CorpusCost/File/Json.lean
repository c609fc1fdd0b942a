import CorpusCost.Number.Notation
import CorpusCost.Number.Reading
import CorpusCost.Parser.Lexeme
import CorpusCost.Text.Joined

/-!
# JSON

The JSON that the library writes, either compact or with one value a line, and the reading of lists
of numbers.
-/

set_option autoImplicit false

namespace CorpusCost

mutual

/-- A JSON value. -/
inductive Json where
  /-- A double; one that is no finite number is written `null`. -/
  | number (value : Float)
  /-- A whole number. -/
  | natural (value : Nat)
  /-- A text. -/
  | text (value : String)
  /-- A list. -/
  | list (items : List Json)
  /-- An object; its fields are written in this order. -/
  | object (fields : List Field)

/-- A field of an object. -/
structure Field where
  /-- The name of the field. -/
  name : String
  /-- Its value. -/
  value : Json

end

namespace Json

/-- Numbers are written positionally while the power of ten of their first digit is between -5 and
15, whole numbers then with `.0`; of two equally short decimals the even one is taken. -/
def numberLayout : Number.Layout where
  plain := some (-5, 15)
  pointZero := true
  tie := .toEven
  nan := "null"
  positiveInfinity := "null"
  negativeInfinity := "null"

/-- The list of the given numbers. -/
def ofNumbers (values : List Float) : Json := .list (values.map .number)

/-! ## Writing -/

/-- A character between quotes: quotes, backslashes and control characters are escaped. -/
def escaped (c : Char) : List Char :=
  if c = '"' then ['\\', '"']
  else if c = '\\' then ['\\', '\\']
  else if c = '\n' then ['\\', 'n']
  else if c = '\r' then ['\\', 'r']
  else if c = '\t' then ['\\', 't']
  else if c.toNat = 0x8 then ['\\', 'b']
  else if c.toNat = 0xC then ['\\', 'f']
  else if c.toNat < 0x20 then
    ['\\', 'u', '0', '0', Nat.digitChar (c.toNat / 16), Nat.digitChar (c.toNat % 16)]
  else [c]

/-- A text between quotes. -/
def quoted (value : String) : String :=
  String.ofList ('"' :: value.toList.flatMap escaped ++ ['"'])

/-- The opening bracket of an object. -/
def openBrace : String := "\x7b"

/-- The closing bracket of an object. -/
def closeBrace : String := "\x7d"

mutual

/-- A value without blanks. -/
def compact : Json → String
  | .number value => numberLayout.text value
  | .natural value => String.ofList (Text.natural value)
  | .text value => quoted value
  | .list items => "[" ++ compactItems items ++ "]"
  | .object fields => openBrace ++ compactFields fields ++ closeBrace

/-- The items of a list without blanks. -/
def compactItems : List Json → String
  | [] => ""
  | [item] => compact item
  | item :: items => compact item ++ "," ++ compactItems items

/-- The fields of an object without blanks. -/
def compactFields : List Field → String
  | [] => ""
  | [⟨name, value⟩] => quoted name ++ ":" ++ compact value
  | ⟨name, value⟩ :: fields => quoted name ++ ":" ++ compact value ++ "," ++ compactFields fields

end

/-- A line end and the indent of the next line, two blanks for each level. -/
def lineBreak (level : Nat) : String :=
  String.ofList ('\n' :: List.replicate (2 * level) ' ')

mutual

/-- A value at a level of brackets, each item and field on a line of its own. -/
def prettyAt (level : Nat) : Json → String
  | .number value => numberLayout.text value
  | .natural value => String.ofList (Text.natural value)
  | .text value => quoted value
  | .list [] => "[]"
  | .list (item :: items) =>
    "[" ++ prettyItems (level + 1) (item :: items) ++ lineBreak level ++ "]"
  | .object [] => openBrace ++ closeBrace
  | .object (field :: fields) =>
    openBrace ++ prettyFields (level + 1) (field :: fields) ++ lineBreak level ++ closeBrace

/-- The items of a list at a level of brackets. -/
def prettyItems (level : Nat) : List Json → String
  | [] => ""
  | [item] => lineBreak level ++ prettyAt level item
  | item :: items => lineBreak level ++ prettyAt level item ++ "," ++ prettyItems level items

/-- The fields of an object at a level of brackets. -/
def prettyFields (level : Nat) : List Field → String
  | [] => ""
  | [⟨name, value⟩] => lineBreak level ++ quoted name ++ ": " ++ prettyAt level value
  | ⟨name, value⟩ :: fields =>
    lineBreak level ++ quoted name ++ ": " ++ prettyAt level value ++ "," ++
      prettyFields level fields

end

/-- A value with each item and field on a line of its own. -/
def pretty (json : Json) : String := prettyAt 0 json

/-! ## Reading -/

open CorpusCost.Parser

/-- A number: no zeros in front, and digits on both sides of a point. -/
def numeral : Parser Number.Numeral := do
  let negative ← present (char '-')
  let whole ← (do
      let c ← char '0'
      pure [c])
    <|> (do
      let first ← satisfy fun c => c.isDigit && c != '0'
      let others ← takeWhile Char.isDigit
      pure (first :: others))
  let fraction ← optional (do
    let _ ← char '.'
    takeWhile1 Char.isDigit)
  let exponent ← optional (do
    let _ ← oneOf ['e', 'E']
    let sign ← optional (oneOf ['+', '-'])
    let digits ← takeWhile1 Char.isDigit
    let value : Int := Number.digitsValue digits
    pure (if sign = some '-' then -value else value))
  pure ⟨negative, whole, fraction.getD [], exponent.getD 0⟩

/-- A number that is a finite double. -/
def finiteNumber : Parser Float := do
  let n ← numeral
  if Number.isFinite n.value then pure n.value else never

/-- A list of numbers. -/
def numberList : Parser (List Float) :=
  between (do let _ ← char '['; blanks) (char ']') do
    let items ← optional (sepBy1 (char ',') (spaced finiteNumber))
    pure (items.getD [])

/-- The numbers in the list that a text begins with, and whether nothing follows it. -/
def leadingNumbers? (text : String) : Option (List Float × Bool) :=
  match spaced numberList text.toList with
  | .read values rest => some (values, rest.isEmpty)
  | _ => none

end Json

end CorpusCost
