import CorpusCost.Number.Reading
import CorpusCost.Parser.Lexeme

/-!
# TOML settings

The part of TOML that settings are written in: a line `key = number` for each setting, with
comments and empty lines. A document with anything else in it, such as a table, a dotted key or a
text, is no settings document. Keys may be quoted; numbers may be written in every way that TOML
knows.
-/

set_option autoImplicit false

namespace CorpusCost.Toml

open CorpusCost.Parser

/-- The number a setting has. -/
inductive Value where
  /-- An integer. -/
  | integer (value : Int)
  /-- A number with a fraction or an exponent, an infinity, or what is not a number. -/
  | float (value : Float)

/-- A setting. -/
structure Entry where
  /-- The name of the setting. -/
  key : String
  /-- Its number. -/
  value : Value

namespace Value

/-- The natural number that a value is. -/
def natural? : Value → Option Nat
  | .integer (.ofNat n) => some n
  | _ => none

/-- The double nearest to a value. -/
def toFloat : Value → Float
  | .integer (.ofNat n) => Number.nearest n 0
  | .integer (.negSucc n) => -Number.nearest (n + 1) 0
  | .float x => x

end Value

/-! ## Numbers -/

/-- The least integer. -/
def minInteger : Int := -0x8000000000000000

/-- The greatest integer. -/
def maxInteger : Int := 0xFFFFFFFFFFFFFFFF

/-- An integer in range. -/
def integer (value : Int) : Parser Value :=
  if minInteger ≤ value ∧ value ≤ maxInteger then pure (.integer value) else never

/-- A row of digits; single underscores may stand between them. -/
def digits (isDigit : Char → Bool) : Parser (List Char) :=
  List.flatten <$> sepBy1 (char '_') (takeWhile1 isDigit)

/-- The value of a digit; letters are digits from ten on. -/
def digitValue (c : Char) : Nat :=
  if c.isDigit then c.toNat - '0'.toNat
  else if c.isLower then c.toNat - 'a'.toNat + 10
  else c.toNat - 'A'.toNat + 10

/-- The value of a row of digits in a base. -/
def valueInBase (base : Nat) (row : List Char) : Nat :=
  row.foldl (fun n c => base * n + digitValue c) 0

/-- A digit of base sixteen. -/
def isHexDigit (c : Char) : Bool :=
  c.isDigit || ('a' ≤ c && c ≤ 'f') || ('A' ≤ c && c ≤ 'F')

/-- An integer in a base other than ten, with the sign of its base in front. -/
def inBase (sign : String) (base : Nat) (isDigit : Char → Bool) : Parser Value := do
  text sign
  let row ← digits isDigit
  integer (valueInBase base row)

/-- A sign, if there is one: whether it is `-`. -/
def sign : Parser Bool := do
  let sign ← optional (oneOf ['+', '-'])
  pure (sign = some '-')

/-- An infinity, or what is not a number. -/
def special : Parser Value := do
  let negative ← sign
  let value ← (do
      text "inf"
      pure (1.0 / 0.0))
    <|> (do
      text "nan"
      pure (0.0 / 0.0))
  pure (.float (if negative then -value else value))

/-- An exponent. -/
def exponent : Parser Int := do
  let _ ← oneOf ['e', 'E']
  let negative ← sign
  let row ← digits Char.isDigit
  let magnitude : Int := Number.digitsValue row
  pure (if negative then -magnitude else magnitude)

/-- A number in base ten: no zeros in front, and digits on both sides of a point. A number with a
point or an exponent must be finite. -/
def decimal : Parser Value := do
  let negative ← sign
  let whole ← digits Char.isDigit
  if whole.head? = some '0' ∧ 1 < whole.length then never
  else
    let fraction ← optional (do
      let _ ← char '.'
      digits Char.isDigit)
    let exponent ← optional exponent
    if fraction = none ∧ exponent = none then
      let magnitude : Int := Number.digitsValue whole
      integer (if negative then -magnitude else magnitude)
    else
      let numeral : Number.Numeral := ⟨negative, whole, fraction.getD [], exponent.getD 0⟩
      if Number.isFinite numeral.value then pure (.float numeral.value) else never

/-- A number. -/
def value : Parser Value :=
  firstOf
    [special, inBase "0x" 16 isHexDigit, inBase "0o" 8 fun c => '0' ≤ c && c ≤ '7',
      inBase "0b" 2 fun c => c == '0' || c == '1', decimal]

/-! ## Keys -/

/-- A character that may stand in quoted keys and comments: no control character but the tab. -/
def isPrintable (c : Char) : Bool := c == '\t' || (0x20 ≤ c.toNat && c.toNat != 0x7F)

/-- A character of a key without quotes. -/
def isBareKeyChar (c : Char) : Bool := c.isAlphanum || c == '_' || c == '-'

/-- Exactly `count` digits of base sixteen. -/
def hexDigits : Nat → Parser (List Char)
  | 0 => pure []
  | count + 1 => do
    let c ← satisfy isHexDigit
    let others ← hexDigits count
    pure (c :: others)

/-- The character with the number that `count` digits make up. -/
def numbered (letter : Char) (count : Nat) : Parser Char := do
  let _ ← char letter
  let row ← hexDigits count
  if (valueInBase 16 row).isValidChar then pure (Char.ofNat (valueInBase 16 row)) else never

/-- What stands after a backslash, with the character it means. -/
def escapes : List (Char × Char) :=
  [('b', '\x08'), ('t', '\t'), ('n', '\n'), ('f', '\x0C'), ('r', '\r'), ('e', '\x1B'), ('"', '"'),
    ('\\', '\\')]

/-- A character after a backslash. -/
def escape : Parser Char := do
  let _ ← char '\\'
  (do
      let letter ← anyChar
      match escapes.lookup letter with
      | some meant => pure meant
      | none => never)
    <|> numbered 'x' 2 <|> numbered 'u' 4 <|> numbered 'U' 8

/-- A key. -/
def key : Parser (List Char) :=
  firstOf
    [takeWhile1 isBareKeyChar,
      between (char '\'') (char '\'') (takeWhile fun c => isPrintable c && c != '\''),
      between (char '"') (char '"')
        (many (satisfy (fun c => isPrintable c && c != '"' && c != '\\') <|> escape))]

/-! ## Documents -/

/-- Spaces and tabs. -/
def gap : Parser Unit := do
  let _ ← takeWhile fun c => c == ' ' || c == '\t'
  pure ()

/-- A setting. -/
def entry : Parser Entry := do
  let key ← key
  gap
  let _ ← char '='
  gap
  let value ← value
  pure ⟨String.ofList key, value⟩

/-- A comment. -/
def comment : Parser Unit := do
  let _ ← char '#'
  let _ ← takeWhile isPrintable
  pure ()

/-- A line without its end: a setting, if there is one, and a comment, if there is one. -/
def line : Parser (Option Entry) := do
  gap
  let entry ← optional entry
  gap
  let _ ← optional comment
  pure entry

/-- The end of a line: a line feed, or a carriage return and a line feed. -/
def lineEnd : Parser Unit := text "\n" <|> text "\r\n"

/-- A document. -/
def document : Parser (List Entry) := do
  let _ ← optional (char '\uFEFF')
  let lines ← sepBy1 lineEnd line
  pure (lines.filterMap id)

/-- The settings of a document, in order; none if it holds anything else. -/
def entries? (content : String) : Option (List Entry) :=
  match document content.toList with
  | .read entries [] => some entries
  | _ => none

end CorpusCost.Toml
