import CorpusCost.Parser.Basic

/-!
# Words of the query language

Blanks, names, keywords, numbers and counting bounds: the constructs below the grammar proper. A
blank is a space, a tab, a carriage return or a line feed; a number is written with ASCII digits
and must fit its range.
-/

set_option autoImplicit false

namespace CorpusCost

/-- How often something occurs: at least `lo` times, and at most `hi` times where there is an upper
end. -/
structure Bounds where
  /-- The least count. -/
  lo : Nat
  /-- The greatest count; none when there is no upper end. -/
  hi : Option Nat
  deriving DecidableEq, Repr

namespace Parser

variable {α : Type}

/-- A blank of the query language. -/
def isBlank (c : Char) : Bool :=
  c == ' ' || c == '\t' || c == '\r' || c == '\n'

/-- Any blanks. -/
def blanks : Parser Unit := fun s => .read () (s.dropWhile isBlank)

/-- Reads `p` after any blanks. -/
def afterBlanks (p : Parser α) : Parser α := do
  blanks
  p

/-- Reads `p` with any blanks on both sides. -/
def spaced (p : Parser α) : Parser α := between blanks blanks p

/-- Reads `p` between round brackets; blanks may stand around the opening one and before the
closing one. -/
def parenthesized (p : Parser α) : Parser α :=
  between (spaced (char '(')) (afterBlanks (char ')')) p

/-- A comma with any blanks around it. -/
def comma : Parser Char := spaced (char ',')

/-! ## Names -/

/-- A character that may begin a name. -/
def isNameStart (c : Char) : Bool := c.isAlpha || c == '_'

/-- A character that may stand inside a name. -/
def isNameChar (c : Char) : Bool := c.isAlphanum || c == '_'

/-- A name: a letter or an underscore, then letters, digits and underscores. -/
def name : Parser String := do
  let first ← satisfy isNameStart
  let others ← takeWhile isNameChar
  pure (String.ofList (first :: others))

/-- The word `word`, not continued by a further character of a name. -/
def keyword (word : String) : Parser Unit := do
  text word
  absent (satisfy isNameChar)

/-! ## Numbers -/

/-- The greatest unsigned number. -/
def maxUnsigned : Nat := 4294967295

/-- The greatest signed number; the least one is one further below zero. -/
def maxSigned : Nat := 2147483647

/-- The value of a row of decimal digits. -/
def digitsValue (digits : List Char) : Nat :=
  digits.foldl (fun n d => 10 * n + (d.toNat - '0'.toNat)) 0

/-- A row of digits whose value is at most `max`. -/
def numberUpTo (max : Nat) : Parser Nat := do
  let digits ← takeWhile1 Char.isDigit
  if digitsValue digits ≤ max then pure (digitsValue digits) else never

/-- An unsigned number. -/
def number : Parser Nat := numberUpTo maxUnsigned

/-- A number with an optional sign. -/
def signed : Parser Int := do
  match ← optional (oneOf ['+', '-']) with
  | some '-' => do
    let n ← numberUpTo (maxSigned + 1)
    pure (-(n : Int))
  | _ => do
    let n ← numberUpTo maxSigned
    pure (n : Int)

/-- Bounds in curly brackets: `{lo,hi}`, `{lo,}` without an upper end, or `{n}` for exactly `n`. -/
def bounds : Parser Bounds :=
  between (char '\x7b') (char '\x7d') <|
    (do
      let lo ← number
      let _ ← char ','
      let hi ← optional number
      pure ⟨lo, hi⟩)
    <|> (do
      let n ← number
      pure ⟨n, some n⟩)

/-- A `!`, with any blanks after it, or nothing. -/
def bang : Parser Bool :=
  present (do
    let _ ← char '!'
    blanks)

end Parser

end CorpusCost
