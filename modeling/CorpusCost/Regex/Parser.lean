import CorpusCost.Regex.Basic

/-!
# Reading regular expressions

The grammar of a quoted regular expression. Characters are claimed in a fixed order: look-arounds
before groups before plain atoms, and among atoms counting bounds before classes before single
symbols; a curly bracket that opens no bounds stands for itself. Brackets count towards the
nesting limit.
-/

set_option autoImplicit false

namespace CorpusCost.Regex

open CorpusCost.Parser

/-! ## Symbols -/

/-- A backslash and the character after it, as written. -/
def escape : Parser (List Char) := do
  let backslash ← char '\\'
  let c ← anyChar
  pure [backslash, c]

/-- The name of a property in curly brackets, as written. -/
def bracedProperty : Parser (List Char) := do
  let opening ← char '\x7b'
  let name ← takeWhile1 fun c => c.isAlphanum || c == '_' || c == '='
  let closing ← char '\x7d'
  pure (opening :: name ++ [closing])

/-- A property class as written: `\p` or `\P`, then a letter or a name in curly brackets. -/
def propertyClass : Parser (List Char) := do
  let backslash ← char '\\'
  let sign ← oneOf ['p', 'P']
  let property ← bracedProperty <|> (do
    let c ← satisfy Char.isAlpha
    pure [c])
  pure (backslash :: sign :: property)

/-- The characters that need an escape to stand for themselves. -/
def reserved : List Char :=
  ['"', '|', '(', ')', '[', ']', '\x7b', '\x7d', '\\', '.', '?', '*', '+', '^', '$']

/-- A symbol outside a class. -/
def symbol : Parser Symbol :=
  firstOf [
    (fun _ => .any) <$> char '.',
    (fun _ => .questionMark) <$> char '?',
    .repeater <$> oneOf ['*', '+'],
    .anchor <$> oneOf ['^', '$'],
    (fun cs => .literal (String.ofList cs) true) <$> propertyClass,
    (fun cs => .literal (String.ofList cs) false) <$> escape,
    Symbol.ofChar <$> noneOf reserved]

/-! ## Character classes -/

/-- A named class as written inside square brackets, between `[:` and `:]`. -/
def namedMember : Parser (List Char) := do
  text "[:"
  let name ← takeWhile1 Char.isAlpha
  text ":]"
  pure (['[', ':'] ++ name ++ [':', ']'])

/-- A character of a class that stands for itself. -/
def classChar : Parser Char := noneOf [']', '\\', '"']

/-- A member of a class. -/
def member : Parser Member :=
  firstOf [
    (fun cs => .escaped (String.ofList cs)) <$> namedMember,
    (fun cs => .escaped (String.ofList cs)) <$> escape,
    (do
      let first ← classChar
      let _ ← char '-'
      let last ← classChar
      pure (.span first last)),
    (fun c => .symbol (.ofChar c)) <$> classChar]

/-- A character class with at least one member. -/
def charClass : Parser CharClass := do
  let _ ← char '['
  let negated ← present (char '^')
  let members ← many1 member
  let _ ← char ']'
  pure ⟨negated, members⟩

/-- A named class standing alone, between `[[:` and `:]]`. -/
def namedClass : Parser String := do
  text "[[:"
  let name ← takeWhile1 Char.isAlpha
  text ":]]"
  pure (String.ofList name)

/-! ## Atoms and pieces -/

/-- An atom. -/
def atom : Parser Atom :=
  firstOf [
    .bounds <$> Parser.bounds,
    .namedClass <$> namedClass,
    .charClass <$> charClass,
    .symbol <$> symbol,
    (fun c => .symbol (.ofChar c)) <$> oneOf ['\x7b', '\x7d']]

/-- A part of a look-around as written: an escape, bracketed text, or a character that is neither
a bracket, a backslash nor a quote. -/
def lookPart (lookBody : Nesting → Parser (List Char)) (nesting : Nesting) :
    Parser (List Char) :=
  firstOf [
    escape,
    (do
      let opening ← char '('
      let body ← nested nesting lookBody
      let closing ← char ')'
      pure (opening :: body ++ [closing])),
    (fun c => [c]) <$> noneOf ['(', ')', '\\', '"']]

/-- The inside of a look-around as written. -/
def lookBody : Nesting → Parser (List Char) :=
  recursive fun lookBody nesting => List.flatten <$> many (lookPart lookBody nesting)

/-- A look-around or an inline flag as written, from `(?` to its closing bracket. -/
def look (nesting : Nesting) : Parser (List Char) := do
  text "(?"
  let body ← lookBody nesting
  let closing ← char ')'
  pure (['(', '?'] ++ body ++ [closing])

/-- A piece, given how to read the choices nested in it. -/
def pieceOf (choice : Nesting → Parser (List Branch)) (nesting : Nesting) : Parser Piece :=
  firstOf [
    (fun cs => .look (String.ofList cs)) <$> look nesting,
    .group <$> between (char '(') (char ')') (nested nesting choice),
    .row <$> many1 atom]

/-- A choice of branches, any of which may be empty, separated by bars. -/
def choice : Nesting → Parser (List Branch) :=
  recursive fun choice nesting => sepBy1 (char '|') (many (pieceOf choice nesting))

/-- A regular expression without its quotes. -/
def unquoted (nesting : Nesting) : Parser Regex := Regex.mk <$> choice nesting

/-- A regular expression between double quotes. -/
def quoted (nesting : Nesting) : Parser Regex :=
  between (char '"') (char '"') (unquoted nesting)

end CorpusCost.Regex
