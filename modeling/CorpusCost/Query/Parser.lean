import CorpusCost.Query.Basic
import CorpusCost.Condition.Parser

/-!
# Reading queries

The grammar of corpus queries. Brackets around a pairing or a group count towards the nesting
limit. Blanks may stand between any two words outside quotes, except between an element and its
repetition and inside a label.
-/

set_option autoImplicit false

namespace CorpusCost

open CorpusCost.Parser

/-! ## Tokens -/

/-- Two tokens taken together, inside their brackets. -/
def Pairing.parserOf (position : Parser Position) : Parser Pairing :=
  (do
    keyword "meet"
    let left ← afterBlanks position
    let right ← afterBlanks position
    let window ← optional (do
      let first ← spaced signed
      let last ← signed
      pure (first, last))
    pure (.meet left right window))
  <|> (do
    keyword "union"
    let left ← afterBlanks position
    let right ← afterBlanks position
    pure (.union left right))

/-- A token, given how to read the positions nested in it. -/
def Token.parserOf (position : Nesting → Parser Position) (nesting : Nesting) : Parser Token :=
  firstOf [
    .conditions <$>
      between (do let _ ← char '['; blanks) (afterBlanks (char ']'))
        (optional (Disjunction.parser nesting)),
    (do
      let _ ← char '~'
      let n ← optional number
      let regex ← Regex.quoted nesting
      pure (.anchored n regex)),
    .pairing <$>
      between (do let _ ← char '('; blanks) (afterBlanks (char ')'))
        (nested nesting fun deeper => Pairing.parserOf (position deeper)),
    (fun _ => .mu) <$> keyword "mu",
    .word <$> Regex.quoted nesting]

/-- A token with an optional label, given how to read the positions nested in it. -/
def Position.parserOf (position : Nesting → Parser Position) (nesting : Nesting) :
    Parser Position :=
  (do
    let label ← number
    let _ ← char ':'
    let token ← Token.parserOf position nesting
    pure ⟨some label, token⟩)
  <|> (do
    let token ← Token.parserOf position nesting
    pure ⟨none, token⟩)

/-- A token with an optional label. -/
def Position.parser : Nesting → Parser Position := recursive Position.parserOf

/-! ## Tags -/

/-- A repetition. -/
def Repetition.parser : Parser Repetition :=
  firstOf [
    (fun _ => .zeroOrMore) <$> char '*',
    (fun _ => .oneOrMore) <$> char '+',
    (fun _ => .zeroOrOne) <$> char '?',
    .bounds <$> Parser.bounds]

/-- A structure with its conditions, without angle brackets. -/
def Structure.parser (nesting : Nesting) : Parser Structure := do
  let name ← Parser.name
  let conditions ← optional (afterBlanks (Disjunction.parser nesting))
  pure ⟨name, conditions⟩

/-- The end of a structure; it takes no conditions. -/
def Element.closingParser : Parser Element := do
  let _ ← char '<'
  blanks
  let _ ← char '/'
  blanks
  let name ← name
  let _ ← afterBlanks (char '>')
  pure (.closing ⟨name, none⟩)

/-- The beginning of a structure, or a whole structure. -/
def Element.openingParser (nesting : Nesting) : Parser Element := do
  let _ ← char '<'
  let struct ← afterBlanks (Structure.parser nesting)
  let selfClosing ← present (afterBlanks (char '/'))
  let _ ← afterBlanks (char '>')
  pure (.opening struct selfClosing)

/-! ## Chains and blocks -/

/-- A member of a chain, given how to read an atom. -/
def Element.parserOf (atom : Parser Atom) (nesting : Nesting) : Parser Element :=
  firstOf [
    Element.closingParser,
    Element.openingParser nesting,
    (do
      let atom ← atom
      let repetition ← optional Repetition.parser
      pure (.atom atom repetition))]

/-- A chain, given how to read an atom. -/
def Chain.parserOf (atom : Parser Atom) (nesting : Nesting) : Parser Chain := do
  let negated ← bang
  let elements ← many1 (afterBlanks (Element.parserOf atom nesting))
  pure ⟨negated, elements⟩

/-- A sequence, given how to read an atom. -/
def Sequence.parserOf (atom : Parser Atom) (nesting : Nesting) : Parser Sequence :=
  Sequence.mk <$> sepBy1 (spaced (char '|')) (Chain.parserOf atom nesting)

/-- A scope, given how to read a sequence. -/
def Scope.parserOf (sequence : Parser Sequence) : Parser Scope :=
  firstOf [
    (do
      let n ← Parser.number
      absent (char ':')
      pure (.number n)),
    (do
      let negated ← bang
      let corpus ← name
      let _ ← spaced (char ':')
      let sequence ← sequence
      pure (.aligned negated corpus sequence)),
    .sequence <$> sequence]

/-- A block, given how to read a sequence. -/
def Block.parserOf (sequence : Parser Sequence) : Parser Block := do
  let negated ← bang
  let kind ← (fun _ => BlockKeyword.within) <$> Parser.keyword "within"
    <|> (fun _ => BlockKeyword.containing) <$> Parser.keyword "containing"
  let scope ← afterBlanks (Scope.parserOf sequence)
  pure ⟨negated, kind, scope⟩

/-- A bracketed sequence with blocks, given how to read the atoms in it. -/
def Atom.groupParserOf (atom : Nesting → Parser Atom) (nesting : Nesting) : Parser Atom :=
  between (do let _ ← char '('; blanks) (afterBlanks (char ')'))
    (nested nesting fun deeper => do
      let sequence ← Sequence.parserOf (atom deeper) deeper
      let blocks ← many (afterBlanks (Block.parserOf (Sequence.parserOf (atom deeper) deeper)))
      pure (.group sequence blocks))

/-- What may be repeated, given how to read the atoms nested in it. -/
def Atom.parserOf (atom : Nesting → Parser Atom) (nesting : Nesting) : Parser Atom :=
  .position <$> Position.parser nesting <|> Atom.groupParserOf atom nesting

/-- What may be repeated: a position, or a bracketed sequence with blocks. -/
def Atom.parser : Nesting → Parser Atom := recursive Atom.parserOf

/-- A choice of chains. -/
def Sequence.parser (nesting : Nesting) : Parser Sequence :=
  Sequence.parserOf (Atom.parser nesting) nesting

/-- A block. -/
def Block.parser (nesting : Nesting) : Parser Block :=
  Block.parserOf (Sequence.parser nesting)

/-! ## Conditions across tokens -/

/-- A comparison of a frequency with a number. -/
def FrequencyComparison.parser : Parser FrequencyComparison :=
  firstOf [
    (fun _ => .atMost) <$> text "<=",
    (fun _ => .atLeast) <$> text ">=",
    (fun _ => .equal) <$> char '=',
    (fun _ => .less) <$> char '<',
    (fun _ => .greater) <$> char '>']

/-- An attribute of a labelled token. -/
def labelledAttribute : Parser (Nat × String) := do
  let label ← number
  let _ ← char '.'
  let attr ← name
  pure (label, attr)

/-- A condition across labelled tokens. -/
def GlobalCondition.parser : Parser GlobalCondition :=
  (do
    keyword "f"
    let (label, attr) ← parenthesized labelledAttribute
    let negated ← afterBlanks bang
    let comparison ← FrequencyComparison.parser
    let value ← afterBlanks number
    pure (.frequency label attr negated comparison value))
  <|> (do
    let (left, leftAttr) ← labelledAttribute
    let negated ← spaced <| firstOf [
      (fun _ => true) <$> text "!=",
      (fun _ => false) <$> text "==",
      (fun _ => false) <$> text "="]
    let (right, rightAttr) ← labelledAttribute
    pure (.agreement left leftAttr negated right rightAttr))

/-! ## Queries -/

/-- The parts of a query, before the end of the text. -/
def Query.parts (nesting : Nesting) : Parser Query := do
  let sequence ← optional (Sequence.parser nesting)
  let globals ← optional (do
    let _ ← spaced (char '&')
    sepBy1 (spaced (char '&')) GlobalCondition.parser)
  let blocks ← many (afterBlanks (Block.parser nesting))
  pure ⟨sequence, globals, blocks⟩

end CorpusCost
