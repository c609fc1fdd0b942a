import CorpusCost.Condition.Basic
import CorpusCost.Regex.Parser

/-!
# Reading conditions

The grammar of what stands between the square brackets of a token. A bracket or a `!` counts
towards the nesting limit; the arguments of `swap` and `ccoll` do not. No name is reserved: a
keyword that its arguments do not follow is an attribute.
-/

set_option autoImplicit false

namespace CorpusCost

open CorpusCost.Parser

/-- A comparison with a regular expression. -/
def Comparison.parser : Parser Comparison :=
  firstOf [
    (fun _ => .atMost) <$> text "<=",
    (fun _ => .atLeast) <$> text ">=",
    (fun _ => .equal) <$> char '=',
    (do
      let _ ← char '~'
      let threshold ← optional number
      pure (.similar threshold))]

/-- A literal text between double quotes; a backslash makes the next character stand for
itself. -/
def literal : Parser String := do
  let letters ← between (char '"') (char '"') <| many <|
    (do
      let _ ← char '\\'
      anyChar)
    <|> noneOf ['"', '\\']
  pure (String.ofList letters)

namespace Test

/-- Numbers or three expressions, as arguments of a look-up. -/
def similarityArgs (nesting : Nesting) : Parser SimilarityArgs :=
  (do
    let first ← number
    let _ ← comma
    let second ← number
    pure (.numbers first second))
  <|> (do
    let first ← Regex.quoted nesting
    let _ ← comma
    let second ← Regex.quoted nesting
    let _ ← comma
    let third ← Regex.quoted nesting
    pure (.patterns first second third))

/-- A look-up of similar words. -/
def similarityTest (nesting : Nesting) : Parser Test := do
  let kind ← (fun _ => SimilarityKeyword.ws) <$> keyword "ws"
    <|> (fun _ => SimilarityKeyword.term) <$> keyword "term"
  let args ← parenthesized (similarityArgs nesting)
  pure (.similarity kind args)

/-- A token number or a range of them. -/
def positionTest : Parser Test := do
  let _ ← char '#'
  let first ← number
  let last ← optional (do
    let _ ← char '-'
    number)
  match last with
  | some last => pure (.positionRange first last)
  | none => pure (.position first)

/-- An attribute compared with a literal text or a regular expression. -/
def attributeTest (nesting : Nesting) : Parser Test := do
  let attr ← name
  let negated ← present (afterBlanks (char '!'))
  blanks
  (do
    text "=="
    let value ← afterBlanks literal
    pure (.exactly attr negated value))
  <|> (do
    let comparison ← Comparison.parser
    let regex ← afterBlanks (Regex.quoted nesting)
    pure (.matching attr negated comparison regex))

end Test

/-- Alternatives separated by `|`, each of conditions separated by `&`. -/
def Disjunction.parserOf (condition : Parser Condition) : Parser Disjunction :=
  sepBy1 (spaced (char '|')) (sepBy1 (spaced (char '&')) condition)

namespace Condition

/-- Bracketed alternatives, given how to read the conditions in them. -/
def groupParser (condition : Nesting → Parser Condition) (nesting : Nesting) : Parser Condition :=
  .bracketed .group <$>
    between (do let _ ← char '('; blanks) (afterBlanks (char ')'))
      (nested nesting fun deeper => Disjunction.parserOf (condition deeper))

/-- A negated condition, given how to read conditions. -/
def notParser (condition : Nesting → Parser Condition) (nesting : Nesting) : Parser Condition :=
  .not <$> (do
    let _ ← char '!'
    blanks
    nested nesting condition)

/-- Alternatives as the last argument of `swap`, given how to read the conditions in them. -/
def swapParser (condition : Parser Condition) : Parser Condition := do
  keyword "swap"
  parenthesized (do
    let n ← number
    let _ ← comma
    let alternatives ← Disjunction.parserOf condition
    pure (.bracketed (.swap n) alternatives))

/-- Alternatives as the last argument of `ccoll`, given how to read the conditions in them. -/
def ccollParser (condition : Parser Condition) : Parser Condition := do
  keyword "ccoll"
  parenthesized (do
    let first ← number
    let _ ← comma
    let last ← number
    let _ ← comma
    let alternatives ← Disjunction.parserOf condition
    pure (.bracketed (.ccoll first last) alternatives))

/-- A condition, given how to read the conditions nested in it. -/
def parserOf (condition : Nesting → Parser Condition) (nesting : Nesting) : Parser Condition :=
  firstOf [
    groupParser condition nesting,
    notParser condition nesting,
    .test <$> Test.similarityTest nesting,
    swapParser (condition nesting),
    ccollParser (condition nesting),
    .test <$> Test.positionTest,
    .test <$> Test.attributeTest nesting]

/-- A condition. -/
def parser : Nesting → Parser Condition := recursive parserOf

end Condition

/-- Alternatives of conditions. -/
def Disjunction.parser (nesting : Nesting) : Parser Disjunction :=
  Disjunction.parserOf (Condition.parser nesting)

end CorpusCost
