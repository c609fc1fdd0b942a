import CorpusCost.Query.Parser
import CorpusCost.Text.Blank
import CorpusCost.Text.ByteSize

/-!
# From text to query

`Query.parse` reads a whole text. What it cannot read is reported where the end of the text was
expected: the first word that is left there, or the end itself when only white space is left.
Brackets that nest too deeply end reading at once.
-/

set_option autoImplicit false

namespace CorpusCost

/-- Why a text is no query. -/
inductive SyntaxError where
  /-- The word `found` at the byte `offset` continues no query. -/
  | unexpectedToken (offset : Nat) (found : String)
  /-- The text ends at the byte `offset` with white space that is no blank of the language. -/
  | unexpectedEnd (offset : Nat)
  /-- A bracket before the byte `offset` is nested too deeply. -/
  | tooDeep (offset : Nat)
  deriving DecidableEq, Repr

namespace SyntaxError

/-- The byte at which the error shows. -/
def offset : SyntaxError → Nat
  | .unexpectedToken offset _ => offset
  | .unexpectedEnd offset => offset
  | .tooDeep offset => offset

/-- The error for a text of `size` bytes of which `rest` could not be read. -/
def ofRest (size : Nat) (rest : List Char) : SyntaxError :=
  let visible := Text.trimStart rest
  let offset := size - Text.byteSize visible
  match Text.firstWord visible with
  | [] => .unexpectedEnd offset
  | word => .unexpectedToken offset (String.ofList word)

end SyntaxError

namespace Query

/-- The deepest nesting of groups, negations and bracketed expressions that is read. -/
def maxDepth : Nat := 32

/-- A whole query with any blanks around it: the query with what is left behind it. -/
def parser (nesting : Parser.Nesting) : Parser Query := do
  Parser.blanks
  let query ← parts nesting
  Parser.blanks
  pure query

/-- The query that the characters `cs` make up, where brackets nest at most `limit` deep. -/
def parseWithin (limit : Option Nat) (cs : List Char) : Except SyntaxError Query :=
  match parser ⟨0, limit⟩ cs with
  | .read query [] => .ok query
  | .read _ rest => .error (.ofRest (Text.byteSize cs) rest)
  | .miss => .error (.ofRest (Text.byteSize cs) cs)
  | .tooDeep rest => .error (.tooDeep (Text.byteSize cs - Text.byteSize rest))

/-- The query that a text makes up. -/
def parse (text : String) : Except SyntaxError Query :=
  parseWithin (some maxDepth) text.toList

end Query

end CorpusCost
