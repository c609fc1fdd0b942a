import CorpusCost.Cost.Compile
import CorpusCost.Diagnostic

/-!
# Scores of queries

The score of a query is the value that its cost program leaves: the higher, the slower the query is
expected to be.
-/

set_option autoImplicit false

namespace CorpusCost

namespace Query

/-- The score of a query. -/
def score (query : Query) (weights : Weights Float) : Except Cause Float :=
  match query.compile weights with
  | .error error => .error (.cost error)
  | .ok program =>
    match Machine.value program with
    | .error error => .error (.machine error)
    | .ok value => .ok value

/-- The query that a text makes up, or the diagnostic that points at what is wrong in it. -/
def read (text : String) : Except Diagnostic Query :=
  match parse text with
  | .error error => .error (.of text (.query error))
  | .ok query => .ok query

/-- The score of a query; a failure points at its canonical text. -/
def scoreCanonical (query : Query) (weights : Weights Float) : Except Diagnostic Float :=
  match query.score weights with
  | .error cause => .error (.of query.text cause)
  | .ok value => .ok value

/-- The score of the query that a text makes up; a failure points at the text. -/
def scoreText (text : String) (weights : Weights Float) : Except Diagnostic Float :=
  match read text with
  | .error diagnostic => .error diagnostic
  | .ok query =>
    match query.score weights with
    | .error cause => .error (.of text cause)
    | .ok value => .ok value

end Query

end CorpusCost
