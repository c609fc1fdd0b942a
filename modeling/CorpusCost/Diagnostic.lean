import CorpusCost.File.FileError
import CorpusCost.Fit.SearchError
import CorpusCost.Machine.Listing
import CorpusCost.Query.Reading

/-!
# Diagnostics

What the user is told when something fails: a message, a stable code, a hint, and the part of the
query to point at. The causes themselves are data of the modules where they arise; their wording is
here.
-/

set_option autoImplicit false

namespace CorpusCost

/-- Why something failed. -/
inductive Cause where
  /-- A text is no query. -/
  | query (error : SyntaxError)
  /-- A query has no cost, or values are no weight vector. -/
  | cost (error : CostError)
  /-- A cost program leaves no value. -/
  | machine (error : Machine.MachineError Float)
  /-- A search ends without a result. -/
  | search (error : SearchError)
  /-- A file is not what it should be. -/
  | file (error : FileError)

/-! ## Wording -/

/-- What a syntax error says. -/
def SyntaxError.message : SyntaxError → String
  | .unexpectedToken _ found => "Unexpected input `" ++ found ++ "`"
  | .unexpectedEnd _ => "Unexpected end of query"
  | .tooDeep _ => "Query nests deeper than " ++ toString Query.maxDepth ++ " levels"

/-- What a cost error says. -/
def CostError.message : CostError → String
  | .emptyQuery => "Query produces no cost terms"
  | .wrongDimension expected found =>
    "Expected " ++ toString expected ++ " weights, found " ++ toString found

/-- What a failed search says. -/
def SearchError.message : SearchError → String
  | .cancelled => "Optimization was cancelled"
  | .emptyDataset => "Dataset contains no usable samples"
  | .invalidConfig reason => "Invalid optimizer configuration: " ++ reason
  | .weights cause => cause.message

/-- Why a file cannot be read, as the system says it. -/
def ReadFault.message : ReadFault → String
  | .notFound => "No such file or directory (os error 2)"
  | .notDirectory => "Not a directory (os error 20)"
  | .isDirectory => "Is a directory (os error 21)"
  | .nameTooLong => "File name too long (os error 36)"
  | .nulByte => "file name contained an unexpected NUL byte"
  | .notText => "stream did not contain valid UTF-8"

/-- What is said of a bad file; nothing where the place of the fault is not tracked. -/
def FileError.message? : FileError → Option String
  | .unreadable path fault => some ("Failed to read `" ++ path ++ "`: " ++ fault.message)
  | .config => none
  | .weights cause => cause.map fun error => "Invalid weights: " ++ error.message
  | .dataset => none

namespace Cause

/-- What is said of a failure. -/
def message? : Cause → Option String
  | .query error => some error.message
  | .cost error => some error.message
  | .machine error => some error.message
  | .search error => some error.message
  | .file error => error.message?

/-- The stable code of a failure. -/
def code : Cause → String
  | .query (.unexpectedToken _ _) => "ParseError::UnexpectedToken"
  | .query (.unexpectedEnd _) => "ParseError::UnexpectedEOFDetected"
  | .query (.tooDeep _) => "ParseError::TooDeep"
  | .cost .emptyQuery => "CompileError::EmptyQuery"
  | .cost (.wrongDimension _ _) => "CompileError::InvalidDimension"
  | .machine (.stackUnderflow _ _ _ _) => "VmError::StackUnderflow"
  | .machine .emptyStack => "VmError::EmptyStack"
  | .search .cancelled => "OptimizerError::Cancelled"
  | .search .emptyDataset => "OptimizerError::EmptyDataset"
  | .search (.invalidConfig _) => "OptimizerError::InvalidConfig"
  | .search (.weights _) => "OptimizerError::Weights"
  | .file (.unreadable _ _) => "ConfigError::Io"
  | .file .config => "ConfigError::Toml"
  | .file (.weights _) => "ConfigError::Json"
  | .file .dataset => "ConfigError::Csv"

/-- A hint on what to do. -/
def help? : Cause → Option String
  | .query (.unexpectedToken _ _) =>
    some "Check for unbalanced brackets, quotes or misplaced operators."
  | .query (.unexpectedEnd _) =>
    some "Query ended unexpectedly. Check for a missing `]`, `\"` or `>`."
  | .query (.tooDeep _) => some "Flatten nested groups, negations or regex groups."
  | .cost .emptyQuery =>
    some "The query has no scorable part, e.g. only empty regular expressions."
  | .cost (.wrongDimension expected _) =>
    some ("A weights file must contain exactly " ++ toString expected ++ " numbers.")
  | .machine _ => some "An internal error occurred. Please report this if it persists."
  | .search .emptyDataset =>
    some "Every record of the dataset was skipped. Run with `-v` to see why."
  | .search (.invalidConfig _) => some "Check the optimizer configuration file and flags."
  | .file (.unreadable _ _) => some "Check the file path and permissions."
  | _ => none

end Cause

/-! ## Pointing at the query -/

/-- A failure with the query it is about. -/
structure Diagnostic where
  /-- Why it failed. -/
  cause : Cause
  /-- The query; empty when it is about none. -/
  source : String
  /-- The first byte to point at. -/
  start : Nat
  /-- The number of bytes to point at. -/
  length : Nat

namespace Diagnostic

/-- The part of a query of `size` bytes that a syntax error points at: its first byte and the byte
after it. At least one byte is pointed at where there is one. -/
def syntaxSpan (size : Nat) : SyntaxError → Nat × Nat
  | .unexpectedToken offset found =>
    (min offset size, min (min offset size + max found.utf8ByteSize 1) size)
  | .unexpectedEnd _ => (size, size)
  | .tooDeep offset => (min offset size, min (min offset size + 1) size)

/-- The diagnostic of a failure that is about a query. Syntax errors point at their place, all
others at the whole query. -/
def of (source : String) (cause : Cause) : Diagnostic :=
  let size := source.utf8ByteSize
  let (first, last) :=
    match cause with
    | .query error => syntaxSpan size error
    | _ => (0, size)
  ⟨cause, source, first, last - first⟩

/-- The diagnostic of a failure that is about no query. -/
def withoutSource (cause : Cause) : Diagnostic := of "" cause

/-- The text next to the part of the query pointed at; none when there is no query. -/
def label? (diagnostic : Diagnostic) : Option String :=
  if diagnostic.source = "" then none else diagnostic.cause.message?

/-- Whether there is a query to show. -/
def hasSource (diagnostic : Diagnostic) : Bool := diagnostic.source != ""

end Diagnostic

end CorpusCost
