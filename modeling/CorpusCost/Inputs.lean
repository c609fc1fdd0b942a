import CorpusCost.File.FileError
import CorpusCost.File.Json
import CorpusCost.Fit.Dataset
import CorpusCost.Fit.Settings

/-!
# Input files

Weights, settings and samples from files. How files are read is a parameter; what is wrong with one
is reported with its path.
-/

set_option autoImplicit false

namespace CorpusCost

/-- A way to read files. -/
abbrev Files := String → Except ReadFault Bytes

/-- The text of a file. -/
def Files.text (files : Files) (path : String) : Except FileError String :=
  match files path with
  | .error fault => .error (.unreadable path fault)
  | .ok bytes =>
    match bytes.text? with
    | none => .error (.unreadable path .notText)
    | some content => .ok content

namespace Weights

/-- The weight vector in a text: a list of numbers and nothing else. The length of the list is
checked before what follows it. -/
def ofJson (content : String) : Except FileError (Weights Float) :=
  match Json.leadingNumbers? content with
  | none => .error (.weights none)
  | some (values, atEnd) =>
    match ofList values with
    | .error error => .error (.weights (some error))
    | .ok weights => if atEnd then .ok weights else .error (.weights none)

/-- As a list. -/
def toJson (weights : Weights Float) : Json := .ofNumbers weights.toList

/-- The weight vector in a file. -/
def load (files : Files) (path : String) : Except FileError (Weights Float) :=
  match files.text path with
  | .error error => .error error
  | .ok content => ofJson content

end Weights

namespace SearchConfig

/-- The settings in a text. -/
def ofToml (content : String) : Except FileError (SearchConfig Float) :=
  match ofToml? content with
  | none => .error .config
  | some config => .ok config

/-- The settings in a file. -/
def load (files : Files) (path : String) : Except FileError (SearchConfig Float) :=
  match files.text path with
  | .error error => .error error
  | .ok content => ofToml content

end SearchConfig

namespace Dataset

/-- The samples in the bytes of a file. -/
def ofBytes (bytes : Bytes) : Except FileError (Dataset Float) :=
  match ofBytes? bytes with
  | none => .error .dataset
  | some dataset => .ok dataset

/-- The samples in a file. A directory can be opened like a file, but holds no records. -/
def load (files : Files) (path : String) : Except FileError (Dataset Float) :=
  match files path with
  | .error .isDirectory => .error .dataset
  | .error fault => .error (.unreadable path fault)
  | .ok bytes => ofBytes bytes

end Dataset

end CorpusCost
