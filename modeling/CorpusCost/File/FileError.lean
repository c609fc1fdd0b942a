import CorpusCost.Cost.Weights

/-!
# Unusable files

What can be wrong with a file that is read.
-/

set_option autoImplicit false

namespace CorpusCost

/-- Why a file cannot be read. -/
inductive ReadFault where
  /-- There is no such file. -/
  | notFound
  /-- A part of the path is a file. -/
  | notDirectory
  /-- The path leads to a directory. -/
  | isDirectory
  /-- The path, or a name in it, has too many bytes. -/
  | nameTooLong
  /-- The path has a character with the code zero. -/
  | nulByte
  /-- The bytes of the file are no UTF-8 text. -/
  | notText
  deriving DecidableEq, Repr

/-- What is wrong with a file. -/
inductive FileError where
  /-- It cannot be read. -/
  | unreadable (path : String) (fault : ReadFault)
  /-- It is no settings file. -/
  | config
  /-- It is no list of numbers, or, with a cause, a list of the wrong length. -/
  | weights (cause : Option CostError)
  /-- It is no list of samples. -/
  | dataset
  deriving DecidableEq, Repr

end CorpusCost
