import CorpusCost.File.FileError
import CorpusCost.Text.Bytes

/-!
# A directory in memory

Files under their paths in a working directory. A directory exists as long as a file lies in it. Of
what is outside the working directory, the directories above it and those at the top of the system
are known, and the null device, which is always empty. Names and paths have a greatest size.
-/

set_option autoImplicit false

namespace CorpusCost

/-- Where a file lies: the names from the working directory on, after a `..` for each directory that
is left upwards; or the names from the top of the system on, after a `/`. -/
abbrev Location := List String

/-- Files under their paths. -/
structure Directory where
  /-- Each file with its path. -/
  files : List (Location × Bytes)

/-- What a path leads to. -/
inductive Place where
  /-- A directory. -/
  | directory (path : Location)
  /-- A file. -/
  | file (path : Location) (content : Bytes)
  /-- Nothing, in a directory that exists. -/
  | vacant (path : Location)

namespace Directory

/-- The greatest number of bytes of a name. -/
def maxNameSize : Nat := 255

/-- The greatest number of bytes of a path. -/
def maxPathSize : Nat := 4095

/-- The top of the system. -/
def top : Location := ["/"]

/-- The names of the directories at the top of the system. -/
def topNames : List String :=
  ["bin", "boot", "dev", "etc", "home", "lib", "media", "mnt", "opt", "proc", "root", "run", "sbin",
    "srv", "sys", "tmp", "usr", "var"]

/-- The file that is empty whatever is written to it. -/
def nullDevice : Location := ["/", "dev", "null"]

/-- Whether a name leads nowhere else. -/
def staysHere (name : String) : Bool := name == "" || name == "."

/-- The names in the text of a path. -/
def names (path : String) : List String := path.splitToList (· == '/')

/-- The directory with the given files. -/
def ofList (files : List (String × Bytes)) : Directory :=
  ⟨files.map fun (path, content) => ((names path).filter fun name => !staysHere name, content)⟩

/-- The file at a path, if there is one. -/
def content? (directory : Directory) (path : Location) : Option Bytes :=
  if path = nullDevice then some [] else directory.files.lookup path

/-- Whether a directory outside the working directory is known to be at a path, or the working
directory itself. -/
def isKnownOutside (path : Location) : Bool :=
  path.all (· == "..") || path = top || topNames.any fun name => path = top ++ [name]

/-- Whether there is a directory at a path. -/
def hasDirectory (directory : Directory) (path : Location) : Bool :=
  isKnownOutside path ||
    directory.files.any fun file => path.isPrefixOf file.1 && path.length < file.1.length

/-- The directory above a directory; the top of the system is above itself. -/
def above (here : Location) : Location :=
  match here.getLast? with
  | none => [".."]
  | some ".." => here ++ [".."]
  | some "/" => here
  | some _ => here.dropLast

/-- What names lead to from a directory that exists. -/
def walk (directory : Directory) (here : Location) : List String → Except ReadFault Place
  | [] => .ok (.directory here)
  | name :: rest =>
    if staysHere name then walk directory here rest
    else if name = ".." then walk directory (above here) rest
    else if maxNameSize < name.utf8ByteSize then .error .nameTooLong
    else
      let path := here ++ [name]
      match directory.content? path with
      | some content => if rest.isEmpty then .ok (.file path content) else .error .notDirectory
      | none =>
        if directory.hasDirectory path then walk directory path rest
        else if rest.isEmpty then .ok (.vacant path)
        else .error .notFound

/-- What the text of a path leads to. -/
def find (directory : Directory) (path : String) : Except ReadFault Place :=
  if path.toList.contains '\x00' then .error .nulByte
  else if maxPathSize < path.utf8ByteSize then .error .nameTooLong
  else if path = "" then .error .notFound
  else directory.walk (if path.startsWith "/" then top else []) (names path)

/-- The bytes of the file at a path. -/
def read (directory : Directory) (path : String) : Except ReadFault Bytes :=
  match directory.find path with
  | .ok (.file _ content) => .ok content
  | .ok (.directory _) => .error .isDirectory
  | .ok (.vacant _) => .error .notFound
  | .error fault => .error fault

/-- The directory with a file written; none if it cannot be written there. -/
def write? (directory : Directory) (path : String) (content : Bytes) : Option Directory :=
  match directory.find path with
  | .ok (.file place _) =>
    some ⟨directory.files.map fun file => if file.1 = place then (place, content) else file⟩
  | .ok (.vacant place) => some ⟨directory.files ++ [(place, content)]⟩
  | _ => none

end Directory

end CorpusCost
