import CorpusCost.CommandLine.Reading
import CorpusCost.CommandLine.Run

/-!
# The command line program

Reads the files that a command names, runs it, and writes what it says to write.
-/

set_option autoImplicit false

namespace CorpusCost

open CommandLine

/-- Why a file could not be read. -/
def faultOf (error : IO.Error) : ReadFault :=
  match error with
  | .noFileOrDirectory _ _ _ => .notFound
  | .inappropriateType _ code _ => if code = 21 then .isDirectory else .notDirectory
  | .invalidArgument _ code _ => if code = 36 then .nameTooLong else .nulByte
  | _ => .notFound

/-- The bytes of a file of the system. -/
def readSystemFile (path : String) : IO (Except ReadFault Bytes) := do
  try
    let content ← IO.FS.readBinFile path
    return .ok content.data.toList
  catch error => return .error (faultOf error)

/-- What is printed for a failure. -/
def Diagnostic.report (diagnostic : Diagnostic) : String :=
  let lines := [diagnostic.cause.code] ++ diagnostic.cause.message?.toList ++
    diagnostic.cause.help?.toList
  "\n".intercalate lines

/-- How the program is used. -/
def usage : String :=
  "Usage: corpus-cost [OPTIONS] <COMMAND>\n\n" ++
  "  score [-w FILE] [-F text|json] QUERY...   Print the slowness score of each query\n" ++
  "  compile [-w FILE] QUERY                   Print the cost program of a query\n" ++
  "  tree QUERY                                Print the syntax tree of a query\n" ++
  "  fit [-c FILE] [-o FILE] DATASET           Fit weights to measured query times"

/-- Runs a command with the files it names. -/
def runCommand (command : Command) : IO UInt32 := do
  let contents ← command.inputs.mapM fun path => do
    return (path, ← readSystemFile path)
  let files : Files := fun path => (contents.lookup path).getD (.error .notFound)
  let chance ← IO.rand 0 (UInt64.size - 1)
  match command.run files (UInt64.ofNat chance) with
  | .error diagnostic =>
    IO.eprintln diagnostic.report
    return 1
  | .ok written =>
    IO.eprint written.notes
    IO.print written.output
    match written.file with
    | none => return 0
    | some (path, content) =>
      try
        IO.FS.writeFile path content
        return 0
      catch error =>
        IO.eprintln (toString error)
        return 1

end CorpusCost

open CorpusCost in
/-- Runs the command that the arguments make up. -/
def main (args : List String) : IO UInt32 := do
  match CommandLine.read args with
  | .ok command => runCommand command
  | .error .helpAsked =>
    IO.println usage
    return 0
  | .error .versionAsked =>
    IO.println "corpus-cost 0.3.0"
    return 0
  | .error _ =>
    IO.eprintln usage
    return 2
