import CorpusCost.CommandLine.Options

/-!
# Reading command lines

The words of a command line from left to right. Options stand before or after the words that belong
to no option; after `--` no word is an option. A value is checked only when the next option or
operand begins, or at the end, so that an unknown option is reported before it.
-/

set_option autoImplicit false

namespace CorpusCost.CommandLine

/-- How a word looks. -/
inductive Word where
  /-- Two dashes. -/
  | separator
  /-- A name after two dashes, and the text after `=` if there is one. -/
  | long (name : String) (value : Option String)
  /-- Letters after one dash. -/
  | short (letters : List Char)
  /-- Anything else. -/
  | plain (text : String)
  deriving DecidableEq, Repr

/-- The name and the value in the text after two dashes. -/
def splitValue (cs : List Char) : String × Option String :=
  let name := cs.takeWhile (· != '=')
  match cs.dropWhile (· != '=') with
  | _ :: value => (String.ofList name, some (String.ofList value))
  | [] => (String.ofList name, none)

/-- How a text looks as a word. -/
def Word.ofString (text : String) : Word :=
  match text.toList with
  | ['-', '-'] => .separator
  | '-' :: '-' :: rest =>
    let (name, value) := splitValue rest
    .long name value
  | '-' :: letter :: letters => .short (letter :: letters)
  | _ => .plain text

/-- What waits to be checked. -/
inductive Pending where
  /-- Nothing. -/
  | none
  /-- An option whose value is still to come. -/
  | awaiting (setting : Setting)
  /-- An option with its value. -/
  | value (setting : Setting) (text : String)
  /-- A word that belongs to no option. -/
  | operand (word : String)
  deriving DecidableEq, Repr

/-- How far the words of a command are read. -/
structure Reading where
  /-- What has been given so far. -/
  given : Given
  /-- What is given but not checked. -/
  pending : Pending

namespace Reading

/-- Nothing read yet. -/
def start : Reading := ⟨.nothing, .none⟩

/-- Checks what waits to be checked. -/
def settle (reading : Reading) (name : CommandName) : Except UsageError Reading :=
  match reading.pending with
  | .none => .ok reading
  | .awaiting _ => .error .invalidValue
  | .value setting text => (reading.given.accept setting text).map fun given => ⟨given, .none⟩
  | .operand word => (reading.given.acceptOperand name word).map fun given => ⟨given, .none⟩

/-- The number of operands, checked or not. -/
def operandCount (reading : Reading) : Nat :=
  match reading.pending with
  | .operand _ => reading.given.operands.length + 1
  | _ => reading.given.operands.length

/-- Takes an option without a value. -/
def takeFlag (reading : Reading) (name : CommandName) (flag : Flag) : Except UsageError Reading :=
  match reading.settle name with
  | .error error => .error error
  | .ok reading =>
    match flag with
    | .verbose => .ok reading
    | .help => .error .helpAsked
    | .version => .error .versionAsked

/-- Takes an option with the value that is written next to it, if one is. -/
def takeSetting (reading : Reading) (name : CommandName) (setting : Setting)
    (attached : Option String) : Except UsageError Reading :=
  match reading.settle name with
  | .error error => .error error
  | .ok reading =>
    match attached with
    | some value => (reading.given.accept setting value).map fun given => ⟨given, .none⟩
    | none => .ok { reading with pending := .awaiting setting }

/-- Takes an option by its long name. -/
def takeLong (reading : Reading) (name : CommandName) (long : String) (attached : Option String) :
    Except UsageError Reading :=
  match longSwitch? name.spellings long, attached with
  | none, _ => .error .unknownArgument
  | some (.setting setting), attached => reading.takeSetting name setting attached
  | some (.flag flag), none => reading.takeFlag name flag
  | some (.flag _), some _ => .error .unexpectedValue

/-- The value written next to the letter of an option; a `=` may stand between. -/
def attached? : List Char → Option String
  | [] => none
  | '=' :: rest => some (String.ofList rest)
  | cs => some (String.ofList cs)

/-- Takes options by their letters. The first with a value takes all letters after it for its
value. -/
def takeLetters (reading : Reading) (name : CommandName) : List Char → Except UsageError Reading
  | [] => .ok reading
  | letter :: letters =>
    match shortSwitch? name.spellings letter with
    | none => .error .unknownArgument
    | some (.setting setting) => reading.takeSetting name setting (attached? letters)
    | some (.flag flag) =>
      match reading.takeFlag name flag with
      | .error error => .error error
      | .ok reading => takeLetters reading name letters

/-- Takes a word that belongs to no option. -/
def takeOperand (reading : Reading) (name : CommandName) (word : String) :
    Except UsageError Reading :=
  if name.takesOperand reading.operandCount then
    (reading.settle name).map fun reading => { reading with pending := .operand word }
  else .error .unknownArgument

/-- Takes a text that looks like no option: the value that an option waits for, or an operand. -/
def takePlain (reading : Reading) (name : CommandName) (text : String) :
    Except UsageError Reading :=
  match reading.pending with
  | .awaiting setting => .ok { reading with pending := .value setting text }
  | _ => reading.takeOperand name text

/-- Takes words after `--`. -/
def takeOperands (reading : Reading) (name : CommandName) : List String → Except UsageError Reading
  | [] => .ok reading
  | word :: words =>
    match reading.takeOperand name word with
    | .error error => .error error
    | .ok reading => takeOperands reading name words

/-- Takes a word in front of `--`. -/
def takeWord (reading : Reading) (name : CommandName) (word : Word) : Except UsageError Reading :=
  match word with
  | .separator => .ok reading
  | .long long attached => reading.takeLong name long attached
  | .short letters => reading.takeLetters name letters
  | .plain text => reading.takePlain name text

/-- Takes words. -/
def takeWords (reading : Reading) (name : CommandName) : List String → Except UsageError Reading
  | [] => .ok reading
  | text :: texts =>
    match reading.takeWord name (Word.ofString text) with
    | .error error => .error error
    | .ok reading =>
      if Word.ofString text = Word.separator then takeOperands reading name texts
      else takeWords reading name texts

end Reading

/-- The command of the given name that its words make up. -/
def commandOf (name : CommandName) (words : List String) : Except UsageError Command := do
  let reading ← Reading.start.takeWords name words
  let reading ← reading.settle name
  reading.given.command name

/-! ## The words in front of a command -/

/-- What `help` with some words asks for: help for a command, if there is one of that name. -/
def helpOf : List String → UsageError
  | [] => .helpAsked
  | [name] => if name = "help" ∨ (CommandName.ofString? name).isSome then .helpAsked
    else .unknownCommand
  | _ => .unknownCommand

/-- Why letters after one dash in front of a command lead to none; nothing if they are all for
logging. -/
def frontLetters? : List Char → Option UsageError
  | [] => none
  | letter :: letters =>
    match shortSwitch? inFront letter with
    | some (.flag .verbose) => frontLetters? letters
    | some (.flag .help) => some .helpAsked
    | some (.flag .version) => some .versionAsked
    | _ => some .unknownArgument

/-- Why a long option in front of a command leads to none; nothing if it is for logging. -/
def frontLong? (name : String) (attached : Option String) : Option UsageError :=
  match longSwitch? inFront name, attached with
  | some (.flag _), some _ => some .unexpectedValue
  | some (.flag .verbose), none => none
  | some (.flag .help), none => some .helpAsked
  | some (.flag .version), none => some .versionAsked
  | _, _ => some .unknownArgument

/-- What is said of a word after `--` in front of a command: none can follow there. -/
def afterSeparator : List String → Bool → UsageError
  | [], verbose => if verbose then .missingCommand else .nothingAsked
  | name :: _, _ =>
    if name = "help" ∨ (CommandName.ofString? name).isSome then .unknownArgument
    else .unknownCommand

/-- The command that words make up, `verbose` saying whether an option is already read. -/
def readFrom (verbose : Bool) : List String → Except UsageError Command
  | [] => .error (if verbose then .missingCommand else .nothingAsked)
  | word :: words =>
    match CommandName.ofString? word with
    | some name => commandOf name words
    | none =>
      if word = "help" then .error (helpOf words)
      else
        match Word.ofString word with
        | .separator => .error (afterSeparator words verbose)
        | .long name attached =>
          match frontLong? name attached with
          | some error => .error error
          | none => readFrom true words
        | .short letters =>
          match frontLetters? letters with
          | some error => .error error
          | none => readFrom true words
        | .plain _ => .error .unknownCommand

/-- The command that the words of a command line make up. -/
def read (words : List String) : Except UsageError Command := readFrom false words

end CorpusCost.CommandLine
