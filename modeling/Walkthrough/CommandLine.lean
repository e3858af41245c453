import Walkthrough.Report
import Walkthrough.Run.Exec

/-!
# The command line

The arguments name one file and options. They are taken from left to right, and
the first one that is wrong, or that asks for the version, settles the matter. An
option is given once only, with its value attached or as the next argument.
-/

namespace Walkthrough.CommandLine

/-- The form in which a trace is written. -/
inductive Format where
  | text
  | json
  deriving DecidableEq, Repr

/-- What has been read of the arguments so far. -/
structure Settings where
  /-- The file to trace. -/
  file : Option String := none
  /-- The form of the output. -/
  format : Option Format := none
  /-- The limit on steps. -/
  steps : Option Nat := none
  /-- The limit on calls. -/
  calls : Option Nat := none
  deriving DecidableEq, Repr

/-- What the arguments ask for. -/
inductive Command where
  /-- The version of the program. -/
  | version
  /-- The trace of a file. -/
  | trace (file : String) (format : Format) (limits : Limits)
  deriving DecidableEq, Repr

/-- An option that takes a value. -/
inductive Parameter where
  | format
  | steps
  | calls
  deriving DecidableEq, Repr

/-- The form with a name. -/
def readFormat? : String → Option Format
  | "text" => some .text
  | "json" => some .json
  | _ => none

/-- A natural number of at most 64 bits, with or without a plus sign. -/
def readNat? (value : String) : Option Nat :=
  let digits :=
    match value.toList with
    | '+' :: digits => digits
    | digits => digits
  if digits ≠ [] ∧ digits.all Char.isDigit ∧ Decimal.ofDigits digits < UInt64.size then
    some (Decimal.ofDigits digits)
  else none

/-- The settings with a value that was not given before. -/
def once {α : Type} (before : Option α) (value : Option α) (update : α → Settings) :
    Option Settings :=
  match before, value with
  | none, some a => some (update a)
  | _, _ => none

/-- The settings with a value of an option. -/
def Settings.assign (s : Settings) (value : String) : Parameter → Option Settings
  | .format => once s.format (readFormat? value) fun a => { s with format := some a }
  | .steps => once s.steps (readNat? value) fun a => { s with steps := some a }
  | .calls => once s.calls (readNat? value) fun a => { s with calls := some a }

/-- The settings with the file to trace, which has a name. -/
def Settings.withFile (s : Settings) (file : String) : Option Settings :=
  once s.file (if file.isEmpty then none else some file) fun a => { s with file := some a }

/-- The command of all arguments. -/
def Settings.command (s : Settings) : Option Command :=
  let default : Limits := {}
  s.file.map fun file =>
    .trace file (s.format.getD .text) ⟨s.steps.getD default.steps, s.calls.getD default.calls⟩

/-- What an argument with its dashes means. -/
inductive Flag where
  /-- The version. -/
  | version
  /-- An option that changes nothing in the output. -/
  | verbose
  /-- An option with a value. -/
  | parameter (p : Parameter)

/-- The flag with a long name. -/
def longFlag? : String → Option Flag
  | "version" => some .version
  | "verbose" => some .verbose
  | "format" => some (.parameter .format)
  | "max-steps" => some (.parameter .steps)
  | "max-call-depth" => some (.parameter .calls)
  | _ => none

/-- The flag with a letter. -/
def shortFlag? : Char → Option Flag
  | 'V' => some .version
  | 'v' => some .verbose
  | 'f' => some (.parameter .format)
  | _ => none

/-- The name of a long option and the value attached to it. -/
def splitValue (text : List Char) : String × Option String :=
  let name := String.ofList (text.takeWhile (· != '='))
  match text.dropWhile (· != '=') with
  | [] => (name, none)
  | _ :: value => (name, some (String.ofList value))

/-- What one argument leads to. -/
inductive Reading where
  /-- The arguments are wrong. -/
  | wrong
  /-- The version is asked for. -/
  | version
  /-- The reading goes on. -/
  | settled (s : Settings)
  /-- The next argument is the value of an option. -/
  | awaiting (p : Parameter)

/-- The reading of settings that may be wrong. -/
def Reading.ofSettings : Option Settings → Reading
  | some s => settled s
  | none => wrong

/-- Reads a long option, without its dashes. -/
def readLong (s : Settings) (text : List Char) : Reading :=
  let (name, value) := splitValue text
  match longFlag? name, value with
  | some .version, none => .version
  | some .verbose, none => .settled s
  | some (.parameter p), some value => .ofSettings (s.assign value p)
  | some (.parameter p), none => .awaiting p
  | _, _ => .wrong

/-- Reads options of one letter each, without their dash. The rest after an option
with a value is that value, with or without an equals sign. -/
def readShort (s : Settings) : List Char → Reading
  | [] => .settled s
  | letter :: rest =>
    match shortFlag? letter with
    | some .version => .version
    | some .verbose => readShort s rest
    | some (.parameter p) =>
      match rest with
      | [] => .awaiting p
      | '=' :: value => .ofSettings (s.assign (String.ofList value) p)
      | value => .ofSettings (s.assign (String.ofList value) p)
    | none => .wrong

/-- Whether an argument is an option. A single dash is none. -/
def isOption (arg : String) : Bool :=
  match arg.toList with
  | '-' :: _ :: _ => true
  | _ => false

/-- Reads one argument that is not the value of an option. -/
def readArgument (s : Settings) (arg : String) : Reading :=
  match arg.toList with
  | '-' :: '-' :: text => readLong s text
  | '-' :: letter :: letters => readShort s (letter :: letters)
  | _ => .ofSettings (s.withFile arg)

/-- The command of arguments that name files only. -/
def parseFiles (s : Settings) : List String → Option Command
  | [] => s.command
  | file :: others => do parseFiles (← s.withFile file) others

/-- The command of the arguments after some settings. -/
def parseFrom (s : Settings) : List String → Option Command
  | [] => s.command
  | "--" :: files => parseFiles s files
  | arg :: others =>
    match readArgument s arg with
    | .wrong => none
    | .version => some .version
    | .settled s => parseFrom s others
    | .awaiting p =>
      match others with
      | value :: others =>
        if isOption value then none else do parseFrom (← s.assign value p) others
      | [] => none

/-- The command of the arguments, or nothing if they are wrong. -/
def parse (args : List String) : Option Command := parseFrom {} args

/-- Why a file cannot be read. -/
inductive ReadFault where
  /-- There is no such file. -/
  | missing
  /-- It may not be read. -/
  | denied
  /-- A part of its path is no directory. -/
  | notDirectory
  /-- It is a directory. -/
  | directory
  /-- A part of its path, or all of it, is too long. -/
  | tooLong
  /-- It is no text. -/
  | notText
  /-- Some other cause. -/
  | other (text : String)
  deriving DecidableEq, Repr

/-- The wording of a fault. -/
def ReadFault.message : ReadFault → String
  | missing => "No such file or directory (os error 2)"
  | denied => "Permission denied (os error 13)"
  | notDirectory => "Not a directory (os error 20)"
  | directory => "Is a directory (os error 21)"
  | tooLong => "File name too long (os error 36)"
  | notText => "stream did not contain valid UTF-8"
  | other text => text

/-- The text of a file from its bytes. -/
def readText (contents : Except ReadFault ByteArray) : Except ReadFault String := do
  match String.fromUTF8? (← contents) with
  | some text => return text
  | none => throw .notText

/-- What the program gives back. -/
structure Outcome where
  /-- The exit code. -/
  code : UInt8
  /-- What is written to the standard output. -/
  output : String := ""
  /-- What is written to the standard error. -/
  error : String := ""
  deriving DecidableEq, Repr

/-- The name and the version of the program. -/
def versionText : String := "steptrace 0.1.0"

/-- The outcome of wrong arguments. -/
def wrongArguments : Outcome := { code := 2, error := "error: wrong arguments\n" }

/-- A trace in a form. -/
def render (format : Format) (marking : Marking) (t : Trace) : String :=
  match format with
  | .text => t.text marking
  | .json => t.data.pretty ++ "\n"

/-- The outcome of a failure with a file. -/
def failed (action file cause : String) : Outcome :=
  { code := 1, error := s!"Error: failed to {action} {file}: {cause}\n" }

/-- The outcome of tracing a file, of which the bytes may have been read. -/
def traceFile (marking : Marking) (file : String) (format : Format) (limits : Limits)
    (contents : Except ReadFault ByteArray) : Outcome :=
  match readText contents with
  | .error fault => failed "read" file fault.message
  | .ok text =>
    match traceText text limits with
    | .error failure => failed "trace" file failure.message
    | .ok t => { code := 0, output := render format marking t }

/-- The outcome of the arguments, with a way of reading files. -/
def outcome {m : Type → Type} [Monad m] (marking : Marking)
    (readFile : String → m (Except ReadFault ByteArray)) (args : List String) : m Outcome :=
  match parse args with
  | none => pure wrongArguments
  | some .version => pure { code := 0, output := versionText ++ "\n" }
  | some (.trace file format limits) => do
    return traceFile marking file format limits (← readFile file)

end Walkthrough.CommandLine
