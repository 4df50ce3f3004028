import Enabledness.CommandLine.Word
import Enabledness.Construction
import Enabledness.Verifier.Corral

/-!
# Requests

What the arguments of the command line ask for.  Arguments are read from left to right, and the first
one that makes no sense decides; `--help` and `--version` act as soon as they are met.
-/

namespace Enabledness.CommandLine

/-- A wish for an automaton. -/
structure ConstructRequest where
  /-- The file with the class description. -/
  file : String
  /-- How the verifier is called. -/
  corral : CorralConfig := {}
  /-- How the construction is run. -/
  config : ConstructionConfig := {}
  /-- Where the report goes. -/
  report : Option String := none
  /-- Where the drawing of the automaton goes. -/
  dot : Option String := none
  /-- Log more than usual. -/
  verbose : Bool := false

/-- What is asked for. -/
inductive Request where
  /-- How the program is used. -/
  | help
  /-- Which version of the program this is. -/
  | version
  /-- The actions of a class. -/
  | actions (file : String)
  /-- The automaton of a class. -/
  | construct (request : ConstructRequest)

/-- Why arguments make no sense. -/
inductive UsageFault where
  /-- No command is given. -/
  | missingCommand
  /-- There is no such command. -/
  | unknownCommand (word : String)
  /-- The command has no such option. -/
  | unknownOption (option : String)
  /-- An option is given twice. -/
  | repeatedOption (option : String)
  /-- An option is given without its value. -/
  | missingValue (option : String)
  /-- An option that takes no value has one. -/
  | unwantedValue (option : String)
  /-- The value of an option is out of its range. -/
  | invalidValue (option value : String)
  /-- No file is given. -/
  | missingFile
  /-- The name of the file is empty. -/
  | emptyFile
  /-- There is a word too much. -/
  | surplusWord (word : String)
deriving DecidableEq

/-- The fault as text. -/
def UsageFault.message : UsageFault → String
  | missingCommand => "a command is required"
  | unknownCommand word => "unrecognized command '" ++ word ++ "'"
  | unknownOption option => "unexpected argument '" ++ option ++ "' found"
  | repeatedOption option => "the argument '" ++ option ++ "' cannot be used multiple times"
  | missingValue option => "a value is required for '" ++ option ++ "' but none was supplied"
  | unwantedValue option => "unexpected value for '" ++ option ++ "' found"
  | invalidValue option value => "invalid value '" ++ value ++ "' for '" ++ option ++ "'"
  | missingFile => "the argument '<FILE>' was not provided"
  | emptyFile => "a value is required for '<FILE>' but none was supplied"
  | surplusWord word => "unexpected argument '" ++ word ++ "' found"

/-- An option that takes a value. -/
inductive Parameter where
  /-- The verifier. -/
  | corral
  /-- The number of workers. -/
  | workers
  /-- The recursion bound of the verifier. -/
  | recursionBound
  /-- The time for one query, in seconds. -/
  | timeout
  /-- A further argument of the verifier. -/
  | corralArg
  /-- The directory for program files. -/
  | programDir
  /-- The file for the report. -/
  | report
  /-- The file for the drawing. -/
  | dot
deriving DecidableEq

namespace Parameter

/-- All options with a value. -/
def all : List Parameter :=
  [corral, workers, recursionBound, timeout, corralArg, programDir, report, dot]

/-- The name of the option. -/
def name : Parameter → String
  | corral => "corral"
  | workers => "workers"
  | recursionBound => "recursion-bound"
  | timeout => "timeout"
  | corralArg => "corral-arg"
  | programDir => "program-dir"
  | report => "report"
  | dot => "dot"

/-- The option as it is written. -/
def text (p : Parameter) : String := "--" ++ p.name

end Parameter

/-- What the arguments read so far have set. -/
structure Given where
  /-- The file. -/
  file : Option String := none
  /-- The verifier. -/
  corral : Option String := none
  /-- The number of workers. -/
  workers : Option Nat := none
  /-- The recursion bound. -/
  recursionBound : Option Nat := none
  /-- The time for one query, in seconds. -/
  timeout : Option Nat := none
  /-- The further arguments of the verifier. -/
  corralArgs : List String := []
  /-- The directory for program files. -/
  programDir : Option String := none
  /-- The file for the report. -/
  report : Option String := none
  /-- The file for the drawing. -/
  dot : Option String := none
  /-- The wish for more log lines. -/
  verbose : Bool := false

/-- The value of a parameter that is read from a text and must not have been given before. -/
def once {α : Type} (p : Parameter) (known : Option α) (read : String → Option α) (value : String) :
    Except UsageFault (Option α) :=
  match read value, known with
  | none, _ => .error (.invalidValue p.text value)
  | some _, some _ => .error (.repeatedOption p.text)
  | some a, none => .ok (some a)

/-- A path: any text but the empty one. -/
def path? (text : String) : Option String := if text.isEmpty then none else some text

/-- A natural number below a limit. -/
def below? (limit : Nat) (text : String) : Option Nat := (natural? text).filter (· < limit)

/-- A recursion bound: an integer from zero to the largest 32 bit number, so that a minus sign may
stand before a zero. -/
def recursionBound? (text : String) : Option Nat :=
  match integer? text with
  | some n => if 0 ≤ n ∧ n < 4294967296 then some n.toNat else none
  | none => none

namespace Given

/-- Set an option with a value. -/
def set (g : Given) (value : String) : Parameter → Except UsageFault Given
  | .corral => (once .corral g.corral path? value).map fun v => { g with corral := v }
  | .workers => (once .workers g.workers (below? UInt64.size) value).map fun v => { g with workers := v }
  | .recursionBound =>
    (once .recursionBound g.recursionBound recursionBound? value).map fun v =>
      { g with recursionBound := v }
  | .timeout => (once .timeout g.timeout (below? UInt64.size) value).map fun v => { g with timeout := v }
  | .corralArg => .ok { g with corralArgs := g.corralArgs ++ [value] }
  | .programDir =>
    (once .programDir g.programDir path? value).map fun v => { g with programDir := v }
  | .report => (once .report g.report path? value).map fun v => { g with report := v }
  | .dot => (once .dot g.dot path? value).map fun v => { g with dot := v }

/-- Take up a plain word: the first is the file, and there must be no second. -/
def addWord (g : Given) (word : String) : Except UsageFault Given :=
  match g.file with
  | some _ => .error (.surplusWord word)
  | none => if word.isEmpty then .error .emptyFile else .ok { g with file := some word }

/-- Ask for more log lines. -/
def setVerbose (g : Given) : Except UsageFault Given :=
  if g.verbose then .error (.repeatedOption "--verbose") else .ok { g with verbose := true }

/-- The request for an automaton with what is given, and the defaults for the rest. -/
def toConstruct (g : Given) (file : String) : ConstructRequest :=
  let corral : CorralConfig := {}
  let config : ConstructionConfig := {}
  { file := file
    corral :=
      { binary := g.corral.getD corral.binary
        recursionBound := g.recursionBound.getD corral.recursionBound
        timeout := (g.timeout.map Duration.ofSecs).getD corral.timeout
        extraArgs := g.corralArgs }
    config := { config with workers := g.workers.getD config.workers, programDir := g.programDir }
    report := g.report
    dot := g.dot
    verbose := g.verbose }

end Given

/-- The commands that work on a class. -/
inductive Task where
  /-- List the actions. -/
  | actions
  /-- Construct the automaton. -/
  | construct
deriving DecidableEq

namespace Task

/-- The option of a name that takes a value. -/
def parameter? (t : Task) (name : String) : Option Parameter :=
  if t = .construct then Parameter.all.find? fun p => p.name = name else none

/-- The request once all arguments are read. -/
def request (t : Task) (g : Given) : Except UsageFault Request :=
  match g.file, t with
  | none, _ => .error .missingFile
  | some file, .actions => .ok (.actions file)
  | some file, .construct => .ok (.construct (g.toConstruct file))

/-- Take up plain words only. -/
def readWords (t : Task) (g : Given) : List String → Except UsageFault Request
  | [] => t.request g
  | word :: rest => do t.readWords (← g.addWord word) rest

/-- Take up option letters, or stop where help is asked for. -/
def addLetters (t : Task) (g : Given) : List Char → Except UsageFault (Option Given)
  | [] => .ok (some g)
  | 'h' :: _ => .ok none
  | c :: rest =>
    if t = .construct ∧ c = 'v' then do t.addLetters (← g.setVerbose) rest
    else .error (.unknownOption ("-" ++ String.ofList [c]))

/-- A word after an option that waits for its value: a plain word is the value. -/
def value? (word : String) : Option String :=
  match Word.ofText word with
  | .plain text => some text
  | _ => none

/-- Read the arguments of a command; `pending` is an option that waits for its value. -/
def read (t : Task) (g : Given) (pending : Option Parameter) : List String → Except UsageFault Request
  | [] =>
    match pending with
    | some p => .error (.missingValue p.text)
    | none => t.request g
  | word :: rest =>
    match pending with
    | some p =>
      match value? word with
      | some value => do t.read (← g.set value p) none rest
      | none => .error (.missingValue p.text)
    | none =>
      match Word.ofText word with
      | .endOfOptions => t.readWords g rest
      | .plain text => do t.read (← g.addWord text) none rest
      | .short letters => do
        match ← t.addLetters g letters with
        | some g' => t.read g' none rest
        | none => return .help
      | .long "help" none => .ok .help
      | .long "verbose" none =>
        if t = .construct then do t.read (← g.setVerbose) none rest
        else .error (.unknownOption word)
      | .long name value =>
        match t.parameter? name, value with
        | some p, some value => do t.read (← g.set value p) none rest
        | some p, none => t.read g (some p) rest
        | none, _ =>
          if name = "help" ∨ t = .construct ∧ name = "verbose" then
            .error (.unwantedValue ("--" ++ name))
          else .error (.unknownOption word)

end Task

/-- The words after the help command: at most one, which names a command. -/
def readHelp : List String → Except UsageFault Request
  | [] => .ok .help
  | word :: rest =>
    match rest with
    | next :: _ => .error (.unknownCommand next)
    | [] =>
      if word ∈ ["actions", "construct", "help"] then .ok .help else .error (.unknownCommand word)

/-- Read the arguments of the program. -/
def Request.ofArguments : List String → Except UsageFault Request
  | [] => .error .missingCommand
  | word :: rest =>
    match Word.ofText word with
    | .plain "actions" => Task.actions.read {} none rest
    | .plain "construct" => Task.construct.read {} none rest
    | .plain "help" => readHelp rest
    | .plain text => .error (.unknownCommand text)
    | .long "help" none => .ok .help
    | .long "version" none => .ok .version
    | .short ('h' :: _) => .ok .help
    | .short ('V' :: _) => .ok .version
    | .endOfOptions => .error .missingCommand
    | _ => .error (.unknownOption word)

end Enabledness.CommandLine
