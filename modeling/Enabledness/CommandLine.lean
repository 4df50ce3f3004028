import Enabledness.Automaton.Dot
import Enabledness.CommandLine.Request
import Enabledness.CommandLine.Summary
import Enabledness.Description

/-!
# The command line

What the program does with its arguments: it lists the actions of a class or constructs its
automaton.  All contact with the outside goes through a `Platform`, so that a run is a definition of
its own for every monad.
-/

namespace Enabledness.CommandLine

/-- What the commands need from the outside. -/
structure Platform (m : Type → Type) where
  /-- The bytes of a file, or the reason why it cannot be read. -/
  fetch : String → m (Except String (List UInt8))
  /-- Write a text to a file, or say why that is not possible. -/
  store : String → String → m (Except String Unit)
  /-- Why no program file can be created in a directory, if so. -/
  programFault : Option String → m (Option String)
  /-- The path of the program file. -/
  programPath : String
  /-- Start a command and wait for it. -/
  launch : CorralConfig → (arguments : List String) → CommandResult
  /-- The time since the start, as text. -/
  elapsed : m String
  /-- Print a text. -/
  print : String → m Unit

/-- Why a command failed. -/
inductive CommandFault where
  /-- The class file is not usable. -/
  | classFile (fault : ClassFileFault)
  /-- The class breaks the rules. -/
  | invalidClass (fault : ClassFault)
  /-- The construction failed. -/
  | construction (fault : ConstructionFault)
  /-- A file could not be written. -/
  | notWritten (path reason : String)
deriving DecidableEq

namespace CommandFault

/-- The fault as text. -/
def message : CommandFault → String
  | classFile fault => fault.message
  | invalidClass fault => "invalid class: " ++ fault.message
  | construction fault => "construction failed: " ++ fault.message
  | notWritten path reason => "failed to write " ++ path ++ ": " ++ reason

/-- The code of the fault; a file that could not be written has none. -/
def code? : CommandFault → Option String
  | classFile _ => some "epa::class_file"
  | invalidClass _ => some "epa::config"
  | construction _ => some "epa::construction"
  | notWritten .. => none

/-- Advice for the user, if there is any. -/
def advice? : CommandFault → Option String
  | invalidClass _ =>
    some ("each action `m` needs a boolean `m_pre` with the same parameters, and the class exactly " ++
      "one `inv()`")
  | _ => none

end CommandFault

/-- How a run of the program ended. -/
inductive Ending where
  /-- All went well. -/
  | done
  /-- A command failed. -/
  | failed (fault : CommandFault)
  /-- The arguments made no sense. -/
  | misused (fault : UsageFault)

namespace Ending

/-- The exit code of the program. -/
def exitCode : Ending → UInt32
  | done => 0
  | failed _ => 1
  | misused _ => 2

/-- What the user is told about a bad ending. -/
def complaint : Ending → String
  | done => ""
  | failed fault =>
    unlines
      (fault.code?.toList ++ ["  × " ++ fault.message] ++
        fault.advice?.toList.map ("  help: " ++ ·))
  | misused fault =>
    unlines ["error: " ++ fault.message, "", "For more information, try '--help'."]

end Ending

/-- The version of the program. -/
def versionText : String := unlines ["epa 0.1.0"]

/-- How the program is used. -/
def helpText : String :=
  unlines
    ["Enabledness protocol automata construction", "", "Usage: epa <COMMAND>", "", "Commands:",
      "  actions    Validate a class description and list its actions",
      "  construct  Construct the EPA of a class", "  help       Print this message", "",
      "Options of construct:", "      --corral <CORRAL>      Path to the Corral binary",
      "      --workers <WORKERS>    Number of verification workers (0 = use all available)",
      "      --recursion-bound <N>  Corral recursion bound",
      "      --timeout <TIMEOUT>    Per-query verifier timeout in seconds",
      "      --corral-arg <ARG>     Additional argument passed to Corral (repeatable)",
      "      --program-dir <DIR>    Directory for the workers' verification programs",
      "      --report <FILE>        Write the per-query report to this file",
      "      --dot <FILE>           Write the automaton in Graphviz DOT format to this file",
      "  -v, --verbose              Show verbose output", "", "Options:",
      "  -h, --help     Print help", "  -V, --version  Print version"]

/-- The text that lists the actions of a class file. -/
def describeActions (d : ClassDescription) : Except CommandFault String := do
  let set ← d.table.actionSet.mapError .invalidClass
  let _ ← d.code.mapError .classFile
  let initial ← (d.initial set).mapError .classFile
  return actionList d.name set initial

/-- The construction for a class file. -/
def constructFrom (d : ClassDescription) (r : ConstructRequest) (programPath : String)
    (launch : CorralConfig → List String → CommandResult) (programFault : Option String) :
    Except CommandFault Construction := do
  let code ← d.code.mapError .classFile
  let set ← d.table.actionSet.mapError fun f => .construction (.invalidClass f)
  let initial ← (d.initial set).mapError .classFile
  let setup : Setup :=
    { set := set
      bound := r.config.bound
      code := code
      base := code.baseText d.table
      verifier := r.corral.verifier programPath fun _ arguments => launch r.corral arguments
      programFault := programFault }
  (setup.construct initial).mapError fun f => .construction f.fault

/-- The number of workers that a construction is said to have; at least one works. -/
def workerCount (config : ConstructionConfig) : Nat := max 1 config.workers

/-- The files that a request wants from a finished construction, in the order of writing. -/
def filesOf (r : ConstructRequest) (c : Construction) : Except CommandFault (List (String × String)) :=
  match r.report, c.log.report? with
  | some _, .error state => .error (.construction (.integrity (.unvisitedState state)))
  | report, text =>
    .ok ((report.toList.map fun path => (path, text.toOption.getD "")) ++
      r.dot.toList.map fun path => (path, c.automaton.dot))

variable {m : Type → Type} [Monad m]

/-- Write files one after the other until one cannot be written. -/
def writeFiles (p : Platform m) : List (String × String) → m Ending
  | [] => pure .done
  | (path, text) :: rest => do
    match ← p.store path text with
    | .ok _ => writeFiles p rest
    | .error reason => pure (.failed (.notWritten path reason))

/-- List the actions of a class file. -/
def runActions (p : Platform m) (file : String) : m Ending := do
  match (ClassDescription.load file (← p.fetch file)).mapError .classFile >>= describeActions with
  | .error fault => pure (.failed fault)
  | .ok text =>
    p.print text
    pure .done

/-- Construct the automaton of a class file. -/
def runConstruct (p : Platform m) (r : ConstructRequest) : m Ending := do
  let content ← p.fetch r.file
  let programFault ← p.programFault r.config.programDir
  let result := (ClassDescription.load r.file content).mapError .classFile >>= fun d =>
    constructFrom d r p.programPath p.launch programFault
  match result with
  | .error fault => pure (.failed fault)
  | .ok c =>
    p.print (summary c (workerCount r.config) (← p.elapsed))
    match filesOf r c with
    | .error fault => pure (.failed fault)
    | .ok files => writeFiles p files

/-- Run the program. -/
def run (p : Platform m) (arguments : List String) : m Ending := do
  match Request.ofArguments arguments with
  | .error fault => pure (.misused fault)
  | .ok .help =>
    p.print helpText
    pure .done
  | .ok .version =>
    p.print versionText
    pure .done
  | .ok (.actions file) => runActions p file
  | .ok (.construct r) => runConstruct p r

end Enabledness.CommandLine
