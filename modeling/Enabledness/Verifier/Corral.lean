import Enabledness.Query.Name
import Enabledness.Text.Character
import Enabledness.Text.Search
import Enabledness.Text.Utf8
import Enabledness.Verifier

/-!
# Corral

The Corral verifier as a command: how it is called and how its output is read.
-/

namespace Enabledness

/-- The settings of the Corral verifier. -/
structure CorralConfig where
  /-- The program to start. -/
  binary : String := "corral"
  /-- How deep calls are followed. -/
  recursionBound : Nat := 3
  /-- How long one query may take. -/
  timeout : Duration := .ofSecs 600
  /-- Further arguments. -/
  extraArgs : List String := []

/-- What became of a started command. -/
inductive CommandResult where
  /-- It could not be started. -/
  | notStarted (reason : String)
  /-- It was stopped for taking too long. -/
  | timedOut
  /-- It ended, having written to its two outputs. -/
  | finished (stdout stderr : List UInt8)

/-- The verdict that an output stands for.  Throw safety goes before a bug, a bug before giving up,
and giving up before the absence of bugs. -/
def classifyOutput (output : String) : Option Verdict :=
  if Text.contains output "may not throw" then some .throwSafe
  else if Text.contains output "True bug" then
    if Text.contains output "exceptional_path" then some .exceptionalCounterexample
    else some .counterexample
  else if Text.contains output "Reached recursion bound" || Text.contains output "timed out" then
    some .inconclusive
  else if Text.contains output "Program has no bugs" then some .noCounterexample
  else none

namespace CorralConfig

/-- The arguments that ask about one procedure of a program file. -/
def arguments (c : CorralConfig) (path procedure : String) : List String :=
  [path, "/main:" ++ procedure, "/recursionBound:" ++ Nat.repr c.recursionBound] ++ c.extraArgs

/-- The command line that asks about one procedure of a program file. -/
def command (c : CorralConfig) (path procedure : String) : String :=
  c.binary ++ " " ++ " ".intercalate (c.arguments path procedure)

/-- Read the result of the command for a query. -/
def interpret (c : CorralConfig) (path : String) (q : Query) :
    CommandResult → Except VerifierFault VerifierRun
  | .notStarted reason => .error (.notStarted c.binary reason)
  | .timedOut => .error (.timedOut q.name c.timeout)
  | .finished stdout stderr =>
    let output := Text.Utf8.decodeLossy stdout
    match classifyOutput output with
    | some verdict => .ok ⟨verdict, c.command path q.name⟩
    | none =>
      let all := Text.trim output ++ "\n" ++ Text.trim (Text.Utf8.decodeLossy stderr)
      .error (.unclassified q.name (Text.trim all))

/-- The verifier that starts a command for each query. -/
def verifier (c : CorralConfig) (path : String)
    (launch : (binary : String) → (arguments : List String) → CommandResult) : Verifier :=
  fun _ _ q => .ofRun (c.interpret path q (launch c.binary (c.arguments path q.name)))

end CorralConfig

end Enabledness
