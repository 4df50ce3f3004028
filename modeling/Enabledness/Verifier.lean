import Enabledness.Program
import Enabledness.Query.Answer
import Enabledness.Text.Duration

/-!
# Verifiers

A verifier is asked about one query of a program.  It gives a verdict, or fails, or takes its worker
down with it.
-/

namespace Enabledness

/-- A verdict and the command line that produced it. -/
structure VerifierRun where
  /-- The verdict. -/
  verdict : Verdict
  /-- The command line, for the report. -/
  command : String
deriving DecidableEq

/-- Why a verifier gave no verdict. -/
inductive VerifierFault where
  /-- The program of the verifier could not be started. -/
  | notStarted (binary reason : String)
  /-- The verifier took too long. -/
  | timedOut (procedure : String) (limit : Duration)
  /-- Talking to the verifier failed. -/
  | inputOutput (reason : String)
  /-- The output of the verifier means nothing known. -/
  | unclassified (procedure output : String)
deriving DecidableEq

/-- The fault as text. -/
def VerifierFault.message : VerifierFault → String
  | notStarted binary reason => "failed to launch verifier '" ++ binary ++ "': " ++ reason
  | timedOut procedure limit =>
    "verifier timed out after " ++ limit.text ++ " on procedure '" ++ procedure ++ "'"
  | inputOutput reason => "verifier I/O error: " ++ reason
  | unclassified procedure output =>
    "could not classify verifier output for procedure '" ++ procedure ++ "': " ++ output

/-- What comes back when a verifier is asked. -/
inductive Reply where
  /-- It ran and gave a verdict. -/
  | ran (run : VerifierRun)
  /-- It gave no verdict. -/
  | failed (fault : VerifierFault)
  /-- The worker that asked died. -/
  | crashed
deriving DecidableEq

/-- The reply for a run or a fault. -/
def Reply.ofRun : Except VerifierFault VerifierRun → Reply
  | .ok run => ran run
  | .error fault => failed fault

/-- A verifier: its reply may depend on the number of questions asked before, on the program and on
the query. -/
abbrev Verifier := Nat → Program → Query → Reply

/-- The verifier that gives each query a fixed verdict. -/
def Verifier.ofVerdicts (verdict : Query → Verdict) (command : Query → String) : Verifier :=
  fun _ _ q => .ran ⟨verdict q, command q⟩

end Enabledness
