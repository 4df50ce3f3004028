import Enabledness.ActionSet
import Enabledness.Verifier

/-!
# Faults of a construction

Why a construction ends without an automaton.
-/

namespace Enabledness

/-- The books of a construction do not add up. -/
inductive IntegrityFault where
  /-- There are outcomes of a state that was never visited. -/
  | unvisitedState (state : State)
  /-- The output of the verifier means nothing known. -/
  | unclassifiedResult (procedure output : String)
  /-- A query was refused. -/
  | invalidQuery (fault : QueryFault)
  /-- A necessity answer came that nobody waits for. -/
  | untrackedNecessity (state : State) (action : Action)
deriving DecidableEq

/-- The fault as text. -/
def IntegrityFault.message : IntegrityFault → String
  | unvisitedState state =>
    "info logged for source state " ++ state.text ++ " that was never enqueued"
  | unclassifiedResult procedure output =>
    "unclassifiable verifier result for procedure '" ++ procedure ++ "': " ++ output
  | invalidQuery fault => "malformed query: " ++ fault.message
  | untrackedNecessity state action =>
    "necessity answer for untracked pair (" ++ state.text ++ ", " ++ action.text ++ ")"

/-- Why a construction failed. -/
inductive ConstructionFault where
  /-- The class breaks the rules. -/
  | invalidClass (fault : ClassFault)
  /-- The books do not add up. -/
  | integrity (fault : IntegrityFault)
  /-- The verifier gave no verdict. -/
  | verifier (fault : VerifierFault)
  /-- There are too many candidate targets. -/
  | candidates (fault : TooManyElements)
  /-- A program file could not be written. -/
  | inputOutput (reason : String)
  /-- A worker died. -/
  | workerDied (worker : Nat)
  /-- The construction was stopped from outside. -/
  | cancelled
deriving DecidableEq

namespace ConstructionFault

/-- The fault as text. -/
def message : ConstructionFault → String
  | invalidClass fault => "invalid class: " ++ fault.message
  | integrity fault => "integrity violation: " ++ fault.message
  | verifier fault => "verifier invocation failed: " ++ fault.message
  | candidates fault => "candidate enumeration failed: " ++ fault.message
  | inputOutput reason => "I/O error: " ++ reason
  | workerDied worker => "worker " ++ Nat.repr worker ++ " panicked"
  | cancelled => "construction cancelled"

/-- A fault of the verifier as a fault of the construction; unknown output is an integrity fault. -/
def ofVerifier : VerifierFault → ConstructionFault
  | .unclassified procedure output => integrity (.unclassifiedResult procedure output)
  | fault => verifier fault

end ConstructionFault

end Enabledness
