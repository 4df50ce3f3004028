import Enabledness.Query

/-!
# Answers

A verifier looks for a run that violates the assertion of a query's procedure and gives a verdict.
What the verdict means depends on the query: a violation is a YES to an invariant or transition
query and a NO to a necessity query.
-/

namespace Enabledness

/-- The verdict of the verifier on a procedure. -/
inductive Verdict where
  /-- A run violates the assertion. -/
  | counterexample
  /-- No run violates the assertion. -/
  | noCounterexample
  /-- The verifier gave up. -/
  | inconclusive
  /-- A run violates the assertion after an exception. -/
  | exceptionalCounterexample
  /-- The main action cannot throw. -/
  | throwSafe
deriving DecidableEq

/-- The verdict as text. -/
def Verdict.text : Verdict → String
  | counterexample => "COUNTEREXAMPLE_FOUND"
  | noCounterexample => "NO_COUNTEREXAMPLE"
  | inconclusive => "INCONCLUSIVE"
  | exceptionalCounterexample => "EXCEPTIONAL_COUNTEREXAMPLE"
  | throwSafe => "THROW_SAFETY_CONFIRMED"

/-- All verdicts. -/
def Verdict.all : List Verdict :=
  [counterexample, noCounterexample, inconclusive, exceptionalCounterexample, throwSafe]

/-- The verdict with a given text. -/
def Verdict.ofText? (text : String) : Option Verdict := all.find? fun v => v.text = text

/-- The answer to a query. -/
inductive Answer where
  /-- It is so. -/
  | yes
  /-- It is not so. -/
  | no
  /-- It is not known. -/
  | maybe
deriving DecidableEq

/-- The answer as text. -/
def Answer.text : Answer → String
  | yes => "YES"
  | no => "NO"
  | maybe => "MAYBE"

/-- The answer with a given text. -/
def Answer.ofText? (text : String) : Option Answer :=
  [yes, no, maybe].find? fun a => a.text = text

/-- The answer to a question whether some run does a thing, asked under a completion. -/
def Verdict.toReachability (completion : Completion) : Verdict → Answer
  | counterexample => .yes
  | noCounterexample => .no
  | inconclusive => .maybe
  | exceptionalCounterexample => if completion = .exceptional then .yes else .maybe
  | throwSafe => .no

/-- The answer to a question whether all runs do a thing. -/
def Verdict.toNecessity : Verdict → Answer
  | counterexample => .no
  | noCounterexample => .yes
  | inconclusive => .maybe
  | exceptionalCounterexample => .maybe
  | throwSafe => .maybe

/-- What a verdict says about a question. -/
def QueryKind.answer : QueryKind → Verdict → Answer
  | invariant completion, v => v.toReachability completion
  | transition completion _, v => v.toReachability completion
  | necessity .., v => v.toNecessity

/-- What a verdict says about a query. -/
def Query.answer (q : Query) (v : Verdict) : Answer := q.kind.answer v

end Enabledness
