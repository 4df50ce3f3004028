import Enabledness.Automaton
import Enabledness.Collection.Table
import Enabledness.Verifier

/-!
# Result logs

Every outcome of a query, where it can be found again.  Global necessity answers have a table of
their own, by main action; all other outcomes stand under their source state and main action.  The
last outcome of a question wins, and all tables keep the order of first insertion.
-/

namespace Enabledness

/-- An answered query. -/
structure Outcome where
  /-- The answer. -/
  answer : Answer
  /-- The run it comes from. -/
  run : VerifierRun
deriving DecidableEq

/-- All that is known about one main action, in one state or globally. -/
structure PairLog where
  /-- Whether tested actions are always enabled afterwards. -/
  enabled : Table Action Outcome := .empty
  /-- Whether tested actions are always disabled afterwards. -/
  disabled : Table Action Outcome := .empty
  /-- Which states are reached by a normal return. -/
  normal : Table State Outcome := .empty
  /-- Which states are reached by an exception. -/
  exceptional : Table State Outcome := .empty
  /-- The states that were discovered here. -/
  enqueued : Roster State := .empty
  /-- Whether a normal return can break the invariant. -/
  normalInvariant : Option Outcome := none
  /-- Whether an exception can break the invariant. -/
  exceptionalInvariant : Option Outcome := none

namespace PairLog

/-- The necessity outcomes of a polarity. -/
def necessities (l : PairLog) : Polarity → Table Action Outcome
  | .enabled => l.enabled
  | .disabled => l.disabled

/-- The transition outcomes of a completion. -/
def transitions (l : PairLog) : Completion → Table State Outcome
  | .normal => l.normal
  | .exceptional => l.exceptional

/-- The invariant outcome of a completion. -/
def invariant? (l : PairLog) : Completion → Option Outcome
  | .normal => l.normalInvariant
  | .exceptional => l.exceptionalInvariant

/-- Store a necessity outcome. -/
def setNecessity (l : PairLog) (tested : Action) (o : Outcome) : Polarity → PairLog
  | .enabled => { l with enabled := l.enabled.insert tested o }
  | .disabled => { l with disabled := l.disabled.insert tested o }

/-- Store a transition outcome. -/
def setTransition (l : PairLog) (target : State) (o : Outcome) : Completion → PairLog
  | .normal => { l with normal := l.normal.insert target o }
  | .exceptional => { l with exceptional := l.exceptional.insert target o }

/-- Store an invariant outcome. -/
def setInvariant (l : PairLog) (o : Outcome) : Completion → PairLog
  | .normal => { l with normalInvariant := some o }
  | .exceptional => { l with exceptionalInvariant := some o }

/-- Store the outcome of a question. -/
def store (l : PairLog) (kind : QueryKind) (o : Outcome) : PairLog :=
  match kind with
  | .invariant completion => l.setInvariant o completion
  | .transition completion target => l.setTransition target o completion
  | .necessity polarity _ tested => l.setNecessity tested o polarity

/-- The tested actions of both polarities, each once. -/
def testedActions (l : PairLog) : List Action :=
  (Roster.ofList (l.enabled.keys ++ l.disabled.keys)).toList

/-- The targets of both completions, each once. -/
def targets (l : PairLog) : List State :=
  (Roster.ofList (l.normal.keys ++ l.exceptional.keys)).toList

end PairLog

/-- Both necessities of an action are answered YES, which cannot be. -/
def areInconsistent (enabled disabled : Option Answer) : Bool :=
  enabled = some .yes && disabled = some .yes

/-- The answers about a tested action contradict each other. -/
def PairLog.isInconsistent (l : PairLog) (tested : Action) : Bool :=
  areInconsistent ((l.enabled.get? tested).map Outcome.answer)
    ((l.disabled.get? tested).map Outcome.answer)

/-- Contradicting necessity answers about one tested action. -/
structure Inconsistency where
  /-- The state they belong to; none for the global table. -/
  state : Option State
  /-- The main action. -/
  main : Action
  /-- The tested action. -/
  tested : Action
deriving DecidableEq

/-- All outcomes of a construction. -/
structure ResultLog where
  /-- The states that were visited, in order. -/
  visited : Roster State := .empty
  /-- The outcomes by source state and main action. -/
  perState : Table State (Table Action PairLog) := .empty
  /-- The global necessity outcomes by main action. -/
  global : Table Action PairLog := .empty

namespace ResultLog

/-- Visiting the state visits it for the first time. -/
def isNew (l : ResultLog) (s : State) : Bool := s ∉ l.visited

/-- Add a state to the visited ones. -/
def register (l : ResultLog) (s : State) : ResultLog := { l with visited := l.visited.insert s }

/-- What is known about a main action in a state. -/
def pair? (l : ResultLog) (s : State) (main : Action) : Option PairLog := do
  (← l.perState.get? s).get? main

/-- Change what is known about a main action in a state. -/
def alterPair (l : ResultLog) (s : State) (main : Action) (f : PairLog → PairLog) : ResultLog :=
  { l with perState := l.perState.alter s .empty fun pairs => pairs.alter main {} f }

/-- Store the outcome of a query. -/
def store (l : ResultLog) (q : Query) (o : Outcome) : ResultLog :=
  if q.isGlobal then { l with global := l.global.alter q.main {} (·.store q.kind o) }
  else l.alterPair q.source q.main (·.store q.kind o)

/-- Store the outcome that a run gives to a query. -/
def record (l : ResultLog) (q : Query) (run : VerifierRun) : ResultLog :=
  l.store q ⟨q.answer run.verdict, run⟩

/-- Note that a transition discovered its target, which becomes visited. -/
def recordEnqueued (l : ResultLog) (t : Transition) : ResultLog :=
  let l := l.register t.target
  let l := l.alterPair t.source t.action fun p => { p with enqueued := p.enqueued.insert t.target }
  { l with perState := l.perState.alter t.target .empty id }

/-- The recorded global outcome of a necessity. -/
def globalOutcome? (l : ResultLog) (main tested : Action) (polarity : Polarity) : Option Outcome := do
  ((← l.global.get? main).necessities polarity).get? tested

/-- The recorded global answer to a necessity. -/
def globalAnswer? (l : ResultLog) (main tested : Action) (polarity : Polarity) : Option Answer :=
  (l.globalOutcome? main tested polarity).map Outcome.answer

/-- Answer a necessity query from the global table.  A global query takes any answer that is there.
A query about one state takes a YES only, since what always holds also holds in that state, and the
outcome is then copied to the state. -/
def reuseGlobal (l : ResultLog) (q : Query) : Option Answer × ResultLog :=
  match q.kind with
  | .necessity polarity scope tested =>
    match l.globalOutcome? q.main tested polarity, scope with
    | none, _ => (none, l)
    | some o, .global => (some o.answer, l)
    | some o, .atSource =>
      if o.answer = .yes then (some .yes, l.store q o) else (none, l)
  | _ => (none, l)

/-- The inconsistencies among the outcomes of a main action. -/
def pairInconsistencies (state : Option State) (main : Action) (p : PairLog) : List Inconsistency :=
  (p.testedActions.filter p.isInconsistent).map fun tested => ⟨state, main, tested⟩

/-- All inconsistencies, those of the global table first. -/
def inconsistencies (l : ResultLog) : List Inconsistency :=
  (l.global.entries.flatMap fun e => pairInconsistencies none e.1 e.2) ++
    l.perState.entries.flatMap fun s =>
      s.2.entries.flatMap fun e => pairInconsistencies (some s.1) e.1 e.2

/-- The first state with outcomes that was never visited. -/
def unvisited? (l : ResultLog) : Option State := l.perState.keys.find? fun s => s ∉ l.visited

end ResultLog

end Enabledness
