import Enabledness.Construction.Fault
import Enabledness.Query.Name
import Enabledness.ResultLog
import Enabledness.WorkQueue

/-!
# Exploration

The state of a construction between two questions, and what an answer does to it.

Exploring a state asks, for each of its actions, the invariant queries and, for every other action of
the class, both necessity queries.  Once all necessity answers of a main action are in, the actions
that are proven enabled only are fixed in, those proven disabled only are fixed out, and both
transition queries are asked for every target that agrees with this.  A transition to a state not
seen before has it explored.
-/

namespace Enabledness

/-- The necessity answers gathered for one main action in one state. -/
structure Facts where
  /-- How many answers are still due. -/
  remaining : Nat := 0
  /-- Whether tested actions are always enabled afterwards. -/
  enabled : Table Action Answer := .empty
  /-- Whether tested actions are always disabled afterwards. -/
  disabled : Table Action Answer := .empty

namespace Facts

/-- Note an answer. -/
def insert (f : Facts) (tested : Action) (answer : Answer) : Polarity → Facts
  | .enabled => { f with enabled := f.enabled.insert tested answer }
  | .disabled => { f with disabled := f.disabled.insert tested answer }

/-- Whether an action is proven enabled (`true`) or proven disabled (`false`) after the main action.
Contradicting proofs count for nothing. -/
def fixed? (f : Facts) (a : Action) : Option Bool :=
  match f.enabled.get? a == some .yes, f.disabled.get? a == some .yes with
  | true, false => some true
  | false, true => some false
  | _, _ => none

end Facts

/-- What stays the same during an exploration. -/
structure Setting where
  /-- The actions of the class. -/
  set : ActionSet
  /-- The largest number of actions that are branched over. -/
  bound : Nat := maxSubsetBase

/-- Pairs of a state and a main action are ordered by state first. -/
instance : Ord (State × Action) := lexOrd

instance : Std.TransOrd (State × Action) := inferInstance

instance : Std.LawfulEqOrd (State × Action) := inferInstance

/-- The state of an exploration. -/
structure Exploration where
  /-- The automaton so far. -/
  automaton : Automaton
  /-- The outcomes so far. -/
  log : ResultLog := {}
  /-- The queries to ask. -/
  queue : WorkQueue Query := {}
  /-- The pairs of a state and a main action that wait for necessity answers. -/
  pending : Table (State × Action) Facts := .empty
  /-- How many necessity answers were taken from the global table. -/
  cachedAnswers : Nat := 0

/-- A query of the exploration; a refused one is an integrity fault. -/
def askAbout (source : State) (main : Action) (kind : QueryKind) :
    Except ConstructionFault Query :=
  match Query.make source main kind with
  | .ok q => .ok q
  | .error fault => .error (.integrity (.invalidQuery fault))

namespace Exploration

/-- The exploration that knows its initial state only, and has it visited. -/
def start (initial : State) : Exploration :=
  { automaton := .start initial, log := ({} : ResultLog).register initial }

/-- Add queries at the end of the queue. -/
def enqueue (e : Exploration) (queries : List Query) : Exploration :=
  { e with queue := e.queue.pushAll queries }

/-! ## Candidate targets -/

/-- The actions that are branched over: the main action and those that nothing is proven about. -/
def freeActions (s : Setting) (main : Action) (facts : Facts) : SortedSet Action :=
  s.set.actions.filter fun a => a = main || facts.fixed? a == none

/-- The actions that every target enables. -/
def fixedActions (s : Setting) (main : Action) (facts : Facts) : SortedSet Action :=
  s.set.actions.filter fun a => a ≠ main && facts.fixed? a == some true

/-- The targets that agree with the necessity answers, if there are not too many. -/
def candidates (s : Setting) (main : Action) (facts : Facts) :
    Except TooManyElements (List State) := do
  let choices ← (freeActions s main facts).boundedSubsets s.bound
  return choices.map (fixedActions s main facts).union

/-- Both transition queries to a target. -/
def transitionQueries (source : State) (main : Action) (target : State) :
    Except ConstructionFault (List Query) :=
  [Completion.normal, .exceptional].mapM fun completion =>
    askAbout source main (.transition completion target)

/-- Ask both transition queries for every candidate target. -/
def schedule (s : Setting) (e : Exploration) (source : State) (main : Action) (facts : Facts) :
    Except ConstructionFault Exploration :=
  match candidates s main facts with
  | .error fault => .error (.candidates fault)
  | .ok targets => do
    let queries ← targets.mapM (transitionQueries source main)
    return e.enqueue queries.flatten

/-! ## Exploring a state -/

/-- The scope of the necessity queries of a state: global if only one action is enabled. -/
def scopeOf (state : State) : Scope := if state.size = 1 then .global else .atSource

/-- The necessity questions about a main action: both polarities for every other action. -/
def necessityKinds (s : Setting) (main : Action) : List (Action × Polarity) :=
  (s.set.actions.toList.filter fun t => t ≠ main).flatMap fun t => [(t, .enabled), (t, .disabled)]

/-- Go through necessity questions: what the global table answers becomes a fact, the rest is to be
asked. -/
def gather (state : State) (main : Action) : List (Action × Polarity) →
    Exploration → Facts → List Query →
    Except ConstructionFault (Exploration × Facts × List Query)
  | [], e, facts, toAsk => .ok (e, facts, toAsk)
  | (tested, polarity) :: rest, e, facts, toAsk => do
    let q ← askAbout state main (.necessity polarity (scopeOf state) tested)
    match e.log.reuseGlobal q with
    | (some answer, log) =>
      gather state main rest { e with log := log, cachedAnswers := e.cachedAnswers + 1 }
        (facts.insert tested answer polarity) toAsk
    | (none, _) => gather state main rest e facts (toAsk ++ [q])

/-- Both invariant queries about a main action. -/
def invariantQueries (state : State) (main : Action) : Except ConstructionFault (List Query) :=
  [Completion.normal, .exceptional].mapM fun completion =>
    askAbout state main (.invariant completion)

/-- Ask the invariant and necessity queries about one main action.  If the global table knows all
necessity answers, the transition queries follow at once. -/
def explorePair (s : Setting) (state : State) (e : Exploration) (main : Action) :
    Except ConstructionFault Exploration := do
  let invariants ← invariantQueries state main
  let (e, facts, toAsk) ← gather state main (necessityKinds s main) (e.enqueue invariants) {} []
  if toAsk.isEmpty then e.schedule s state main facts
  else
    let pending := e.pending.insert (state, main) { facts with remaining := toAsk.length }
    return { e with pending := pending }.enqueue toAsk

/-- Ask about every action that a state enables. -/
def explore (s : Setting) (e : Exploration) (state : State) : Except ConstructionFault Exploration :=
  state.toList.foldlM (explorePair s state) e

/-! ## Reacting to an answer -/

/-- Add a transition; a target that was not known is explored. -/
def discover (s : Setting) (e : Exploration) (t : Transition) : Except ConstructionFault Exploration :=
  let grown := { e with automaton := e.automaton.addTransition t }
  if e.automaton.isDiscovery t then
    { grown with log := grown.log.recordEnqueued t }.explore s t.target
  else .ok grown

/-- Note a necessity answer; the last one of its pair starts the transition queries. -/
def resolve (s : Setting) (e : Exploration) (source : State) (main tested : Action)
    (polarity : Polarity) (answer : Answer) : Except ConstructionFault Exploration :=
  match e.pending.get? (source, main) with
  | none => .error (.integrity (.untrackedNecessity source main))
  | some facts =>
    let facts := { facts.insert tested answer polarity with remaining := facts.remaining - 1 }
    let pending := e.pending.insert (source, main) facts
    if facts.remaining = 0 then
      { e with pending := pending.erase (source, main) }.schedule s source main facts
    else .ok { e with pending := pending }

/-- The existence of a transition that an answer speaks for. -/
def existence? : Answer → Option Existence
  | .yes => some .confirmed
  | .maybe => some .possible
  | .no => none

/-- React to the answer to a query. -/
def onAnswer (s : Setting) (e : Exploration) (q : Query) (answer : Answer) :
    Except ConstructionFault Exploration :=
  match q.kind with
  | .invariant _ => .ok e
  | .transition _ target =>
    match existence? answer with
    | some existence => e.discover s ⟨q.source, target, q.main, existence⟩
    | none => .ok e
  | .necessity polarity _ tested => e.resolve s q.source q.main tested polarity answer

/-- Record the run of a query that was taken from the queue, react to its answer and report the
query done. -/
def settle (s : Setting) (e : Exploration) (q : Query) (run : VerifierRun) :
    Except ConstructionFault Exploration := do
  let e ← { e with log := e.log.record q run }.onAnswer s q (q.answer run.verdict)
  return { e with queue := e.queue.taskDone }

end Exploration

end Enabledness
