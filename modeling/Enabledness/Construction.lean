import Enabledness.Exploration.Rank
import Enabledness.Procedure
import Enabledness.ResultLog.Report

/-!
# Constructions

The construction of the automaton of a class: the queries of an exploration are put to a verifier one
after the other until none is left, the verifier fails or the construction is stopped.  Each query
is asked about a program that holds its procedure.  The run ends because every settled query lowers
the rank of the exploration (`Exploration.rank_settle_lt`).
-/

namespace Enabledness

/-- How a construction is run. -/
structure ConstructionConfig where
  /-- The number of workers; zero for as many as the machine has room for. -/
  workers : Nat := 0
  /-- How long an idle worker waits before it looks at the queue again. -/
  pollInterval : Duration := .ofMillis 50
  /-- The largest set whose subsets are tried as targets. -/
  bound : Nat := maxSubsetBase
  /-- The directory for program files; none for the usual place. -/
  programDir : Option String := none

/-- What a construction works with. -/
structure Setup extends Setting where
  /-- The code of the class. -/
  code : ClassCode
  /-- The base text of the program. -/
  base : String
  /-- The verifier. -/
  verifier : Verifier
  /-- After how many questions the construction is stopped from outside. -/
  stopAfter : Option Nat := none
  /-- Why the program file cannot be written, if so. -/
  programFault : Option String := none

/-- A construction between two questions. -/
structure Progress where
  /-- The exploration. -/
  exploration : Exploration
  /-- The program of the verifier. -/
  program : Program
  /-- The queries that the verifier was asked about, in order. -/
  asked : Array Query := #[]

/-- A fault and the queries asked before it showed. -/
structure Failure where
  /-- What went wrong. -/
  fault : ConstructionFault
  /-- The queries that the verifier was asked about, in order. -/
  asked : List Query

/-- A finished construction. -/
structure Construction where
  /-- The automaton of the class. -/
  automaton : Automaton
  /-- All outcomes. -/
  log : ResultLog
  /-- The program of the verifier. -/
  program : Program
  /-- The queries that the verifier was asked about, in order. -/
  asked : List Query
  /-- How many necessity answers were taken from the global table. -/
  cachedAnswers : Nat

/-- Which queued query is asked next, by its position. -/
abbrev Schedule := Progress → Nat

/-- The oldest query is asked first. -/
def Schedule.fifo : Schedule := fun _ => 0

namespace Setup

/-- The construction was stopped from outside after some questions. -/
def isStopped (s : Setup) (questions : Nat) : Bool :=
  match s.stopAfter with
  | some n => n ≤ questions
  | none => false

/-- Ask the verifier about a query that was taken from the queue, and react to the reply. -/
def ask (s : Setup) (p : Progress) (q : Query) : Except Failure Progress :=
  let ⟨exploration, program, asked⟩ := p
  let number := asked.size
  let asked := asked.push q
  let program := program.append q.name (q.procedureText s.set s.code)
  match s.verifier number program q with
  | .crashed => .error ⟨.workerDied 0, asked.toList⟩
  | .failed fault => .error ⟨.ofVerifier fault, asked.toList⟩
  | .ran run =>
    match exploration.settle s.toSetting q run with
    | .error fault => .error ⟨fault, asked.toList⟩
    | .ok e => .ok ⟨e, program, asked⟩

/-- Asking settles the query. -/
theorem settle_of_ask {s : Setup} {p p' : Progress} {q : Query} (h : s.ask p q = .ok p') :
    ∃ run, p.exploration.settle s.toSetting q run = .ok p'.exploration := by
  unfold ask at h
  simp only at h
  split at h
  · simp at h
  · simp at h
  · next run _ =>
    split at h
    · simp at h
    · next e he =>
      obtain rfl := Except.ok.inj h
      exact ⟨run, he⟩

/-- The position of the next query: the last one if the schedule points behind the queue. -/
def position (schedule : Schedule) (p : Progress) : Nat :=
  let items := p.exploration.queue.items
  if (items.drop (schedule p)).isEmpty then items.length - 1 else schedule p

/-- Ask about queued queries until none is left, something fails or the construction is stopped. -/
def drain (s : Setup) (schedule : Schedule) (p : Progress) : Except Failure Progress :=
  if s.isStopped p.asked.size then .ok p
  else
    match _ht : p.exploration.queue.takeAt (position schedule p) with
    | (.item q, queue) =>
      match _ha : s.ask { p with exploration := { p.exploration with queue := queue } } q with
      | .ok p' => s.drain schedule p'
      | .error failure => .error failure
    | _ => .ok p
termination_by p.exploration.rank s.toSetting
decreasing_by
  obtain ⟨run, h⟩ := settle_of_ask _ha
  exact Exploration.rank_settle_lt _ht h

/-- The construction at the moment when the first question can be asked. -/
def begin (s : Setup) (initial : State) : Except Failure Progress :=
  match (Exploration.start initial).explore s.toSetting initial with
  | .error fault => .error ⟨fault, []⟩
  | .ok e =>
    match s.programFault with
    | some reason => .error ⟨.inputOutput reason, []⟩
    | none => .ok { exploration := { e with queue := e.queue.closeIfIdle }, program := .ofBase s.base }

/-- Close the books: all queries must be done, and all states with outcomes visited. -/
def finish (p : Progress) : Except Failure Construction :=
  if p.exploration.queue.outstanding ≠ 0 then .error ⟨.cancelled, p.asked.toList⟩
  else
    match p.exploration.log.unvisited? with
    | some state => .error ⟨.integrity (.unvisitedState state), p.asked.toList⟩
    | none =>
      .ok ⟨p.exploration.automaton, p.exploration.log, p.program, p.asked.toList,
        p.exploration.cachedAnswers⟩

/-- Construct the automaton from an initial state, asking queries in the order of a schedule. -/
def constructBy (s : Setup) (schedule : Schedule) (initial : State) :
    Except Failure Construction := do
  finish (← s.drain schedule (← s.begin initial))

/-- Construct the automaton from an initial state, oldest queries first. -/
def construct (s : Setup) (initial : State) : Except Failure Construction :=
  s.constructBy .fifo initial

end Setup

end Enabledness
