import Enabledness.Proofs.Chores
import Enabledness.Proofs.Run

/-!
# Crews

A construction with several workers.  They take queries from one queue, each asks the verifier about a
program of its own, and all react to answers on one exploration.  Work is done in steps, each of which
is one operation on what is shared; between two steps of a worker the others may do anything.

* `Worker.Move` : what a worker can do next.
* `Crew.Step` : a move of a worker, of the lead, who explores the initial state, hires the workers and
  then waits for them one after the other, or of somebody outside who stops the construction.
* `Crew.Run` : any number of steps, with what was asked, pushed, settled and failed on the way.
* `Setup.exists_run_of_constructBy` : asking one query after the other is a run of a crew of one.
-/

namespace Enabledness

open Exploration

/-! ## Workers -/

/-- What the workers of a crew share. -/
structure Shared where
  /-- The exploration. -/
  exploration : Exploration
  /-- A worker failed, so that all are to end. -/
  aborted : Bool := false
  /-- The construction was stopped from outside, so that all workers are to end. -/
  stopped : Bool := false

/-- What a worker is about to do. -/
inductive Stage where
  /-- See whether it is to end. -/
  | ready
  /-- Take a query. -/
  | polling
  /-- Ask about the query it took. -/
  | holding (q : Query)
  /-- Record a verdict. -/
  | told (q : Query) (run : VerifierRun)
  /-- Perform chores, and report the query done. -/
  | reacting (q : Query) (chores : List Chore)
  /-- Report a query done that failed. -/
  | failed (q : Query) (fault : ConstructionFault)
  /-- Tell the others to end. -/
  | alarmed (fault : ConstructionFault)
  /-- Drop all queries that wait. -/
  | aborting (fault : ConstructionFault)
  /-- Nothing; it ended, maybe with a fault. -/
  | ended (fault? : Option ConstructionFault)
  /-- Nothing; the verifier took it down. -/
  | dead

/-- A worker with its program. -/
structure Worker where
  /-- The program that it asks the verifier about. -/
  program : Program
  /-- What it is about to do. -/
  stage : Stage := .ready

/-- What a worker does that others take note of. -/
inductive Act where
  /-- It asks the verifier about a query and a program. -/
  | asks (q : Query) (program : Program)
  /-- It puts a query into the queue. -/
  | pushes (q : Query)
  /-- It reports a query done. -/
  | settles (q : Query)
  /-- It reports that a query failed. -/
  | fails (q : Query) (fault : ConstructionFault)

/-- The queue takes a query unless it is closed. -/
def Chore.acts (e : Exploration) : Chore → List Act
  | push q => if e.queue.closed then [] else [.pushes q]
  | _ => []

/-- What a worker does after the reply of the verifier. -/
def Stage.ofReply (q : Query) : Reply → Stage
  | .ran run => told q run
  | .failed fault => failed q (.ofVerifier fault)
  | .crashed => dead

/-- The moves of a worker.  It may take any query that waits. -/
inductive Worker.Move (s : Setup) : Shared → Worker → List Act → Shared → Worker → Prop
  | leave {sh : Shared} {program : Program} : (sh.aborted || sh.stopped) = true →
      Move s sh ⟨program, .ready⟩ [] sh ⟨program, .ended none⟩
  | stay {sh : Shared} {program : Program} : (sh.aborted || sh.stopped) = false →
      Move s sh ⟨program, .ready⟩ [] sh ⟨program, .polling⟩
  | take {sh : Shared} {program : Program} {i : Nat} {q : Query} {queue : WorkQueue Query} :
      sh.exploration.queue.takeAt i = (.item q, queue) →
      Move s sh ⟨program, .polling⟩ []
        { sh with exploration := { sh.exploration with queue := queue } } ⟨program, .holding q⟩
  | wait {sh : Shared} {program : Program} {queue : WorkQueue Query} :
      sh.exploration.queue.poll = (.empty, queue) →
      Move s sh ⟨program, .polling⟩ [] sh ⟨program, .ready⟩
  | close {sh : Shared} {program : Program} {queue : WorkQueue Query} :
      sh.exploration.queue.poll = (.closed, queue) →
      Move s sh ⟨program, .polling⟩ [] sh ⟨program, .ended none⟩
  | ask {sh : Shared} {program program' : Program} {q : Query} (n : Nat) :
      program' = program.append q.name (q.procedureText s.set s.code) →
      Move s sh ⟨program, .holding q⟩ [.asks q program'] sh
        ⟨program', .ofReply q (s.verifier n program' q)⟩
  | record {sh : Shared} {program : Program} {q : Query} {run : VerifierRun} :
      Move s sh ⟨program, .told q run⟩ []
        { sh with exploration := { sh.exploration with log := sh.exploration.log.record q run } }
        ⟨program, .reacting q (reaction q (q.answer run.verdict))⟩
  | chore {sh : Shared} {program : Program} {q : Query} {e : Exploration} {chore : Chore}
      {more rest : List Chore} : perform s.toSetting sh.exploration chore = .ok (e, more) →
      Move s sh ⟨program, .reacting q (chore :: rest)⟩ (chore.acts sh.exploration)
        { sh with exploration := e } ⟨program, .reacting q (more ++ rest)⟩
  | fault {sh : Shared} {program : Program} {q : Query} {chore : Chore} {rest : List Chore}
      {fault : ConstructionFault} : perform s.toSetting sh.exploration chore = .error fault →
      Move s sh ⟨program, .reacting q (chore :: rest)⟩ [] sh ⟨program, .failed q fault⟩
  | settle {sh : Shared} {program : Program} {q : Query} :
      Move s sh ⟨program, .reacting q []⟩ [.settles q]
        { sh with exploration := { sh.exploration with queue := sh.exploration.queue.taskDone } }
        ⟨program, .ready⟩
  | fail {sh : Shared} {program : Program} {q : Query} {fault : ConstructionFault} :
      Move s sh ⟨program, .failed q fault⟩ [.fails q fault]
        { sh with exploration := { sh.exploration with queue := sh.exploration.queue.taskDone } }
        ⟨program, .alarmed fault⟩
  | alarm {sh : Shared} {program : Program} {fault : ConstructionFault} :
      Move s sh ⟨program, .alarmed fault⟩ [] { sh with aborted := true } ⟨program, .aborting fault⟩
  | abort {sh : Shared} {program : Program} {fault : ConstructionFault} :
      Move s sh ⟨program, .aborting fault⟩ []
        { sh with exploration := { sh.exploration with queue := sh.exploration.queue.abort } }
        ⟨program, .ended (some fault)⟩

/-! ## The crew -/

/-- What the lead of a crew is about to do. -/
inductive Lead where
  /-- Perform the chores of the initial state, and hire the workers. -/
  | exploring (chores : List Chore)
  /-- Nothing; exploring the initial state failed. -/
  | failed (fault : ConstructionFault)
  /-- Wait for the end of a worker, all before it having ended. -/
  | joining (n : Nat)
  /-- Drop all queries that wait, since this worker died. -/
  | aborting (n : Nat)

/-- The lead has hired the workers. -/
def Lead.hasHired : Lead → Bool
  | joining _ | aborting _ => true
  | exploring _ | failed _ => false

/-- Workers, what they share, and their lead. -/
structure Crew where
  /-- What the workers share. -/
  shared : Shared
  /-- The workers. -/
  workers : List Worker
  /-- The lead. -/
  lead : Lead

/-- An act of a worker, by its number, or of the lead. -/
abbrev Event := Option Nat × Act

namespace Crew

/-- The exploration of a crew. -/
def exploration (c : Crew) : Exploration := c.shared.exploration

/-- A crew of some workers that is to start from an initial state. -/
def start (s : Setup) (initial : State) (n : Nat) : Crew where
  shared := { exploration := .start initial }
  workers := List.replicate n { program := .ofBase s.base }
  lead := .exploring (opening initial)

/-- The steps of a crew. -/
inductive Step (s : Setup) : Crew → List Event → Crew → Prop
  | explore {sh : Shared} {workers : List Worker} {e : Exploration} {chore : Chore}
      {more rest : List Chore} : perform s.toSetting sh.exploration chore = .ok (e, more) →
      Step s ⟨sh, workers, .exploring (chore :: rest)⟩
        ((chore.acts sh.exploration).map (Prod.mk none))
        ⟨{ sh with exploration := e }, workers, .exploring (more ++ rest)⟩
  | fault {sh : Shared} {workers : List Worker} {chore : Chore} {rest : List Chore}
      {fault : ConstructionFault} : perform s.toSetting sh.exploration chore = .error fault →
      Step s ⟨sh, workers, .exploring (chore :: rest)⟩ [] ⟨sh, workers, .failed fault⟩
  | hire {sh : Shared} {workers : List Worker} :
      Step s ⟨sh, workers, .exploring []⟩ []
        ⟨{ sh with exploration := { sh.exploration with queue := sh.exploration.queue.closeIfIdle } },
          workers, .joining 0⟩
  | work {sh sh' : Shared} {before after : List Worker} {w w' : Worker} {lead : Lead}
      {acts : List Act} : lead.hasHired = true → Worker.Move s sh w acts sh' w' →
      Step s ⟨sh, before ++ w :: after, lead⟩ (acts.map (Prod.mk (some before.length)))
        ⟨sh', before ++ w' :: after, lead⟩
  | stop {sh : Shared} {workers : List Worker} {lead : Lead} :
      Step s ⟨sh, workers, lead⟩ [] ⟨{ sh with stopped := true }, workers, lead⟩
  | join {sh : Shared} {workers : List Worker} {n : Nat} {program : Program}
      {fault? : Option ConstructionFault} : workers[n]? = some ⟨program, .ended fault?⟩ →
      Step s ⟨sh, workers, .joining n⟩ [] ⟨sh, workers, .joining (n + 1)⟩
  | bury {sh : Shared} {workers : List Worker} {n : Nat} {program : Program} :
      workers[n]? = some ⟨program, .dead⟩ →
      Step s ⟨sh, workers, .joining n⟩ [] ⟨{ sh with aborted := true }, workers, .aborting n⟩
  | abort {sh : Shared} {workers : List Worker} {n : Nat} :
      Step s ⟨sh, workers, .aborting n⟩ []
        ⟨{ sh with exploration := { sh.exploration with queue := sh.exploration.queue.abort } },
          workers, .joining (n + 1)⟩

/-- Steps one after the other, with their events. -/
inductive Run (s : Setup) (c : Crew) : List Event → Crew → Prop
  | refl : Run s c [] c
  | snoc {events more : List Event} {c' c'' : Crew} :
      Run s c events c' → Step s c' more c'' → Run s c (events ++ more) c''

end Crew

/-- The fault that a worker ended with. -/
def Worker.fault? (w : Worker) (number : Nat) : Option ConstructionFault :=
  match w.stage with
  | .ended fault? => fault?
  | .dead => some (.workerDied number)
  | _ => none

namespace Crew

/-- The lead has nothing more to do: the initial state failed, or all workers have ended. -/
def IsFinished (c : Crew) : Prop :=
  (∃ fault, c.lead = .failed fault) ∨ c.lead = .joining c.workers.length

/-- The fault of the first worker that ended with one. -/
def firstFault? (c : Crew) : Option ConstructionFault :=
  c.workers.zipIdx.findSome? fun w => w.1.fault? w.2

/-- What a finished crew gives: the fault of the first worker that has one, or the exploration, if all
queries are done and all states with outcomes visited. -/
def result (c : Crew) : Except ConstructionFault Exploration :=
  match c.lead with
  | .failed fault => .error fault
  | _ =>
    match c.firstFault? with
    | some fault => .error fault
    | none =>
      if c.exploration.queue.outstanding ≠ 0 then .error .cancelled
      else
        match c.exploration.log.unvisited? with
        | some state => .error (.integrity (.unvisitedState state))
        | none => .ok c.exploration

end Crew

/-! ## What the events say -/

namespace Act

/-- The query that the verifier is asked about. -/
def asked? : Act → Option Query
  | asks q _ => some q
  | _ => none

/-- The query that is put into the queue. -/
def pushed? : Act → Option Query
  | pushes q => some q
  | _ => none

/-- The query that is reported done. -/
def settled? : Act → Option Query
  | settles q => some q
  | _ => none

/-- The fault of the query that is reported to have failed. -/
def failure? : Act → Option ConstructionFault
  | fails _ fault => some fault
  | _ => none

end Act

/-- The acts of one worker. -/
def history (i : Nat) (events : List Event) : List Act :=
  events.filterMap fun x => if x.1 = some i then some x.2 else none

/-- The queries that the verifier was asked about. -/
def askedIn (events : List Event) : List Query := events.filterMap fun x => x.2.asked?

/-- The queries that were put into the queue. -/
def pushedIn (events : List Event) : List Query := events.filterMap fun x => x.2.pushed?

/-- The queries that were reported done. -/
def settledIn (events : List Event) : List Query := events.filterMap fun x => x.2.settled?

/-- The faults of the queries that were reported to have failed. -/
def failuresIn (events : List Event) : List ConstructionFault := events.filterMap fun x => x.2.failure?

theorem mem_failuresIn {events : List Event} {fault : ConstructionFault} :
    fault ∈ failuresIn events ↔ ∃ x ∈ events, ∃ q, x.2 = .fails q fault := by
  rw [failuresIn, List.mem_filterMap]
  refine exists_congr fun x => and_congr_right fun _ => ?_
  cases x.2 <;> simp [Act.failure?]

theorem askedIn_append (events more : List Event) :
    askedIn (events ++ more) = askedIn events ++ askedIn more := List.filterMap_append

/-- A chore does nothing but push a query. -/
theorem Chore.eq_pushes_of_mem_acts {e : Exploration} {chore : Chore} {a : Act}
    (h : a ∈ chore.acts e) : ∃ q, chore = push q ∧ a = .pushes q := by
  cases chore with
  | push q =>
    by_cases hc : e.queue.closed = true
    · simp [acts, hc] at h
    · simp only [acts, if_neg hc, List.mem_singleton] at h
      exact ⟨q, rfl, h⟩
  | _ => exact absurd h List.not_mem_nil

theorem Chore.asked?_of_mem_acts {e : Exploration} {chore : Chore} :
    ∀ a ∈ chore.acts e, a.asked? = none := by
  intro a ha
  obtain ⟨q, -, rfl⟩ := eq_pushes_of_mem_acts ha
  rfl

theorem askedIn_eq_nil {acts : List Act} (h : ∀ a ∈ acts, a.asked? = none) (worker : Option Nat) :
    askedIn (acts.map (Prod.mk worker)) = [] := by
  rw [askedIn, List.filterMap_map, List.filterMap_eq_nil_iff]
  exact h

/-! ## What one worker does -/

theorem history_append (i : Nat) (events more : List Event) :
    history i (events ++ more) = history i events ++ history i more := List.filterMap_append

theorem history_map (i : Nat) (worker : Option Nat) (acts : List Act) :
    history i (acts.map (Prod.mk worker)) = if worker = some i then acts else [] := by
  rw [history, List.filterMap_map]
  by_cases h : worker = some i
  · rw [if_pos h]
    simp [h]
  · rw [if_neg h, List.filterMap_eq_nil_iff]
    intro a _
    simp [h]

theorem mem_history {i : Nat} {a : Act} {events : List Event} :
    a ∈ history i events ↔ (some i, a) ∈ events := by
  rw [history, List.mem_filterMap]
  constructor
  · rintro ⟨⟨worker, a'⟩, hx, ha⟩
    split at ha
    · next hi =>
      obtain rfl := Option.some.inj ha
      exact (show worker = some i from hi) ▸ hx
    · simp at ha
  · exact fun h => ⟨_, h, if_pos rfl⟩

theorem getElem?_replace {α : Type} {before after : List α} (a b : α) {i : Nat}
    (hi : i ≠ before.length) : (before ++ a :: after)[i]? = (before ++ b :: after)[i]? := by
  rcases Nat.lt_or_gt_of_ne hi with hlt | hgt
  · rw [List.getElem?_append_left hlt, List.getElem?_append_left hlt]
  · obtain ⟨j, hj⟩ : ∃ j, i - before.length = j + 1 := ⟨i - before.length - 1, by omega⟩
    rw [List.getElem?_append_right (by omega), List.getElem?_append_right (by omega), hj]
    rfl

namespace Crew

variable {s : Setup} {c c' : Crew} {events more : List Event} {initial : State}

/-- What the histories of the workers say about them; those who are not there have done nothing. -/
def Witnessed (P : List Act → Worker → Prop) (n : Nat) (events : List Event) (c : Crew) : Prop :=
  c.workers.length = n ∧ ∀ i, (∀ w, c.workers[i]? = some w → P (history i events) w) ∧
    (n ≤ i → history i events = [])

/-- What each move of a worker keeps, holds of each worker and its history after every run. -/
theorem Run.witnessed {P : List Act → Worker → Prop} {n : Nat}
    (hstart : P [] { program := .ofBase s.base })
    (hmove : ∀ h sh w acts sh' w', Worker.Move s sh w acts sh' w' → P h w → P (h ++ acts) w')
    (hrun : Run s (start s initial n) events c) : Witnessed P n events c := by
  induction hrun with
  | refl =>
    refine ⟨List.length_replicate, fun i => ⟨fun w hw => ?_, fun _ => rfl⟩⟩
    obtain rfl := (List.mem_replicate.1 (List.mem_of_getElem? hw)).2
    exact hstart
  | @snoc events more c c' _ hstep ih =>
    obtain ⟨hlen, hworkers⟩ := ih
    cases hstep with
    | explore hp =>
      refine ⟨hlen, fun i => ?_⟩
      rw [history_append, history_map, if_neg (by simp), List.append_nil]
      exact hworkers i
    | @work sh sh' before after w w' lead acts _ hm =>
      refine ⟨by simpa using hlen, fun i => ?_⟩
      rw [history_append, history_map]
      by_cases hi : i = before.length
      · subst hi
        rw [if_pos rfl]
        refine ⟨fun x hx => ?_, fun hle => ?_⟩
        · rw [List.getElem?_append_right (Nat.le_refl _), Nat.sub_self, List.getElem?_cons_zero,
            Option.some.injEq] at hx
          subst hx
          refine hmove _ _ _ _ _ _ hm ((hworkers before.length).1 w ?_)
          rw [List.getElem?_append_right (Nat.le_refl _), Nat.sub_self, List.getElem?_cons_zero]
        · simp only [List.length_append, List.length_cons] at hlen
          omega
      · rw [if_neg fun h => hi (Option.some.inj h).symm, List.append_nil, getElem?_replace w' w hi]
        exact hworkers i
    | fault | hire | stop | join | bury | abort =>
      rw [List.append_nil]
      exact ⟨hlen, hworkers⟩

end Crew

/-! ## A crew of one -/

namespace Crew

variable {s : Setup}

theorem Run.trans {c c' c'' : Crew} {events more : List Event} (h : Run s c events c')
    (h' : Run s c' more c'') : Run s c (events ++ more) c'' := by
  induction h' with
  | refl => rwa [List.append_nil]
  | snoc _ hstep ih =>
    rw [← List.append_assoc]
    exact .snoc ih hstep

theorem Step.run {c c' : Crew} {events : List Event} (h : Step s c events c') : Run s c events c' :=
  .snoc .refl h

/-- The crew of one worker whose lead waits for it. -/
def solo (sh : Shared) (w : Worker) : Crew := ⟨sh, [w], .joining 0⟩

/-- Nobody tells the workers to end. -/
def quiet (e : Exploration) : Shared := { exploration := e }

theorem run_move {sh sh' : Shared} {w w' : Worker} {acts : List Act}
    (h : Worker.Move s sh w acts sh' w') :
    Run s (solo sh w) (acts.map (Prod.mk (some 0))) (solo sh' w') := by
  have hstep : Step s ⟨sh, [] ++ w :: [], .joining 0⟩ _ ⟨sh', [] ++ w' :: [], .joining 0⟩ := .work rfl h
  exact hstep.run

/-- A run in which nothing is asked. -/
def Silent (s : Setup) (c c' : Crew) : Prop := ∃ events, Run s c events c' ∧ askedIn events = []

theorem Silent.refl (c : Crew) : Silent s c c := ⟨[], .refl, rfl⟩

theorem Silent.trans {c c' c'' : Crew} (h : Silent s c c') (h' : Silent s c' c'') :
    Silent s c c'' := by
  obtain ⟨events, hrun, hnone⟩ := h
  obtain ⟨events', hrun', hnone'⟩ := h'
  refine ⟨events ++ events', hrun.trans hrun', ?_⟩
  rw [askedIn_append, hnone, hnone', List.append_nil]

theorem Step.silent {c c' : Crew} (h : Step s c [] c') : Silent s c c' := ⟨[], h.run, rfl⟩

theorem silent_move {sh sh' : Shared} {w w' : Worker} {acts : List Act}
    (h : Worker.Move s sh w acts sh' w') (hacts : ∀ a ∈ acts, a.asked? = none) :
    Silent s (solo sh w) (solo sh' w') := by
  exact ⟨_, run_move h, askedIn_eq_nil hacts (some 0)⟩

/-- How a worker goes on after its chores. -/
def stageAfter (q : Query) : Except ConstructionFault Exploration → Stage
  | .ok _ => .reacting q []
  | .error fault => .failed q fault

/-- How the lead goes on after its chores. -/
def leadAfter : Except ConstructionFault Exploration → Lead
  | .ok _ => .exploring []
  | .error fault => .failed fault

/-- A worker that is alone performs its chores without a break. -/
theorem silent_performs {e : Exploration} {chores : List Chore}
    {r : Except ConstructionFault Exploration} (h : Performs s.toSetting e chores r)
    (program : Program) (q : Query) : ∃ e', (∀ e'', r = .ok e'' → e'' = e') ∧
    Silent s (solo (quiet e) ⟨program, .reacting q chores⟩)
      (solo (quiet e') ⟨program, stageAfter q r⟩) := by
  induction h with
  | done e => exact ⟨e, fun e'' he => (Except.ok.inj he).symm, .refl _⟩
  | @step e e₁ chore more rest r hp _ ih =>
    obtain ⟨e', hr, hrun⟩ := ih
    have hmove : Worker.Move s (quiet e) ⟨program, .reacting q (chore :: rest)⟩ (chore.acts e)
        (quiet e₁) ⟨program, .reacting q (more ++ rest)⟩ := .chore hp
    exact ⟨e', hr, (silent_move hmove Chore.asked?_of_mem_acts).trans hrun⟩
  | @fault e chore rest fault hp =>
    have hmove : Worker.Move s (quiet e) ⟨program, .reacting q (chore :: rest)⟩ [] (quiet e)
        ⟨program, .failed q fault⟩ := .fault hp
    exact ⟨e, by simp, silent_move hmove (by simp)⟩

/-- So does the lead. -/
theorem silent_explore {e : Exploration} {chores : List Chore}
    {r : Except ConstructionFault Exploration} (h : Performs s.toSetting e chores r)
    (workers : List Worker) : ∃ e', (∀ e'', r = .ok e'' → e'' = e') ∧
    Silent s ⟨quiet e, workers, .exploring chores⟩ ⟨quiet e', workers, leadAfter r⟩ := by
  induction h with
  | done e => exact ⟨e, fun e'' he => (Except.ok.inj he).symm, .refl _⟩
  | @step e e₁ chore more rest r hp _ ih =>
    obtain ⟨e', hr, hrun⟩ := ih
    have hstep : Step s ⟨quiet e, workers, .exploring (chore :: rest)⟩
        ((chore.acts e).map (Prod.mk none)) ⟨quiet e₁, workers, .exploring (more ++ rest)⟩ :=
      .explore hp
    have hsilent := askedIn_eq_nil (@Chore.asked?_of_mem_acts e chore) none
    exact ⟨e', hr, Silent.trans ⟨_, hstep.run, hsilent⟩ hrun⟩
  | @fault e chore rest fault hp =>
    have hstep : Step s ⟨quiet e, workers, .exploring (chore :: rest)⟩ []
        ⟨quiet e, workers, .failed fault⟩ := .fault hp
    exact ⟨e, by simp, hstep.silent⟩

/-- The lead learns the fault of a worker that failed. -/
theorem silent_fail (e : Exploration) (program : Program) (q : Query) (fault : ConstructionFault) :
    ∃ c, Silent s (solo (quiet e) ⟨program, .failed q fault⟩) c ∧ c.IsFinished ∧
      c.result = .error fault := by
  let sh₁ : Shared := quiet { e with queue := e.queue.taskDone }
  let sh₂ : Shared := { sh₁ with aborted := true }
  let sh₃ : Shared := { sh₂ with
    exploration := { sh₂.exploration with queue := sh₂.exploration.queue.abort } }
  have hfail : Worker.Move s (quiet e) ⟨program, .failed q fault⟩ [.fails q fault] sh₁
      ⟨program, .alarmed fault⟩ := .fail
  have halarm : Worker.Move s sh₁ ⟨program, .alarmed fault⟩ [] sh₂ ⟨program, .aborting fault⟩ := .alarm
  have habort : Worker.Move s sh₂ ⟨program, .aborting fault⟩ [] sh₃ ⟨program, .ended (some fault)⟩ :=
    .abort
  have hjoin : Step s (solo sh₃ ⟨program, .ended (some fault)⟩) []
      ⟨sh₃, [⟨program, .ended (some fault)⟩], .joining 1⟩ := .join rfl
  refine ⟨⟨sh₃, [⟨program, .ended (some fault)⟩], .joining 1⟩, ?_, Or.inr rfl, rfl⟩
  exact (silent_move hfail (by simp [Act.asked?])).trans ((silent_move halarm (by simp)).trans
    ((silent_move habort (by simp)).trans hjoin.silent))

/-- The only worker settles a query, or fails while it reacts to the answer. -/
theorem silent_settle (e : Exploration) (program : Program) (q : Query) (run : VerifierRun) :
    (∀ e', e.settle s.toSetting q run = .ok e' →
      Silent s (solo (quiet e) ⟨program, .told q run⟩) (solo (quiet e') ⟨program, .ready⟩)) ∧
    ∀ fault, e.settle s.toSetting q run = .error fault →
      ∃ c, Silent s (solo (quiet e) ⟨program, .told q run⟩) c ∧ c.IsFinished ∧
        c.result = .error fault := by
  let e₁ : Exploration := { e with log := e.log.record q run }
  obtain ⟨e₂, hr, hreact⟩ := silent_performs
    (Performs.reaction (s := s.toSetting) e₁ q (q.answer run.verdict)) program q
  have hrecord : Worker.Move s (quiet e) ⟨program, .told q run⟩ [] (quiet e₁)
      ⟨program, .reacting q (reaction q (q.answer run.verdict))⟩ := .record
  have hreacted := (silent_move hrecord (by simp)).trans hreact
  have hsettle : e.settle s.toSetting q run = e₁.onAnswer s.toSetting q (q.answer run.verdict) >>=
    fun e => .ok { e with queue := e.queue.taskDone } := rfl
  cases ha : e₁.onAnswer s.toSetting q (q.answer run.verdict) with
  | error fault =>
    rw [ha] at hreacted hsettle
    refine ⟨fun e' he => ?_, fun fault' hf => ?_⟩
    · rw [hsettle] at he
      simp [bind, Except.bind] at he
    · obtain rfl : fault = fault' := Except.error.inj (hsettle.symm.trans hf)
      obtain ⟨c, hfail, hfin, hresult⟩ := silent_fail (s := s) e₂ program q fault
      exact ⟨c, hreacted.trans hfail, hfin, hresult⟩
  | ok e₃ =>
    obtain rfl := hr e₃ ha
    rw [ha] at hreacted hsettle
    refine ⟨fun e' he => ?_, fun fault hf => ?_⟩
    · obtain rfl := Except.ok.inj (hsettle.symm.trans he)
      exact hreacted.trans (silent_move .settle (by simp [Act.asked?]))
    · rw [hsettle] at hf
      simp [bind, Except.bind] at hf

/-- The lead learns that a worker died. -/
theorem silent_die (e : Exploration) (program : Program) :
    ∃ c, Silent s (solo (quiet e) ⟨program, .dead⟩) c ∧ c.IsFinished ∧
      c.result = .error (.workerDied 0) := by
  have hbury : Step s (solo (quiet e) ⟨program, .dead⟩) []
      ⟨{ quiet e with aborted := true }, [⟨program, .dead⟩], .aborting 0⟩ := .bury rfl
  exact ⟨_, hbury.silent.trans Step.abort.silent, Or.inr rfl, rfl⟩

end Crew

namespace Setup

open Crew

variable {s : Setup} {p : Progress}

/-- A crew of one that is about to go on with a construction. -/
def crewOf (p : Progress) : Crew := solo (quiet p.exploration) ⟨p.program, .ready⟩

/-- What a crew of one has come to, having asked some queries, when one more query is asked. -/
def Replied (c : Crew) (asked : Array Query) (q : Query) : Except Failure Progress → Prop
  | .ok p => c = crewOf p ∧ p.asked = asked.push q
  | .error failure => c.IsFinished ∧ c.result = .error failure.fault ∧
      failure.asked = asked.toList ++ [q]

/-- Asking about one query. -/
theorem run_of_ask {i : Nat} {q : Query} {queue : WorkQueue Query}
    (ht : p.exploration.queue.takeAt i = (.item q, queue)) :
    ∃ events c, Run s (crewOf p) events c ∧ askedIn events = [q] ∧
      Replied c p.asked q
        (s.ask { p with exploration := { p.exploration with queue := queue } } q) := by
  obtain ⟨e, program, asked⟩ := p
  let program' := program.append q.name (q.procedureText s.set s.code)
  let e₁ : Exploration := { e with queue := queue }
  -- the worker takes the query and asks about it
  have hstay : Worker.Move s (quiet e) ⟨program, .ready⟩ [] (quiet e) ⟨program, .polling⟩ := .stay rfl
  have htake : Worker.Move s (quiet e) ⟨program, .polling⟩ [] (quiet e₁) ⟨program, .holding q⟩ :=
    .take ht
  have hask : Run s (crewOf ⟨e, program, asked⟩) [(some 0, .asks q program')]
      (solo (quiet e₁) ⟨program', .ofReply q (s.verifier asked.size program' q)⟩) :=
    (run_move hstay).trans ((run_move htake).trans (run_move (.ask asked.size rfl)))
  -- what it does then is not a question
  have hthen : ∀ {c}, Silent s
      (solo (quiet e₁) ⟨program', .ofReply q (s.verifier asked.size program' q)⟩) c →
      ∃ events, Run s (crewOf ⟨e, program, asked⟩) events c ∧ askedIn events = [q] := by
    rintro c ⟨events, hrun, hnone⟩
    exact ⟨_, hask.trans hrun, by rw [askedIn_append, hnone]; rfl⟩
  show ∃ events c, _ ∧ _ ∧ Replied c asked q (s.ask ⟨e₁, program, asked⟩ q)
  cases hv : s.verifier asked.size program' q with
  | crashed =>
    rw [hv] at hthen
    obtain ⟨c, hdie, hfin, hresult⟩ := silent_die (s := s) e₁ program'
    obtain ⟨events, hrun, hq⟩ := hthen hdie
    have hreply : s.ask ⟨e₁, program, asked⟩ q = .error ⟨.workerDied 0, (asked.push q).toList⟩ := by
      simp only [ask, program', hv]
    rw [hreply]
    exact ⟨events, c, hrun, hq, hfin, hresult, Array.toList_push⟩
  | failed fault =>
    rw [hv] at hthen
    obtain ⟨c, hfail, hfin, hresult⟩ := silent_fail (s := s) e₁ program' q (.ofVerifier fault)
    obtain ⟨events, hrun, hq⟩ := hthen hfail
    have hreply : s.ask ⟨e₁, program, asked⟩ q =
        .error ⟨.ofVerifier fault, (asked.push q).toList⟩ := by
      simp only [ask, program', hv]
    rw [hreply]
    exact ⟨events, c, hrun, hq, hfin, hresult, Array.toList_push⟩
  | ran run =>
    rw [hv] at hthen
    obtain ⟨hdone, hfails⟩ := silent_settle (s := s) e₁ program' q run
    cases hsettle : e₁.settle s.toSetting q run with
    | error fault =>
      obtain ⟨c, hfail, hfin, hresult⟩ := hfails fault hsettle
      obtain ⟨events, hrun, hq⟩ := hthen hfail
      have hreply : s.ask ⟨e₁, program, asked⟩ q = .error ⟨fault, (asked.push q).toList⟩ := by
        simp only [ask, program', hv, hsettle]
      rw [hreply]
      exact ⟨events, c, hrun, hq, hfin, hresult, Array.toList_push⟩
    | ok e₂ =>
      obtain ⟨events, hrun, hq⟩ := hthen (hdone e₂ hsettle)
      have hreply : s.ask ⟨e₁, program, asked⟩ q = .ok ⟨e₂, program', asked.push q⟩ := by
        simp only [ask, program', hv, hsettle]
      rw [hreply]
      exact ⟨events, _, hrun, hq, rfl, rfl⟩

/-- What a finished crew of one has come to, having asked some queries, when the construction is
drained. -/
def Drained (c : Crew) (asked : List Query) : Except Failure Progress → Prop
  | .ok p => c.exploration = p.exploration ∧ c.workers = [⟨p.program, .ended none⟩] ∧
      c.lead = .joining 1 ∧ p.asked.toList = asked
  | .error failure => c.result = .error failure.fault ∧ failure.asked = asked

/-- Asking about queued queries until none is left, something fails or the construction is stopped. -/
theorem run_of_drain {said : Query → Verdict → Prop} {initial : State} (hgives : s.Gives said)
    (schedule : Schedule) (h : InOrder s said initial p) :
    ∃ events c, Run s (crewOf p) events c ∧ c.IsFinished ∧
      Drained c (p.asked.toList ++ askedIn events) (s.drain schedule p) := by
  -- the worker ends when it is told to, or finds the queue closed
  have hend : ∀ (p : Progress) (sh : Shared),
      Silent s (crewOf p) (solo sh ⟨p.program, .ended none⟩) → sh.exploration = p.exploration →
      ∃ events c, Run s (crewOf p) events c ∧ c.IsFinished ∧
        Drained c (p.asked.toList ++ askedIn events) (.ok p) := by
    intro p sh hsilent hsame
    have hjoin : Step s (solo sh ⟨p.program, .ended none⟩) []
        ⟨sh, [⟨p.program, .ended none⟩], .joining 1⟩ := .join rfl
    obtain ⟨events, hrun, hnone⟩ := hsilent.trans hjoin.silent
    refine ⟨events, _, hrun, Or.inr rfl, hsame, rfl, rfl, ?_⟩
    rw [hnone, List.append_nil]
  induction p using drain.induct s schedule with
  | case1 p hstop =>
    rw [drain, if_pos hstop]
    let sh : Shared := { quiet p.exploration with stopped := true }
    have hstopped : Step s (crewOf p) [] (solo sh ⟨p.program, .ready⟩) := .stop
    have hleave : Worker.Move s sh ⟨p.program, .ready⟩ [] sh ⟨p.program, .ended none⟩ := .leave rfl
    exact hend p sh (hstopped.silent.trans (silent_move hleave (by simp))) rfl
  | case2 p hstop q queue ht p' hask ih =>
    rw [drain_of_item hstop ht]
    obtain ⟨events, c, hrun, hasked, hc⟩ := run_of_ask (s := s) ht
    rcases ask_spec hgives h ht with ⟨failure, hf, -⟩ | ⟨p₁, hp₁, hinOrder⟩
    · rw [show s.ask _ q = .ok p' from hask] at hf
      simp at hf
    · obtain rfl : p₁ = p' := Except.ok.inj (hp₁.symm.trans hask)
      rw [hp₁] at hc ⊢
      obtain ⟨rfl, hpush⟩ := hc
      obtain ⟨events', c', hrun', hfin, hdrained⟩ := ih hinOrder
      refine ⟨events ++ events', c', hrun.trans hrun', hfin, ?_⟩
      rwa [askedIn_append, hasked, ← List.append_assoc, ← Array.toList_push, ← hpush]
  | case3 p hstop q queue ht failure hask =>
    rw [drain_of_item hstop ht]
    obtain ⟨events, c, hrun, hasked, hc⟩ := run_of_ask (s := s) ht
    rw [show s.ask _ q = .error failure from hask] at hc ⊢
    obtain ⟨hfin, hresult, hfailed⟩ := hc
    refine ⟨events, c, hrun, hfin, hresult, ?_⟩
    rw [hasked, hfailed]
  | case4 p hstop hno =>
    rw [drain_of_no_item hstop hno]
    have hitems : p.exploration.queue.items = [] := by
      apply items_eq_nil_of_position schedule
      cases hi : p.exploration.queue.items[position schedule p]? with
      | none => rfl
      | some q => exact absurd (WorkQueue.takeAt_eq_item_iff.2 ⟨hi, rfl⟩) (hno q _)
    have hpoll : p.exploration.queue.poll = (.closed, p.exploration.queue) := by
      simp [WorkQueue.poll, WorkQueue.takeAt, hitems, h.balanced.closed_iff.2 hitems]
    have hstay : Worker.Move s (quiet p.exploration) ⟨p.program, .ready⟩ [] (quiet p.exploration)
        ⟨p.program, .polling⟩ := .stay rfl
    have hclose : Worker.Move s (quiet p.exploration) ⟨p.program, .polling⟩ [] (quiet p.exploration)
        ⟨p.program, .ended none⟩ := .close hpoll
    exact hend p _ ((silent_move hstay (by simp)).trans (silent_move hclose (by simp))) rfl

/-- A crew gives what a construction gives, having asked the same queries. -/
def Matches (c : Crew) (asked : List Query) : Except Failure Construction → Prop
  | .ok r => (∃ e, c.result = .ok e ∧ r.automaton = e.automaton ∧ r.log = e.log ∧
      r.cachedAnswers = e.cachedAnswers) ∧ r.asked = asked
  | .error failure => c.result = .error failure.fault ∧ failure.asked = asked

/-- The lead closes the books as a construction does. -/
theorem Drained.matches {c : Crew} {asked : List Query} {r : Except Failure Progress}
    (h : Drained c asked r) : Matches c asked (r >>= finish) := by
  cases r with
  | error failure => exact h
  | ok p =>
    obtain ⟨hsame, hworkers, hlead, hasked⟩ := h
    have hresult : c.result = if p.exploration.queue.outstanding ≠ 0 then .error .cancelled
        else match p.exploration.log.unvisited? with
          | some state => .error (.integrity (.unvisitedState state))
          | none => .ok p.exploration := by
      simp only [Crew.result, Crew.firstFault?, hlead, hworkers, hsame]
      rfl
    show Matches c asked (finish p)
    unfold finish
    split
    · next hopen => exact ⟨hresult.trans (if_pos hopen), hasked⟩
    · next hdone =>
      rw [if_neg hdone] at hresult
      split
      · next state hs =>
        rw [hs] at hresult
        exact ⟨hresult, hasked⟩
      · next hs =>
        rw [hs] at hresult
        exact ⟨⟨_, hresult, rfl, rfl, rfl⟩, hasked⟩

/-- **A crew of one.**  Constructing an automaton, in whatever order queries are asked, is a run of a
crew of one worker that asks the same queries and comes to the same result. -/
theorem exists_run_of_constructBy (schedule : Schedule) {initial : State}
    (hinitial : ∀ a ∈ initial, a ∈ s.set.actions) (hprogram : s.programFault = none) :
    ∃ events c, Run s (Crew.start s initial 1) events c ∧ c.IsFinished ∧
      Matches c (askedIn events) (s.constructBy schedule initial) := by
  have hgives : s.Gives fun _ _ => True := fun _ _ _ _ _ => trivial
  obtain ⟨e, hr, hexplore⟩ := silent_explore
    (Performs.opening (s := s.toSetting) (.start initial) initial) [⟨.ofBase s.base, .ready⟩]
  have hbegin : s.constructBy schedule initial =
      s.begin initial >>= fun p => s.drain schedule p >>= finish := rfl
  rw [hbegin]
  cases hx : (Exploration.start initial).explore s.toSetting initial with
  | error fault =>
    rw [hx] at hexplore
    obtain ⟨events, hrun, hnone⟩ := hexplore
    rw [show s.begin initial = .error ⟨fault, []⟩ by simp only [begin, hx]]
    exact ⟨events, _, hrun, Or.inl ⟨fault, rfl⟩, rfl, hnone.symm⟩
  | ok e₁ =>
    obtain rfl := hr e₁ hx
    rw [hx] at hexplore
    let p : Progress :=
      { exploration := { e₁ with queue := e₁.queue.closeIfIdle }, program := .ofBase s.base }
    have hp : s.begin initial = .ok p := by simp only [begin, hx, hprogram, p]
    have hinOrder : InOrder s (fun _ _ => True) initial p := by
      rcases begin_spec (s := s) (fun _ _ => True) hinitial with ⟨failure, hf, -⟩ | ⟨p', hp', h⟩
      · rw [hp] at hf
        simp at hf
      · obtain rfl := Except.ok.inj (hp'.symm.trans hp)
        exact h
    have hhire : Step s ⟨quiet e₁, [⟨.ofBase s.base, .ready⟩], .exploring []⟩ [] (crewOf p) := .hire
    obtain ⟨events, hrun, hnone⟩ := hexplore.trans hhire.silent
    obtain ⟨events', c, hrun', hfin, hdrained⟩ := run_of_drain hgives schedule hinOrder
    refine ⟨events ++ events', c, hrun.trans hrun', hfin, ?_⟩
    rw [askedIn_append, hnone, List.nil_append, hp]
    exact hdrained.matches

end Setup

end Enabledness
