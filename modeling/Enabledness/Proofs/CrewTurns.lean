import Enabledness.Proofs.Crew
import Enabledness.Proofs.ScheduleIndependence

/-!
# Crews that take turns

The steps of a crew are a relation, since anybody may be next.  Once it is said who is, each step is a
function, and a list of turns is a run that can be computed.

* `Worker.next?`, `Worker.move_of_next?` : the move of a worker that takes the oldest query.
* `Crew.turn`, `Crew.run_turn` : a turn of the lead, of a worker or of somebody who stops the crew.
* `Crew.play`, `Crew.run_play` : turns one after the other are a run.
* `Crew.exists_run_lamp`, `Crew.exists_run_lampFault`, `Crew.exists_run_lampStop` : two workers that find
  the automaton of the lamp, fail at it, or are stopped.
-/

namespace Enabledness

open Exploration

variable {s : Setup}

/-! ## Turns of a worker -/

/-- What a worker does next, if it does anything. -/
def Worker.next? (s : Setup) (sh : Shared) (w : Worker) : Option (List Act × Shared × Worker) :=
  let e := sh.exploration
  match w.stage with
  | .ready => some ([], sh, { w with stage := if sh.aborted || sh.stopped then .ended none else .polling })
  | .polling =>
    match e.queue.poll with
    | (.item q, queue) =>
      some ([], { sh with exploration := { e with queue := queue } }, { w with stage := .holding q })
    | (.empty, _) => some ([], sh, { w with stage := .ready })
    | (.closed, _) => some ([], sh, { w with stage := .ended none })
  | .holding q =>
    let program := w.program.append q.name (q.procedureText s.set s.code)
    some ([.asks q program], sh, ⟨program, .ofReply q (s.verifier 0 program q)⟩)
  | .told q run =>
    some ([], { sh with exploration := { e with log := e.log.record q run } },
      { w with stage := .reacting q (reaction q (q.answer run.verdict)) })
  | .reacting q (chore :: rest) =>
    match perform s.toSetting e chore with
    | .ok (e', more) =>
      some (chore.acts e, { sh with exploration := e' }, { w with stage := .reacting q (more ++ rest) })
    | .error fault => some ([], sh, { w with stage := .failed q fault })
  | .reacting q [] =>
    some ([.settles q], { sh with exploration := { e with queue := e.queue.taskDone } },
      { w with stage := .ready })
  | .failed q fault =>
    some ([.fails q fault], { sh with exploration := { e with queue := e.queue.taskDone } },
      { w with stage := .alarmed fault })
  | .alarmed fault => some ([], { sh with aborted := true }, { w with stage := .aborting fault })
  | .aborting fault =>
    some ([], { sh with exploration := { e with queue := e.queue.abort } },
      { w with stage := .ended (some fault) })
  | .ended _ | .dead => none

/-- What a worker does next is a move. -/
theorem Worker.move_of_next? {sh sh' : Shared} {w w' : Worker} {acts : List Act}
    (h : w.next? s sh = some (acts, sh', w')) : Worker.Move s sh w acts sh' w' := by
  obtain ⟨program, stage⟩ := w
  cases stage with
  | ready =>
    cases hend : sh.aborted || sh.stopped with
    | true =>
      simp only [next?, hend] at h
      cases h
      exact .leave hend
    | false =>
      simp only [next?, hend] at h
      cases h
      exact .stay hend
  | polling =>
    simp only [next?] at h
    split at h <;> cases h
    · next hpoll => exact .take hpoll
    · next hpoll => exact .wait hpoll
    · next hpoll => exact .close hpoll
  | reacting q chores =>
    cases chores with
    | nil => cases h; exact .settle
    | cons chore rest =>
      simp only [next?] at h
      split at h <;> cases h
      · next hperform => exact .chore hperform
      · next hperform => exact .fault hperform
  | ended | dead => cases h
  | holding q => cases h; exact .ask 0 rfl
  | told q run => cases h; exact .record
  | failed q fault => cases h; exact .fail
  | alarmed fault => cases h; exact .alarm
  | aborting fault => cases h; exact .abort

/-! ## Turns of a crew -/

/-- Who is next. -/
inductive Turn where
  /-- The lead. -/
  | lead
  /-- A worker. -/
  | worker (i : Nat)
  /-- Somebody outside, who stops the construction. -/
  | stop

namespace Crew

/-- What the lead does next, if it does anything. -/
def leadNext? (s : Setup) (c : Crew) : Option (List Event × Crew) :=
  let e := c.exploration
  match c.lead with
  | .exploring (chore :: rest) =>
    match perform s.toSetting e chore with
    | .ok (e', more) => some ((chore.acts e).map (Prod.mk none),
        { c with shared.exploration := e', lead := .exploring (more ++ rest) })
    | .error fault => some ([], { c with lead := .failed fault })
  | .exploring [] =>
    some ([], { c with shared.exploration.queue := e.queue.closeIfIdle, lead := .joining 0 })
  | .failed _ => none
  | .joining n =>
    match c.workers[n]? with
    | some ⟨_, .ended _⟩ => some ([], { c with lead := .joining (n + 1) })
    | some ⟨_, .dead⟩ => some ([], { c with shared.aborted := true, lead := .aborting n })
    | _ => none
  | .aborting n =>
    some ([], { c with shared.exploration.queue := e.queue.abort, lead := .joining (n + 1) })

/-- What a worker does next, if it was hired and does anything. -/
def workerNext? (s : Setup) (c : Crew) (i : Nat) : Option (List Event × Crew) :=
  if c.lead.hasHired then
    (c.workers[i]?.bind (Worker.next? s c.shared)).map fun (acts, sh, w) =>
      (acts.map (Prod.mk (some i)), { c with shared := sh, workers := c.workers.set i w })
  else none

/-- A turn; nothing happens if it is the turn of somebody who has to wait. -/
def turn (s : Setup) (c : Crew) : Turn → List Event × Crew
  | .lead => (c.leadNext? s).getD ([], c)
  | .worker i => (c.workerNext? s i).getD ([], c)
  | .stop => ([], { c with shared.stopped := true })

/-- Turns one after the other. -/
def play (s : Setup) : Crew → List Turn → List Event × Crew
  | c, [] => ([], c)
  | c, t :: rest =>
    let (events, c') := c.turn s t
    let (more, c'') := play s c' rest
    (events ++ more, c'')

variable {c c' : Crew} {events : List Event}

/-- What the lead does next is a step. -/
theorem step_of_leadNext? (h : c.leadNext? s = some (events, c')) : Step s c events c' := by
  obtain ⟨sh, workers, lead⟩ := c
  cases lead with
  | exploring chores =>
    cases chores with
    | nil => cases h; exact .hire
    | cons chore rest =>
      simp only [leadNext?] at h
      split at h <;> cases h
      · next hperform => exact .explore hperform
      · next hperform => exact .fault hperform
  | failed => cases h
  | joining n =>
    simp only [leadNext?] at h
    split at h <;> cases h
    · next hw => exact .join hw
    · next hw => exact .bury hw
  | aborting n => cases h; exact .abort

/-- What a worker does next is a step. -/
theorem step_of_workerNext? {i : Nat} (h : c.workerNext? s i = some (events, c')) :
    Step s c events c' := by
  obtain ⟨sh, workers, lead⟩ := c
  unfold workerNext? at h
  split at h
  · next hhired =>
    obtain ⟨⟨acts, sh', w'⟩, hnext, heq⟩ := Option.map_eq_some_iff.1 h
    obtain ⟨w, hw, hnext⟩ := Option.bind_eq_some_iff.1 hnext
    cases heq
    -- the worker stands between those before and after it
    obtain ⟨hi, hget⟩ := List.getElem?_eq_some_iff.1 hw
    have hbefore : (workers.take i).length = i := List.length_take_of_le (Nat.le_of_lt hi)
    have hworkers : workers = workers.take i ++ w :: workers.drop (i + 1) := by
      rw [← hget, ← List.drop_eq_getElem_cons hi, List.take_append_drop]
    have hstep : Step s ⟨sh, workers.take i ++ w :: workers.drop (i + 1), lead⟩ _ _ :=
      .work hhired (Worker.move_of_next? hnext)
    rw [hbefore, ← hworkers] at hstep
    rw [List.set_eq_take_append_cons_drop, if_pos hi]
    exact hstep
  · simp at h

theorem run_turn (s : Setup) (c : Crew) (t : Turn) : Run s c (c.turn s t).1 (c.turn s t).2 := by
  cases t with
  | lead =>
    show Run s c ((c.leadNext? s).getD ([], c)).1 ((c.leadNext? s).getD ([], c)).2
    cases h : c.leadNext? s with
    | none => exact .refl
    | some x => exact (step_of_leadNext? h).run
  | worker i =>
    show Run s c ((c.workerNext? s i).getD ([], c)).1 ((c.workerNext? s i).getD ([], c)).2
    cases h : c.workerNext? s i with
    | none => exact .refl
    | some x => exact (step_of_workerNext? h).run
  | stop => exact Step.stop.run

/-- **Turns are a run.** -/
theorem run_play (s : Setup) (c : Crew) (turns : List Turn) :
    Run s c (c.play s turns).1 (c.play s turns).2 := by
  induction turns generalizing c with
  | nil => exact .refl
  | cons t rest ih => exact (run_turn s c t).trans (ih (c.turn s t).2)

/-- What can be computed from turns holds after some run. -/
theorem exists_run_of_play {P : List Event → Crew → Prop} (turns : List Turn)
    (h : P (c.play s turns).1 (c.play s turns).2) : ∃ events c', Run s c events c' ∧ P events c' :=
  ⟨_, _, run_play s c turns, h⟩

/-! ## Two workers at the lamp -/

end Crew

/-- The lead waits for nobody any more. -/
def Lead.isDone (workers : Nat) : Lead → Bool
  | failed _ => true
  | joining n => n = workers
  | exploring _ | aborting _ => false

theorem Lead.ne_failed_of_hasHired {lead : Lead} (h : lead.hasHired = true)
    (fault : ConstructionFault) : lead ≠ .failed fault := by
  rintro rfl
  exact Bool.noConfusion h

/-- The workers that asked the verifier, in the order of their questions. -/
def askersIn (events : List Event) : List (Option Nat) :=
  (events.filter fun x => x.2.asked?.isSome).map Prod.fst

namespace Crew

theorem isFinished_iff {c : Crew} : c.IsFinished ↔ c.lead.isDone c.workers.length = true := by
  unfold IsFinished
  cases c.lead <;> simp [Lead.isDone]

instance (c : Crew) : Decidable c.IsFinished := decidable_of_iff _ isFinished_iff.symm

theorem mem_actions_of_mem_lampOff : ∀ a ∈ lampOff, a ∈ lampActions.actions := fun _ ha =>
  (SortedSet.mem_filter.1 ha).1

/-- Rounds of a lead and two workers. -/
def rounds (n : Nat) : List Turn := (List.replicate n [.lead, .worker 0, .worker 1]).flatten

/-- Two workers find the automaton of the lamp, and both ask, one between two questions of the other. -/
theorem exists_run_lamp : ∃ events c,
    Run lampSetup (start lampSetup lampOff 2) events c ∧
      [some 0, some 1, some 0, some 1].Sublist (askersIn events) ∧ c.IsFinished ∧
      c.result.isOk = true :=
  exists_run_of_play (rounds 190) (by decide +kernel)

end Crew

/-- The lamp under a verifier that fails on one query. -/
def lampFault : Setup := { lampSetup with
  verifier := fun n program q =>
    if q.name = "q_dis_g__on__off" then .failed (.unclassified q.name "out of memory")
    else lampSetup.verifier n program q }

namespace Crew

/-- Two workers share the queries of the lamp, and one of them meets the query that fails. -/
theorem exists_run_lampFault : ∃ events c,
    Run lampFault (start lampFault lampOff 2) events c ∧
      [some 0, some 1, some 0, some 1].Sublist (askersIn events) ∧ c.IsFinished ∧
      c.lead.hasHired = true ∧ failuresIn events ≠ [] :=
  exists_run_of_play (rounds 23) (by decide +kernel)

/-- Two workers are stopped when they have done some of the queries of the lamp. -/
theorem exists_run_lampStop : ∃ events c,
    Run lampSetup (start lampSetup lampOff 2) events c ∧
      [some 0, some 1, some 0, some 1].Sublist (askersIn events) ∧ c.IsFinished ∧
      c.lead.hasHired = true ∧ failuresIn events = [] ∧
      ∃ q ∈ pushedIn events, (settledIn events).count q < (pushedIn events).count q :=
  exists_run_of_play (rounds 20 ++ .stop :: rounds 20) (by decide +kernel)

end Crew

end Enabledness
