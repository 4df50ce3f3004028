import Enabledness.Proofs.AnyOrder
import Enabledness.Proofs.CrewEnding
import Enabledness.Proofs.ScheduleIndependence

/-!
# Crews that wait for ever

A worker that dies leaves a query that nobody reports done, so that the queue does not close by itself.
The lead closes it when it comes to the dead worker, but it comes to the workers in their order, and
waits for those that live.

* `Crew.Next` : a step, or the death of a worker that has a query in its hands.
* `Crew.Attended` : as long as the queue is open, what is outstanding waits there or is owed by a worker,
  dead or alive.
* `Crew.Stranded.reaches` : a crew in which everybody waits, the lead for a worker and the workers for
  queries, waits for ever.
* `Crew.goes_on_or_stranded` : a crew whose queue is open and empty goes on, unless a worker died that
  the lead has not come to.
-/

namespace Enabledness

open Exploration

/-- The worker has a query in its hands, or a failure to report. -/
def Stage.isBusy : Stage → Bool
  | holding _ | told .. | reacting .. | failed .. | alarmed _ | aborting _ => true
  | _ => false

/-- The worker took a query and has not reported it done; if it died, it never will. -/
def Stage.owes : Stage → Bool
  | holding _ | told .. | reacting .. | failed .. | dead => true
  | _ => false

theorem Stage.isBusy_of_job? {stage : Stage} (h : stage.job? ≠ none) :
    stage.isBusy = true ∧ stage.owes = true ∧ stage.hasEnded = false := by
  cases stage with
  | holding | told | reacting | failed => exact ⟨rfl, rfl, rfl⟩
  | _ => exact absurd rfl h

theorem Stage.isBusy_or_eq_dead {stage : Stage} (h : stage.owes = true) :
    stage.isBusy = true ∨ stage = .dead := by
  cases stage with
  | holding | told | reacting | failed => exact Or.inl rfl
  | dead => exact Or.inr rfl
  | _ => exact absurd h Bool.false_ne_true

/-! ## What is outstanding -/

/-- What becomes of a queue and of what one worker owes: an open queue counts both what waits and what
is owed, and closes before the count comes to nothing. -/
structure Charges (owed : Bool) (queue : WorkQueue Query) (owed' : Bool) (queue' : WorkQueue Query) :
    Prop where
  open_of_open : queue'.closed = false → queue.closed = false
  outstanding_eq : queue'.closed = false → owed.toNat ≤ queue.outstanding →
    queue'.outstanding + (queue.items.length + owed.toNat) =
      queue.outstanding + (queue'.items.length + owed'.toNat)
  outstanding_pos : queue'.closed = false → 0 < queue.outstanding → 0 < queue'.outstanding

theorem Charges.refl (owed : Bool) (queue : WorkQueue Query) : Charges owed queue owed queue :=
  ⟨id, fun _ _ => rfl, fun _ => id⟩

/-- A query that is pushed waits. -/
theorem Charges.perform {s : Setting} {e e' : Exploration} {chore : Chore} {more : List Chore}
    (h : perform s e chore = .ok (e', more)) (owed : Bool) : Charges owed e.queue owed e'.queue := by
  rcases (perform_changes h).1 with ⟨q, -, hqueue⟩ | ⟨hqueue, -⟩
  · rw [hqueue]
    cases hclosed : e.queue.closed with
    | true =>
      rw [WorkQueue.push_of_closed hclosed]
      exact .refl owed e.queue
    | false =>
      have hout := WorkQueue.outstanding_push hclosed q
      refine ⟨fun _ => hclosed, fun _ _ => ?_, fun _ _ => by omega⟩
      rw [hout, WorkQueue.items_push hclosed, List.length_append, List.length_singleton]
      omega
  · rw [hqueue]
    exact .refl owed e.queue

/-- A query that is taken is owed. -/
theorem Charges.takeAt {queue queue' : WorkQueue Query} {i : Nat} {q : Query}
    (h : queue.takeAt i = (.item q, queue')) : Charges false queue true queue' := by
  obtain ⟨hq, rfl⟩ := WorkQueue.takeAt_eq_item_iff.1 h
  obtain ⟨hi, -⟩ := List.getElem?_eq_some_iff.1 hq
  refine ⟨id, fun _ _ => ?_, fun _ => id⟩
  show queue.outstanding + (_ + 0) = queue.outstanding + ((queue.items.eraseIdx i).length + 1)
  rw [List.length_eraseIdx_of_lt hi]
  omega

/-- A query that is reported done is neither; the last one closes the queue. -/
theorem Charges.taskDone (queue : WorkQueue Query) : Charges true queue false queue.taskDone := by
  have hitems : queue.taskDone.items = queue.items := WorkQueue.items_closeIfIdle _
  have hout : queue.taskDone.outstanding = queue.outstanding - 1 :=
    WorkQueue.outstanding_closeIfIdle _
  have hopen : queue.taskDone.closed = false → queue.closed = false ∧ queue.outstanding - 1 ≠ 0 := by
    unfold WorkQueue.taskDone WorkQueue.closeIfIdle
    split
    · simp
    · next hpos => exact fun h => ⟨h, hpos⟩
  refine ⟨fun h => (hopen h).1, fun _ howed => ?_, fun h _ => ?_⟩
  · rw [Bool.toNat_true] at howed
    rw [hitems, hout, Bool.toNat_true, Bool.toNat_false]
    omega
  · have hpos := (hopen h).2
    omega

theorem Charges.of_closed {queue' : WorkQueue Query} (h : queue'.closed = true) (owed owed' : Bool)
    (queue : WorkQueue Query) : Charges owed queue owed' queue' := by
  have hno : queue'.closed ≠ false := by simp [h]
  exact ⟨fun hopen => absurd hopen hno, fun hopen => absurd hopen hno, fun hopen => absurd hopen hno⟩

/-- **One move** of a worker. -/
theorem Worker.Move.charges {s : Setup} {sh sh' : Shared} {w w' : Worker} {acts : List Act}
    (h : Worker.Move s sh w acts sh' w') :
    Charges w.stage.owes sh.exploration.queue w'.stage.owes sh'.exploration.queue := by
  cases h with
  | leave | stay | wait | close | record | fault | alarm => exact .refl _ _
  | take ht => exact .takeAt ht
  | @ask program program' q n _ =>
    cases hv : s.verifier n program' q with
    | ran run => exact .refl true _
    | failed fault => exact .refl true _
    | crashed => exact .refl true _
  | chore hp => exact .perform hp true
  | settle | fail => exact .taskDone _
  | abort => exact .of_closed rfl _ _ _

/-- Whoever tells the others to end is about to close the queue, and does nothing else before. -/
theorem Worker.Move.closing {s : Setup} {sh sh' : Shared} {w w' : Worker} {acts : List Act}
    (h : Worker.Move s sh w acts sh' w') :
    (sh'.aborted = sh.aborted ∨ ∃ fault, w'.stage = .aborting fault) ∧
      ((∃ fault, w.stage = .aborting fault) → sh'.exploration.queue.closed = true) := by
  cases h with
  | @alarm _ fault => exact ⟨Or.inr ⟨fault, rfl⟩, by simp⟩
  | abort => exact ⟨Or.inl rfl, fun _ => rfl⟩
  | _ => exact ⟨Or.inl rfl, by simp⟩

/-- Workers do not stop the construction from outside. -/
theorem Worker.Move.stopped_eq {s : Setup} {sh sh' : Shared} {w w' : Worker} {acts : List Act}
    (h : Worker.Move s sh w acts sh' w') : sh'.stopped = sh.stopped := by
  cases h with
  | _ => rfl

/-- A worker that waits goes on waiting. -/
theorem Worker.Move.waits {s : Setup} {sh sh' : Shared} {w w' : Worker} {acts : List Act}
    (h : Worker.Move s sh w acts sh' w') (hbusy : w.stage.isBusy = false)
    (hclosed : sh.exploration.queue.closed = false) (hitems : sh.exploration.queue.items = [])
    (hend : (sh.aborted || sh.stopped) = false) :
    sh' = sh ∧ w'.stage.isBusy = false ∧ w'.stage.hasEnded = false := by
  cases h with
  | leave hleave =>
    rw [hend] at hleave
    simp at hleave
  | stay => exact ⟨rfl, rfl, rfl⟩
  | take ht =>
    obtain ⟨hq, -⟩ := WorkQueue.takeAt_eq_item_iff.1 ht
    simp [hitems] at hq
  | wait => exact ⟨rfl, rfl, rfl⟩
  | close hpoll => simp [WorkQueue.poll, WorkQueue.takeAt, hitems, hclosed] at hpoll
  | _ => exact absurd hbusy (by simp [Stage.isBusy])

/-- Whoever is there after one of a list is replaced is new or was there before. -/
theorem mem_replace {α : Type} {before after : List α} {a b x : α} (h : x ∈ before ++ a :: after) :
    x = a ∨ x ∈ before ++ b :: after := by
  rcases List.mem_append.1 h with hx | hx
  · exact Or.inr (List.mem_append_left _ hx)
  · rcases List.mem_cons.1 hx with rfl | hx
    · exact Or.inl rfl
    · exact Or.inr (List.mem_append_right _ (List.mem_cons_of_mem _ hx))

namespace Crew

variable {s : Setup} {c c' : Crew} {events : List Event} {initial : State}

/-! ## Workers that die -/

/-- What can happen next: a step, or a worker dies with a query in its hands. -/
inductive Next (s : Setup) : Crew → Crew → Prop
  | step {c c' : Crew} {events : List Event} : Step s c events c' → Next s c c'
  | die {sh : Shared} {before after : List Worker} {w : Worker} {lead : Lead} : w.stage.job? ≠ none →
      Next s ⟨sh, before ++ w :: after, lead⟩ ⟨sh, before ++ ⟨w.program, .dead⟩ :: after, lead⟩

/-- What holds of a crew although workers die, as long as the queue is open: it counts what waits and
what is owed; no worker that the lead has come to died, unless the lead is about to close the queue; and
the workers are told to end by somebody who is about to close it. -/
structure Attended (c : Crew) : Prop where
  hasEnded : ∀ i < c.lead.joined, ∀ w, c.workers[i]? = some w → w.stage.hasEnded = true
  outstanding_eq : c.exploration.queue.closed = false → c.exploration.queue.outstanding =
    c.exploration.queue.items.length + c.workers.countP fun w => w.stage.owes
  outstanding_pos : c.exploration.queue.closed = false → c.lead.hasHired = true →
    0 < c.exploration.queue.outstanding
  aborting_of_dead : c.exploration.queue.closed = false → ∀ i < c.lead.joined, ∀ w,
    c.workers[i]? = some w → w.stage = .dead → c.lead = .aborting i
  aborting_of_aborted : c.exploration.queue.closed = false → c.shared.aborted = true →
    (∃ w ∈ c.workers, ∃ fault, w.stage = .aborting fault) ∨ ∃ n, c.lead = .aborting n

theorem attended_start (s : Setup) (initial : State) (n : Nat) : Attended (start s initial n) where
  hasEnded i hi := absurd hi (Nat.not_lt_zero i)
  outstanding_eq _ := by
    show 0 = 0 + (List.replicate n _).countP _
    rw [List.countP_replicate, if_neg (by simp [Stage.owes])]
  outstanding_pos _ hhired := absurd hhired Bool.false_ne_true
  aborting_of_dead _ i hi := absurd hi (Nat.not_lt_zero i)
  aborting_of_aborted _ haborted := absurd haborted Bool.false_ne_true

theorem countP_owes (before after : List Worker) (w : Worker) :
    (before ++ w :: after).countP (fun w => w.stage.owes) =
      before.countP (fun w => w.stage.owes) + after.countP (fun w => w.stage.owes) +
        w.stage.owes.toNat := by
  rw [List.countP_append, List.countP_cons]
  cases w.stage.owes
  all_goals simp only [Bool.toNat_true, Bool.toNat_false, if_pos, Bool.false_eq_true, if_false]
  all_goals omega

/-- A worker with a query in its hands moves, or dies. -/
theorem Attended.work {sh sh' : Shared} {before after : List Worker} {w w' : Worker} {lead : Lead}
    (h : Attended ⟨sh, before ++ w :: after, lead⟩) (hw : w.stage.hasEnded = false)
    (hcharges : Charges w.stage.owes sh.exploration.queue w'.stage.owes sh'.exploration.queue)
    (haborted : sh'.aborted = sh.aborted ∨ ∃ fault, w'.stage = .aborting fault)
    (hclosed : (∃ fault, w.stage = .aborting fault) → sh'.exploration.queue.closed = true) :
    Attended ⟨sh', before ++ w' :: after, lead⟩ := by
  -- the lead has not come to this worker
  have hne : ∀ i < lead.joined, i ≠ before.length := by
    rintro i hi rfl
    have hended := h.hasEnded before.length hi w (by simp)
    rw [hw] at hended
    simp at hended
  have hother : ∀ i < lead.joined, ∀ x, (before ++ w' :: after)[i]? = some x →
      (before ++ w :: after)[i]? = some x := by
    intro i hi x hx
    rwa [getElem?_replace w w' (hne i hi)]
  refine ⟨fun i hi x hx => h.hasEnded i hi x (hother i hi x hx), fun hopen => ?_,
    fun hopen hhired => ?_, fun hopen i hi x hx => ?_, fun hopen habort => ?_⟩
  · have hold := h.outstanding_eq (hcharges.open_of_open hopen)
    have heq := hcharges.outstanding_eq hopen
    simp only [exploration, countP_owes] at hold ⊢
    omega
  · exact hcharges.outstanding_pos hopen (h.outstanding_pos (hcharges.open_of_open hopen) hhired)
  · exact h.aborting_of_dead (hcharges.open_of_open hopen) i hi x (hother i hi x hx)
  · rcases haborted with hsame | hfault
    · rcases h.aborting_of_aborted (hcharges.open_of_open hopen) (hsame ▸ habort) with
        ⟨x, hx, hfault⟩ | hlead
      · rcases mem_replace (b := w') hx with rfl | hx
        · exact absurd (hopen.symm.trans (hclosed hfault)) Bool.false_ne_true
        · exact Or.inl ⟨x, hx, hfault⟩
      · exact Or.inr hlead
    · exact Or.inl ⟨w', List.mem_append_right _ List.mem_cons_self, hfault⟩

/-- **One step.** -/
theorem Attended.step (h : Attended c) (hstep : Step s c events c') : Attended c' := by
  have hended := hstep.hasEnded h.hasEnded
  cases hstep with
  | @explore sh workers e chore more rest hp =>
    have hcharges : Charges false sh.exploration.queue false e.queue := .perform hp false
    refine ⟨hended, fun hopen => ?_, fun _ hhired => absurd hhired Bool.false_ne_true,
      fun _ i hi => absurd hi (Nat.not_lt_zero i), fun hopen haborted => ?_⟩
    · have hold := h.outstanding_eq (hcharges.open_of_open hopen)
      have heq := hcharges.outstanding_eq hopen (Nat.zero_le _)
      simp only [exploration, Bool.toNat_false] at hold heq ⊢
      omega
    · exact (h.aborting_of_aborted (hcharges.open_of_open hopen) haborted).imp_right fun hlead => by
        simp at hlead
  | fault =>
    refine ⟨hended, h.outstanding_eq, fun _ hhired => absurd hhired Bool.false_ne_true,
      fun _ i hi => absurd hi (Nat.not_lt_zero i), fun hopen haborted => ?_⟩
    exact (h.aborting_of_aborted hopen haborted).imp_right fun hlead => by simp at hlead
  | @hire sh workers =>
    have hopen : sh.exploration.queue.closeIfIdle.closed = false →
        sh.exploration.queue.closed = false ∧ 0 < sh.exploration.queue.outstanding := by
      unfold WorkQueue.closeIfIdle
      split
      · simp
      · next hpos => exact fun hopen => ⟨hopen, Nat.pos_of_ne_zero hpos⟩
    have hitems := sh.exploration.queue.items_closeIfIdle
    have hout := sh.exploration.queue.outstanding_closeIfIdle
    refine ⟨hended, fun ho => ?_, fun ho _ => ?_, fun _ i hi => absurd hi (Nat.not_lt_zero i),
      fun ho haborted => ?_⟩
    · have hold := h.outstanding_eq (hopen ho).1
      simp only [exploration, hitems, hout] at hold ⊢
      exact hold
    · simp only [exploration, hout]
      exact (hopen ho).2
    · exact (h.aborting_of_aborted (hopen ho).1 haborted).imp_right fun hlead => by simp at hlead
  | work hhired hmove => exact h.work hmove.not_hasEnded hmove.charges hmove.closing.1 hmove.closing.2
  | stop =>
    exact ⟨hended, h.outstanding_eq, h.outstanding_pos, h.aborting_of_dead, h.aborting_of_aborted⟩
  | @join sh workers n program fault? hw =>
    refine ⟨hended, h.outstanding_eq, h.outstanding_pos, fun hopen i hi x hx hdead => ?_,
      fun hopen haborted => ?_⟩
    · rcases Nat.lt_or_eq_of_le (Nat.le_of_lt_succ hi) with hlt | rfl
      · exact absurd (h.aborting_of_dead hopen i hlt x hx hdead) (by simp)
      · rw [show workers[i]? = some _ from hw] at hx
        rw [← Option.some.inj hx] at hdead
        simp at hdead
    · exact (h.aborting_of_aborted hopen haborted).imp_right fun hlead => by simp at hlead
  | @bury sh workers n program hw =>
    refine ⟨hended, h.outstanding_eq, h.outstanding_pos, fun hopen i hi x hx hdead => ?_,
      fun _ _ => Or.inr ⟨n, rfl⟩⟩
    rcases Nat.lt_or_eq_of_le (Nat.le_of_lt_succ hi) with hlt | rfl
    · exact absurd (h.aborting_of_dead hopen i hlt x hx hdead) (by simp)
    · rfl
  | abort =>
    have hno : ∀ {P : Prop}, true = false → P := fun hopen => absurd hopen (by simp)
    exact ⟨hended, fun hopen => hno hopen, fun hopen => hno hopen, fun hopen => hno hopen,
      fun hopen => hno hopen⟩

/-- What can happen next keeps this up. -/
theorem Attended.next (h : Attended c) (hnext : Next s c c') : Attended c' := by
  cases hnext with
  | step hstep => exact h.step hstep
  | @die sh before after w lead hjob =>
    obtain ⟨-, howes, hended⟩ := Stage.isBusy_of_job? hjob
    refine h.work hended ?_ (Or.inl rfl) ?_
    · rw [howes]
      exact .refl true _
    · rintro ⟨fault, hfault⟩
      rw [hfault] at hjob
      exact absurd rfl hjob

theorem attended_of_reaches {n : Nat}
    (h : Relation.ReflTransGen (Next s) (start s initial n) c) : Attended c := by
  induction h with
  | refl => exact attended_start s initial n
  | tail _ hnext ih => exact ih.next hnext

/-! ## Crews that are stranded -/

/-- Everybody waits: the lead for a worker that has not ended, and the workers that have not ended for
queries, while the queue is open and empty and nobody is told to end. -/
structure Stranded (n : Nat) (c : Crew) : Prop where
  lead_eq : c.lead = .joining n
  closed_eq : c.exploration.queue.closed = false
  items_eq : c.exploration.queue.items = []
  aborted_eq : c.shared.aborted = false
  not_busy : ∀ w ∈ c.workers, w.stage.isBusy = false
  not_hasEnded : ∃ w, c.workers[n]? = some w ∧ w.stage.hasEnded = false

/-- **One step.**  Nothing happens to a crew that is stranded, unless it is stopped. -/
theorem Stranded.next {n : Nat} (h : Stranded n c) (hnext : Next s c c')
    (hstopped : c'.shared.stopped = false) :
    Stranded n c' ∧ c'.shared = c.shared ∧ c'.lead = c.lead := by
  obtain ⟨hlead, hclosed, hitems, haborted, hbusy, x, hx, hended⟩ := h
  cases hnext with
  | step hstep =>
    cases hstep with
    | explore | fault | hire | abort => simp at hlead
    | stop => simp at hstopped
    | @work sh sh' before after w w' lead acts hhired hmove =>
      have hw := hbusy w (List.mem_append_right _ List.mem_cons_self)
      have hsame : sh'.stopped = sh.stopped := hmove.stopped_eq
      obtain ⟨rfl, hbusy', hended'⟩ := hmove.waits hw hclosed hitems
        (Bool.or_eq_false_iff.2 ⟨haborted, hsame ▸ hstopped⟩)
      refine ⟨⟨hlead, hclosed, hitems, haborted, fun y hy => ?_, ?_⟩, rfl, rfl⟩
      · rcases mem_replace hy with rfl | hy
        · exact hbusy'
        · exact hbusy y hy
      · by_cases hn : n = before.length
        · exact ⟨w', by simp [hn], hended'⟩
        · exact ⟨x, (getElem?_replace w' w hn).trans hx, hended⟩
    | join hw | bury hw =>
      obtain rfl := Lead.joining.inj hlead
      rw [show _ = some x from hx] at hw
      rw [Option.some.inj hw] at hended
      simp [Stage.hasEnded] at hended
  | @die sh before after w lead hjob =>
    have hw := hbusy w (List.mem_append_right _ List.mem_cons_self)
    rw [(Stage.isBusy_of_job? hjob).1] at hw
    simp at hw

/-- Nobody takes it back when a crew is stopped. -/
theorem Next.stopped (h : Next s c c') (hstopped : c'.shared.stopped = false) :
    c.shared.stopped = false := by
  cases h with
  | step hstep =>
    cases hstep with
    | work _ hmove => exact hmove.stopped_eq ▸ hstopped
    | stop => simp at hstopped
    | _ => exact hstopped
  | die => exact hstopped

/-- **A crew that is stranded waits for ever**, unless it is stopped. -/
theorem Stranded.reaches {n : Nat} (h : Stranded n c)
    (hrun : Relation.ReflTransGen (Next s) c c') (hstopped : c'.shared.stopped = false) :
    Stranded n c' ∧ c'.shared = c.shared ∧ c'.lead = c.lead := by
  induction hrun with
  | refl => exact ⟨h, rfl, rfl⟩
  | tail _ hnext ih =>
    obtain ⟨hstranded, hshared, hlead⟩ := ih (hnext.stopped hstopped)
    obtain ⟨hstranded', hshared', hlead'⟩ := hstranded.next hnext hstopped
    exact ⟨hstranded', hshared'.trans hshared, hlead'.trans hlead⟩

/-! ## One worker beside others -/

theorem Run.reaches (h : Run s c events c') : Relation.ReflTransGen (Next s) c c' := by
  induction h with
  | refl => exact .refl
  | snoc _ hstep ih => exact ih.tail (.step hstep)

/-- What the only worker of a crew can do, the first worker can do beside others that do nothing. -/
theorem Run.beside {sh : Shared} {w : Worker} (h : Run s (solo sh w) events c) (others : List Worker) :
    c.lead.hasHired = true ∧ (c.lead.joined = 0 → ∃ sh' w', c = solo sh' w' ∧
      Relation.ReflTransGen (Next s) ⟨sh, w :: others, .joining 0⟩ ⟨sh', w' :: others, .joining 0⟩) := by
  induction h with
  | refl => exact ⟨rfl, fun _ => ⟨sh, w, rfl, .refl⟩⟩
  | snoc _ hstep ih =>
    obtain ⟨hhired, ih⟩ := ih
    cases hstep with
    | explore | fault | hire => exact absurd hhired Bool.false_ne_true
    | join | bury | abort => exact ⟨rfl, fun hjoined => absurd hjoined (by simp [Lead.joined])⟩
    | @stop sh₁ workers lead =>
      refine ⟨hhired, fun hjoined => ?_⟩
      obtain ⟨sh', w', hc, hrun⟩ := ih hjoined
      obtain ⟨rfl, rfl, rfl⟩ := Crew.mk.inj hc
      exact ⟨_, w', rfl, hrun.tail (.step .stop)⟩
    | @work sh₁ sh₂ before after w₁ w₂ lead acts _ hmove =>
      refine ⟨hhired, fun hjoined => ?_⟩
      obtain ⟨sh', w', hc, hrun⟩ := ih hjoined
      obtain ⟨rfl, hworkers, rfl⟩ := Crew.mk.inj hc
      obtain ⟨rfl, rfl, rfl⟩ : before = [] ∧ w₁ = w' ∧ after = [] := by
        cases before with
        | nil => simpa using hworkers
        | cons _ _ => simp at hworkers
      have hstep : Step s ⟨sh₁, [] ++ w₁ :: others, .joining 0⟩ _ ⟨sh₂, [] ++ w₂ :: others, .joining 0⟩ :=
        .work rfl hmove
      exact ⟨sh₂, w₂, rfl, hrun.tail (.step hstep)⟩

end Crew

/-- A query leaves the queue for good. -/
def Progress.lose (p : Progress) (i : Nat) : Progress :=
  let queue := p.exploration.queue
  { p with exploration := { p.exploration with queue := { queue with items := queue.items.eraseIdx i } } }

namespace Crew

variable {s : Setup} {c c' : Crew} {events : List Event} {initial : State}

/-- The first worker is ready to go on with a construction, while others do nothing. -/
def firstOf (p : Progress) (others : List Worker) : Crew :=
  ⟨quiet p.exploration, ⟨p.program, .ready⟩ :: others, .joining 0⟩

/-- The first worker asks queries as a construction does. -/
theorem reaches_of_proceeds {p p' : Progress} (h : Relation.ReflTransGen s.Proceeds p p')
    (others : List Worker) :
    Relation.ReflTransGen (Next s) (firstOf p others) (firstOf p' others) := by
  induction h with
  | refl => exact .refl
  | tail _ hstep ih =>
    obtain ⟨i, hi⟩ := hstep
    obtain ⟨q, queue, ht, hask⟩ := Setup.askAt_eq_some_iff.1 hi
    obtain ⟨events, c, hrun, -, hreplied⟩ := Setup.run_of_ask (s := s) ht
    rw [hask] at hreplied
    obtain ⟨rfl, -⟩ := hreplied
    obtain ⟨sh', w', hc, hreaches⟩ := (hrun.beside others).2 rfl
    obtain ⟨rfl, hworkers, -⟩ := Crew.mk.inj hc
    obtain rfl := (List.cons.inj hworkers).1
    exact ih.trans hreaches

/-- The second worker takes a query that the verifier crashes on. -/
theorem reaches_of_crash {p : Progress} {i : Nat} {q : Query}
    (hq : p.exploration.queue.items[i]? = some q)
    (hcrash : ∀ n program, s.verifier n program q = .crashed) (program : Program)
    (others : List Worker) : ∃ program', Relation.ReflTransGen (Next s)
      (firstOf p (⟨program, .ready⟩ :: others)) (firstOf (p.lose i) (⟨program', .dead⟩ :: others)) := by
  let program' := program.append q.name (q.procedureText s.set s.code)
  have hstay : Worker.Move s (quiet p.exploration) ⟨program, .ready⟩ [] (quiet p.exploration)
      ⟨program, .polling⟩ := .stay rfl
  have htake : Worker.Move s (quiet p.exploration) ⟨program, .polling⟩ []
      (quiet (p.lose i).exploration) ⟨program, .holding q⟩ :=
    .take (WorkQueue.takeAt_eq_item_iff.2 ⟨hq, rfl⟩)
  have hdie : Worker.Move s (quiet (p.lose i).exploration) ⟨program, .holding q⟩
      [.asks q program'] (quiet (p.lose i).exploration)
      ⟨program', .ofReply q (s.verifier 0 program' q)⟩ := .ask 0 rfl
  rw [hcrash] at hdie
  have hnext : ∀ {sh sh' : Shared} {w w' : Worker} {acts : List Act}, Worker.Move s sh w acts sh' w' →
      Next s ⟨sh, [⟨p.program, .ready⟩] ++ w :: others, .joining 0⟩
        ⟨sh', [⟨p.program, .ready⟩] ++ w' :: others, .joining 0⟩ := fun hmove => .step (.work rfl hmove)
  exact ⟨program', ((Relation.ReflTransGen.single (hnext hstay)).tail (hnext htake)).tail (hnext hdie)⟩

/-- A crew starts as a construction does. -/
theorem reaches_of_begin {p : Progress} (h : s.begin initial = .ok p) (others : Nat) :
    Relation.ReflTransGen (Next s) (start s initial (others + 1))
      (firstOf p (List.replicate others ⟨.ofBase s.base, .ready⟩)) := by
  obtain ⟨e, hr, events, hrun, -⟩ := silent_explore
    (Performs.opening (s := s.toSetting) (.start initial) initial)
    (List.replicate (others + 1) ⟨.ofBase s.base, .ready⟩)
  unfold Setup.begin at h
  cases hx : (Exploration.start initial).explore s.toSetting initial with
  | error fault => simp [hx] at h
  | ok e₁ =>
    obtain rfl := hr e₁ hx
    rw [hx] at hrun h
    cases hfault : s.programFault with
    | some reason => simp [hfault] at h
    | none =>
      simp only [hfault, Except.ok.injEq] at h
      subst h
      exact hrun.reaches.tail (.step .hire)

/-- **A crew whose queue is open and empty goes on or is stranded.**  While the lead waits for a worker,
some worker has a query in its hands or a failure to report, or the worker has ended; or else a worker
died that comes later, and then nothing happens any more, unless the crew is stopped. -/
theorem goes_on_or_stranded {workers n : Nat}
    (h : Relation.ReflTransGen (Next s) (start s initial workers) c) (hlead : c.lead = .joining n)
    (hopen : c.exploration.queue.closed = false) (hitems : c.exploration.queue.items = []) :
    (∃ w ∈ c.workers, w.stage.isBusy = true) ∨
    (∃ w, c.workers[n]? = some w ∧ w.stage.hasEnded = true) ∨
    (∃ i w, n < i ∧ c.workers[i]? = some w ∧ w.stage = .dead) ∧
      ∀ c', Relation.ReflTransGen (Next s) c c' → c'.shared.stopped = false →
        c'.shared = c.shared ∧ c'.lead = c.lead := by
  have hattended := attended_of_reaches h
  by_cases hbusy : ∃ w ∈ c.workers, w.stage.isBusy = true
  · exact Or.inl hbusy
  refine Or.inr (or_iff_not_imp_left.2 fun hended => ?_)
  have hidle : ∀ w ∈ c.workers, w.stage.isBusy = false := fun w hw =>
    Bool.eq_false_iff.2 fun hb => hbusy ⟨w, hw, hb⟩
  -- something is outstanding and nothing waits, so that somebody owes a query: a worker that died
  have hpos := hattended.outstanding_pos hopen (by rw [hlead]; rfl)
  rw [hattended.outstanding_eq hopen, hitems, List.length_nil, Nat.zero_add,
    List.countP_pos_iff] at hpos
  obtain ⟨w, hw, howes⟩ := hpos
  have hdead : w.stage = .dead := (Stage.isBusy_or_eq_dead howes).resolve_left fun hb =>
    hbusy ⟨w, hw, hb⟩
  obtain ⟨i, hi⟩ := List.mem_iff_getElem?.1 hw
  -- the lead has not come to it
  have hlt : n < i := by
    rcases Nat.lt_trichotomy i n with hlt | rfl | hgt
    · have hcome := hattended.aborting_of_dead hopen i (by rw [hlead]; exact hlt) w hi hdead
      rw [hlead] at hcome
      simp at hcome
    · exact absurd ⟨w, hi, by rw [hdead]; rfl⟩ hended
    · exact hgt
  obtain ⟨x, hx⟩ : ∃ x, c.workers[n]? = some x :=
    ⟨_, List.getElem?_eq_getElem (Nat.lt_trans hlt (List.getElem?_eq_some_iff.1 hi).1)⟩
  have haborted : c.shared.aborted = false := by
    refine Bool.eq_false_iff.2 fun haborted => ?_
    rcases hattended.aborting_of_aborted hopen haborted with ⟨y, hy, fault, hfault⟩ | ⟨m, hm⟩
    · exact hbusy ⟨y, hy, by rw [hfault]; rfl⟩
    · rw [hlead] at hm
      simp at hm
  have hstranded : Stranded n c := ⟨hlead, hopen, hitems, haborted, hidle, x, hx,
    Bool.eq_false_iff.2 fun hx' => hended ⟨x, hx, hx'⟩⟩
  exact ⟨⟨i, w, hlt, hi, hdead⟩, fun c' hrun hstopped => (hstranded.reaches hrun hstopped).2⟩

end Crew

/-- The lamp under a verifier that crashes on one query. -/
def lampFuse : Setup := { lampSetup with
  verifier := fun n program q =>
    if q.name = "q_dis_g__on__off" then .crashed else lampSetup.verifier n program q }

/-- The second of two workers takes the fourth query and dies, and the first worker settles the three
others and waits for ever. -/
theorem Crew.stranded_lampFuse : ∃ c,
    Relation.ReflTransGen (Next lampFuse) (start lampFuse lampOff 2) c ∧ c.lead = .joining 0 ∧
    c.exploration.queue.closed = false ∧ c.exploration.queue.items = [] ∧
    (∀ w ∈ c.workers, w.stage.isBusy = false) ∧
    (∀ w, c.workers[0]? = some w → w.stage.hasEnded = false) ∧ c.shared.stopped = false ∧
    ∀ c', Relation.ReflTransGen (Next lampFuse) c c' → c'.shared.stopped = false →
      c'.shared = c.shared ∧ c'.lead = c.lead := by
  obtain ⟨p₀, q, p, hbegin, hq, hname, hask, hitems, hopen⟩ : ∃ p₀ q p,
      lampFuse.begin lampOff = .ok p₀ ∧ p₀.exploration.queue.items[3]? = some q ∧
      q.name = "q_dis_g__on__off" ∧ lampFuse.askOldest 3 (p₀.lose 3) = some p ∧
      p.exploration.queue.items = [] ∧ p.exploration.queue.closed = false := by
    have heval : ((lampFuse.begin lampOff).toOption.any fun p₀ =>
        (p₀.exploration.queue.items[3]?.any fun q => q.name = "q_dis_g__on__off") &&
        (lampFuse.askOldest 3 (p₀.lose 3)).any fun p =>
          p.exploration.queue.items.isEmpty && !p.exploration.queue.closed) = true := by
      decide +kernel
    obtain ⟨p₀, hbegin, heval⟩ := Setup.exists_begin_of_any heval
    simp only [Bool.and_eq_true, Option.any_eq_true, decide_eq_true_eq, List.isEmpty_iff,
      Bool.not_eq_true'] at heval
    obtain ⟨⟨q, hq, hname⟩, p, hp, hitems, hopen⟩ := heval
    exact ⟨p₀, q, p, hbegin, hq, hname, hp, hitems, hopen⟩
  obtain ⟨program, hdie⟩ := reaches_of_crash (s := lampFuse) hq (fun _ _ => if_pos hname)
    (.ofBase lampFuse.base) []
  have hrun : Relation.ReflTransGen (Next lampFuse) (start lampFuse lampOff 2)
      (firstOf p [⟨program, .dead⟩]) :=
    ((reaches_of_begin hbegin 1).trans hdie).trans
      (reaches_of_proceeds (Setup.proceeds_of_askOldest hask) [⟨program, .dead⟩])
  have hbusy : ∀ w ∈ (firstOf p [⟨program, .dead⟩]).workers, w.stage.isBusy = false := by
    simp [firstOf, Stage.isBusy]
  refine ⟨_, hrun, rfl, hopen, hitems, hbusy, by simp [firstOf, Stage.hasEnded], rfl, ?_⟩
  rcases goes_on_or_stranded hrun rfl hopen hitems with ⟨x, hx, hb⟩ | ⟨x, hx, hend⟩ | ⟨-, hfor⟩
  · rw [hbusy x hx] at hb
    simp at hb
  · obtain rfl := Option.some.inj hx
    exact absurd hend Bool.false_ne_true
  · exact hfor

end Enabledness
