import Enabledness.Proofs.Crew

/-!
# How a crew counts its queries

As long as nothing has gone wrong, every query that was put into the queue waits there, is in the hands
of one worker, or was reported done; the queue knows how many are not done, and is closed once the
workers are hired and nothing is left to do.  What one step does to the counts (`Counted.step`) gives
what holds after every run (`Run.counted`).
-/

namespace Enabledness

open Exploration

/-- Nothing has gone wrong for a worker. -/
def Stage.isCalm : Stage → Bool
  | failed .. | alarmed _ | aborting _ | ended (some _) | dead => false
  | _ => true

/-- The query that a worker took and has not reported done. -/
def Stage.job? : Stage → Option Query
  | holding q | told q _ | reacting q _ | failed q _ => some q
  | _ => none

/-! ## What a chore can do -/

/-- A global answer leaves the log as it is, or is stored for the query that takes it. -/
theorem ResultLog.reuseGlobal_snd (l : ResultLog) (q : Query) :
    (l.reuseGlobal q).2 = l ∨ ∃ o, (l.reuseGlobal q).2 = l.store q o := by
  unfold reuseGlobal
  split
  · split
    · exact Or.inl rfl
    · exact Or.inl rfl
    · split
      · exact Or.inr ⟨_, rfl⟩
      · exact Or.inl rfl
  · exact Or.inl rfl

/-- What a chore may do to the log. -/
inductive LogChange (l : ResultLog) : ResultLog → Prop
  | same : LogChange l l
  | store (q : Query) (o : Outcome) : LogChange l (l.store q o)
  | enqueued (t : Transition) : LogChange l (l.recordEnqueued t)

namespace Exploration

variable {s : Setting} {e e' : Exploration} {chore : Chore} {more : List Chore}

/-- A chore pushes its query or leaves the queue alone, and stores one outcome at most. -/
theorem perform_changes (h : perform s e chore = .ok (e', more)) :
    ((∃ q, chore = .push q ∧ e'.queue = e.queue.push q) ∨
      e'.queue = e.queue ∧ chore.acts e = []) ∧ LogChange e.log e'.log := by
  cases chore with
  | push q =>
    obtain ⟨rfl, -⟩ := Prod.mk.inj (Except.ok.inj h)
    exact ⟨Or.inl ⟨q, rfl, WorkQueue.pushAll_eq_foldl e.queue [q]⟩, .same⟩
  | examine state main =>
    simp only [perform, bind, Except.bind] at h
    split at h
    · simp at h
    · obtain ⟨rfl, -⟩ := Prod.mk.inj (Except.ok.inj h)
      exact ⟨Or.inr ⟨rfl, rfl⟩, .same⟩
  | consult state main left facts toAsk =>
    cases left with
    | nil =>
      obtain ⟨rfl, -⟩ := Prod.mk.inj (Except.ok.inj h)
      exact ⟨Or.inr ⟨rfl, rfl⟩, .same⟩
    | cons x left =>
      simp only [perform, bind, Except.bind] at h
      split at h
      · simp at h
      · next q _ =>
        have hlog := ResultLog.reuseGlobal_snd e.log q
        split at h
        · next answer log hreuse =>
          obtain ⟨rfl, -⟩ := Prod.mk.inj (Except.ok.inj h)
          refine ⟨Or.inr ⟨rfl, rfl⟩, ?_⟩
          rw [hreuse] at hlog
          rcases hlog with rfl | ⟨o, rfl⟩
          · exact .same
          · exact .store q o
        · obtain ⟨rfl, -⟩ := Prod.mk.inj (Except.ok.inj h)
          exact ⟨Or.inr ⟨rfl, rfl⟩, .same⟩
  | await state main facts toAsk =>
    obtain ⟨rfl, -⟩ := Prod.mk.inj (Except.ok.inj h)
    exact ⟨Or.inr ⟨rfl, rfl⟩, .same⟩
  | note state main tested polarity answer =>
    simp only [perform] at h
    split at h
    · simp at h
    · obtain ⟨rfl, -⟩ := Prod.mk.inj (Except.ok.inj h)
      exact ⟨Or.inr ⟨rfl, rfl⟩, .same⟩
  | release state main =>
    simp only [perform] at h
    split at h
    · obtain ⟨rfl, -⟩ := Prod.mk.inj (Except.ok.inj h)
      exact ⟨Or.inr ⟨rfl, rfl⟩, .same⟩
    · obtain ⟨rfl, -⟩ := Prod.mk.inj (Except.ok.inj h)
      exact ⟨Or.inr ⟨rfl, rfl⟩, .same⟩
  | schedule state main facts =>
    simp only [perform, bind, Except.bind] at h
    split at h
    · simp at h
    · split at h
      · simp at h
      · obtain ⟨rfl, -⟩ := Prod.mk.inj (Except.ok.inj h)
        exact ⟨Or.inr ⟨rfl, rfl⟩, .same⟩
  | add t =>
    obtain ⟨rfl, -⟩ := Prod.mk.inj (Except.ok.inj h)
    exact ⟨Or.inr ⟨rfl, rfl⟩, .same⟩
  | announce t =>
    obtain ⟨rfl, -⟩ := Prod.mk.inj (Except.ok.inj h)
    exact ⟨Or.inr ⟨rfl, rfl⟩, .enqueued t⟩

end Exploration

/-! ## The queue -/

/-- The queries that acts put into the queue. -/
def pushedBy (acts : List Act) : List Query := acts.filterMap Act.pushed?

/-- The queries that acts report done. -/
def settledBy (acts : List Act) : List Query := acts.filterMap Act.settled?

theorem pushedIn_append_map (events : List Event) (acts : List Act) (worker : Option Nat) :
    pushedIn (events ++ acts.map (Prod.mk worker)) = pushedIn events ++ pushedBy acts := by
  simp only [pushedIn, pushedBy, List.filterMap_append, List.filterMap_map]
  rfl

theorem settledIn_append_map (events : List Event) (acts : List Act) (worker : Option Nat) :
    settledIn (events ++ acts.map (Prod.mk worker)) = settledIn events ++ settledBy acts := by
  simp only [settledIn, settledBy, List.filterMap_append, List.filterMap_map]
  rfl

/-- What becomes of some queries in the hands of workers and of the queue, while acts push some queries
and report others done.  Once the workers are hired, the queue is closed when nothing is outstanding. -/
structure Balances (hired : Prop) (acts : List Act) (held : List Query) (queue : WorkQueue Query)
    (held' : List Query) (queue' : WorkQueue Query) : Prop where
  count_eq : ∀ q, (pushedBy acts).count q + (held.count q + queue.items.count q) =
    (settledBy acts).count q + (held'.count q + queue'.items.count q)
  outstanding_eq : queue'.outstanding + (held.length + queue.items.length) =
    queue.outstanding + (held'.length + queue'.items.length)
  closed_iff : (queue.closed = true ↔ hired ∧ queue.outstanding = 0) →
    (queue'.closed = true ↔ hired ∧ queue'.outstanding = 0)

theorem Balances.refl (hired : Prop) (held : List Query) (queue : WorkQueue Query) :
    Balances hired [] held queue held queue :=
  ⟨fun _ => rfl, rfl, id⟩

/-- Queries in the hands of others stay there. -/
theorem Balances.frame {hired : Prop} {acts : List Act} {held held' : List Query}
    {queue queue' : WorkQueue Query} (h : Balances hired acts held queue held' queue')
    (others : List Query) : Balances hired acts (held ++ others) queue (held' ++ others) queue' where
  count_eq q := by
    have hcount := h.count_eq q
    rw [List.count_append, List.count_append]
    omega
  outstanding_eq := by
    have hout := h.outstanding_eq
    rw [List.length_append, List.length_append]
    omega
  closed_iff := h.closed_iff

/-- An open queue counts a query that a chore pushes. -/
theorem Balances.perform {s : Setting} {e e' : Exploration} {chore : Chore} {more : List Chore}
    (h : perform s e chore = .ok (e', more)) (hopen : e.queue.closed = false) (hired : Prop)
    (held : List Query) : Balances hired (chore.acts e) held e.queue held e'.queue := by
  rcases (perform_changes h).1 with ⟨q, rfl, hqueue⟩ | ⟨hqueue, hacts⟩
  · rw [hqueue]
    have hacts : (Chore.push q).acts e = [.pushes q] := by simp [Chore.acts, hopen]
    rw [hacts]
    refine ⟨fun q' => ?_, ?_, ?_⟩
    · rw [WorkQueue.items_push hopen, List.count_append]
      show [q].count q' + _ = 0 + _
      omega
    · rw [WorkQueue.items_push hopen, WorkQueue.outstanding_push hopen, List.length_append,
        List.length_singleton]
      omega
    · intro _
      have hclosed : (e.queue.push q).closed = false := by simp [WorkQueue.push, hopen]
      rw [hclosed, WorkQueue.outstanding_push hopen]
      simp
  · rw [hqueue, hacts]
    exact .refl hired held e.queue

/-- A worker for whom something has gone wrong never calms down. -/
theorem Worker.Move.calm_of_calm {s : Setup} {sh sh' : Shared} {w w' : Worker} {acts : List Act}
    (h : Worker.Move s sh w acts sh' w') (hcalm : w'.stage.isCalm = true) :
    w.stage.isCalm = true := by
  cases h with
  | fault | fail | alarm | abort => exact absurd hcalm Bool.false_ne_true
  | _ => rfl

/-- A worker tells the others to end only if something has gone wrong for it. -/
theorem Worker.Move.aborted {s : Setup} {sh sh' : Shared} {w w' : Worker} {acts : List Act}
    (h : Worker.Move s sh w acts sh' w') :
    sh'.aborted = sh.aborted ∨ sh'.aborted = true ∧ w'.stage.isCalm = false := by
  cases h with
  | alarm => exact Or.inr ⟨rfl, rfl⟩
  | _ => exact Or.inl rfl

/-- If nothing has gone wrong after a move, nothing had before. -/
theorem Worker.Move.all_calm {s : Setup} {sh sh' : Shared} {w w' : Worker} {acts : List Act}
    (h : Worker.Move s sh w acts sh' w') {before after : List Worker}
    (hall : ∀ x ∈ before ++ w' :: after, x.stage.isCalm = true) :
    ∀ x ∈ before ++ w :: after, x.stage.isCalm = true := by
  simp only [List.mem_append, List.mem_cons] at hall ⊢
  rintro x (hx | rfl | hx)
  · exact hall x (Or.inl hx)
  · exact h.calm_of_calm (hall w' (Or.inr (Or.inl rfl)))
  · exact hall x (Or.inr (Or.inr hx))

/-- **One move.**  If nothing goes wrong with it, the counts agree. -/
theorem Worker.Move.balances {s : Setup} {sh sh' : Shared} {w w' : Worker} {acts : List Act}
    (h : Worker.Move s sh w acts sh' w') (hcalm : w'.stage.isCalm = true)
    (hopen : w.stage.job? ≠ none → sh.exploration.queue.closed = false ∧
      sh.exploration.queue.outstanding ≠ 0) :
    Balances True acts w.stage.job?.toList sh.exploration.queue w'.stage.job?.toList
      sh'.exploration.queue := by
  cases h with
  | leave | stay | wait | close | record => exact .refl _ _ _
  | @take program i q queue ht =>
    obtain ⟨hq, rfl⟩ := WorkQueue.takeAt_eq_item_iff.1 ht
    obtain ⟨hi, -⟩ := List.getElem?_eq_some_iff.1 hq
    refine ⟨fun q' => ?_, ?_, id⟩
    · have hcount := countP_eraseIdx (· == q') hq
      rw [← List.count_eq_countP, ← List.count_eq_countP] at hcount
      show 0 + (0 + _) = 0 + ([q].count q' + (sh.exploration.queue.items.eraseIdx i).count q')
      rw [List.count_singleton]
      omega
    · show sh.exploration.queue.outstanding + (0 + _) =
        _ + (1 + (sh.exploration.queue.items.eraseIdx i).length)
      rw [List.length_eraseIdx_of_lt hi]
      omega
  | @ask program program' q n _ =>
    cases hv : s.verifier n program' q with
    | ran run => exact ⟨fun q' => rfl, rfl, id⟩
    | failed fault =>
      rw [hv] at hcalm
      exact absurd hcalm Bool.false_ne_true
    | crashed =>
      rw [hv] at hcalm
      exact absurd hcalm Bool.false_ne_true
  | chore hp => exact .perform hp (hopen (by simp [Stage.job?])).1 True _
  | @settle program q =>
    obtain ⟨hclosed, hpos⟩ := hopen (by simp [Stage.job?])
    have hitems := WorkQueue.items_taskDone sh.exploration.queue
    have hout : sh.exploration.queue.taskDone.outstanding = sh.exploration.queue.outstanding - 1 :=
      WorkQueue.outstanding_closeIfIdle _
    refine ⟨fun q' => ?_, ?_, ?_⟩
    · show 0 + ([q].count q' + _) = [q].count q' + (0 + sh.exploration.queue.taskDone.items.count q')
      rw [hitems]
      omega
    · show sh.exploration.queue.taskDone.outstanding + (1 + _) =
        _ + (0 + sh.exploration.queue.taskDone.items.length)
      rw [hitems, hout]
      omega
    · intro _
      show sh.exploration.queue.taskDone.closed = true ↔
        True ∧ sh.exploration.queue.taskDone.outstanding = 0
      rw [hout, true_and]
      exact WorkQueue.closed_closeIfIdle hclosed
  | fault | fail | alarm | abort => exact absurd hcalm Bool.false_ne_true

/-! ## The crew -/

namespace Crew

variable {s : Setup} {c c' : Crew} {events more : List Event}

/-- The queries that are in the hands of workers. -/
def jobs (c : Crew) : List Query := c.workers.filterMap fun w => w.stage.job?

/-- Nothing has gone wrong so far. -/
def Calm (c : Crew) : Prop :=
  (∀ fault, c.lead ≠ .failed fault) ∧ ∀ w ∈ c.workers, w.stage.isCalm = true

/-- The counts of a crew are right, unless something has gone wrong; and when the workers are told to
end, something has. -/
structure Counted (events : List Event) (c : Crew) : Prop where
  aborted : c.shared.aborted = true → ¬ ∀ w ∈ c.workers, w.stage.isCalm = true
  aborting : ∀ n, c.lead = .aborting n → c.shared.aborted = true
  count_eq : c.Calm → ∀ q, (pushedIn events).count q =
    (settledIn events).count q + (c.jobs.count q + c.exploration.queue.items.count q)
  outstanding_eq : c.Calm →
    c.exploration.queue.outstanding = c.jobs.length + c.exploration.queue.items.length
  closed_iff : c.Calm → (c.exploration.queue.closed = true ↔
    c.lead.hasHired = true ∧ c.exploration.queue.outstanding = 0)

theorem jobs_perm (sh : Shared) (before after : List Worker) (w : Worker) (lead : Lead) :
    (jobs ⟨sh, before ++ w :: after, lead⟩).Perm
      (w.stage.job?.toList ++ (before ++ after).filterMap fun w => w.stage.job?) := by
  have hcons : (w :: after).filterMap (fun w => w.stage.job?) =
      w.stage.job?.toList ++ after.filterMap fun w => w.stage.job? := by
    cases h : w.stage.job? <;> simp [h]
  rw [jobs, List.filterMap_append, hcons, List.filterMap_append, ← List.append_assoc,
    ← List.append_assoc]
  exact List.perm_append_comm.append_right _

theorem counted_start (s : Setup) (initial : State) (n : Nat) : Counted [] (start s initial n) := by
  have hjobs : (start s initial n).jobs = [] := by
    rw [jobs, List.filterMap_eq_nil_iff]
    intro w hw
    rw [(List.mem_replicate.1 hw).2]
    rfl
  refine ⟨fun h => absurd h Bool.false_ne_true, fun n h => by simp [start] at h, fun _ q => ?_,
    fun _ => ?_, fun _ => ?_⟩
  · rw [hjobs]
    rfl
  · rw [hjobs]
    rfl
  · simp [start, exploration, Exploration.start, Lead.hasHired]

/-- Acts that balance keep the counts. -/
theorem Counted.of_balances (h : Counted events c) (acts : List Act) (worker : Option Nat)
    (haborted : c'.shared.aborted = true → ¬ ∀ w ∈ c'.workers, w.stage.isCalm = true)
    (haborting : ∀ n, c'.lead = .aborting n → c'.shared.aborted = true)
    (hbalances : c'.Calm → c.Calm ∧ ∃ held held', c.jobs.Perm held ∧ c'.jobs.Perm held' ∧
      Balances (c.lead.hasHired = true) acts held c.exploration.queue held' c'.exploration.queue)
    (hlead : c'.lead.hasHired = c.lead.hasHired) :
    Counted (events ++ acts.map (Prod.mk worker)) c' := by
  refine ⟨haborted, haborting, fun hc q => ?_, fun hc => ?_, fun hc => ?_⟩
  all_goals obtain ⟨hcalm, held, held', hperm, hperm', hbal⟩ := hbalances hc
  · have hcount := hbal.count_eq q
    have hold := h.count_eq hcalm q
    rw [pushedIn_append_map, settledIn_append_map, List.count_append, List.count_append,
      hperm'.count_eq]
    rw [hperm.count_eq] at hold
    omega
  · have hout := hbal.outstanding_eq
    have hold := h.outstanding_eq hcalm
    rw [hperm'.length_eq]
    rw [hperm.length_eq] at hold
    omega
  · rw [hlead]
    exact hbal.closed_iff (h.closed_iff hcalm)

/-- While a worker has a query in its hands and nothing has gone wrong, the queue is open. -/
theorem Counted.open_of_job (h : Counted events c) (hcalm : c.Calm) {w : Worker} (hw : w ∈ c.workers)
    (hjob : w.stage.job? ≠ none) :
    c.exploration.queue.closed = false ∧ c.exploration.queue.outstanding ≠ 0 := by
  obtain ⟨q, hq⟩ := Option.ne_none_iff_exists'.1 hjob
  have hmem : q ∈ c.jobs := List.mem_filterMap.2 ⟨w, hw, hq⟩
  have hpos := List.length_pos_of_mem hmem
  have hout := h.outstanding_eq hcalm
  have hne : c.exploration.queue.outstanding ≠ 0 := by omega
  refine ⟨?_, hne⟩
  rw [Bool.eq_false_iff]
  exact fun hclosed => hne ((h.closed_iff hcalm).1 hclosed).2

/-- While the lead explores the initial state and nothing has gone wrong, the queue is open. -/
theorem Counted.open_of_exploring (h : Counted events c) (hcalm : c.Calm)
    (hlead : c.lead.hasHired = false) : c.exploration.queue.closed = false := by
  rw [Bool.eq_false_iff]
  intro hclosed
  rw [((h.closed_iff hcalm).1 hclosed).1] at hlead
  simp at hlead

/-- **One step** keeps the counts. -/
theorem Counted.step (h : Counted events c) (hstep : Step s c more c') :
    Counted (events ++ more) c' := by
  cases hstep with
  | @explore sh workers e chore chores rest hp =>
    refine h.of_balances (chore.acts sh.exploration) none h.aborted (by simp) (fun hc => ?_) rfl
    have hcalm : Calm ⟨sh, workers, .exploring (chore :: rest)⟩ := ⟨by simp, hc.2⟩
    exact ⟨hcalm, _, _, .rfl, .rfl, .perform hp (h.open_of_exploring hcalm rfl) _ _⟩
  | fault hp =>
    refine h.of_balances [] none h.aborted (by simp) (fun hc => ?_) rfl
    exact absurd rfl (hc.1 _)
  | @hire sh workers =>
    rw [List.append_nil]
    have hcalm : Calm ⟨sh, workers, .joining 0⟩ → Calm ⟨sh, workers, .exploring []⟩ :=
      fun hc => ⟨by simp, hc.2⟩
    have hitems := sh.exploration.queue.items_closeIfIdle
    have hout := sh.exploration.queue.outstanding_closeIfIdle
    refine ⟨h.aborted, by simp, fun hc q => ?_, fun hc => ?_, fun hc => ?_⟩
    · show _ = _ + (_ + sh.exploration.queue.closeIfIdle.items.count q)
      rw [hitems]
      exact h.count_eq (hcalm hc) q
    · show sh.exploration.queue.closeIfIdle.outstanding = _ + sh.exploration.queue.closeIfIdle.items.length
      rw [hitems, hout]
      exact h.outstanding_eq (hcalm hc)
    · have hopen : sh.exploration.queue.closed = false := h.open_of_exploring (hcalm hc) rfl
      show sh.exploration.queue.closeIfIdle.closed = true ↔
        true = true ∧ sh.exploration.queue.closeIfIdle.outstanding = 0
      rw [hout, WorkQueue.closed_closeIfIdle hopen]
      exact (and_iff_right rfl).symm
  | @work sh sh' before after w w' lead acts hlead hmove =>
    have hback : Calm ⟨sh', before ++ w' :: after, lead⟩ →
        Calm ⟨sh, before ++ w :: after, lead⟩ := fun hc => ⟨hc.1, hmove.all_calm hc.2⟩
    have hw : w ∈ before ++ w :: after := List.mem_append_right _ List.mem_cons_self
    have hw' : w' ∈ before ++ w' :: after := List.mem_append_right _ List.mem_cons_self
    refine h.of_balances acts (some before.length) ?_ ?_ (fun hc => ⟨hback hc, ?_⟩) rfl
    · -- a worker tells the others to end only after something has gone wrong with it
      intro haborted hall
      rcases hmove.aborted with hsame | ⟨-, hwrong⟩
      · exact h.aborted (hsame.symm.trans haborted) (hmove.all_calm hall)
      · rw [hall w' hw'] at hwrong
        simp at hwrong
    · intro n hn
      rcases hmove.aborted with hsame | ⟨htrue, -⟩
      · exact hsame.trans (h.aborting n hn)
      · exact htrue
    · refine ⟨_, _, jobs_perm sh before after w lead, jobs_perm sh' before after w' lead, ?_⟩
      have hbal := hmove.balances (hc.2 w' hw') fun hjob => h.open_of_job (hback hc) hw hjob
      rw [eq_true hlead]
      exact hbal.frame _
  | @stop sh workers lead =>
    exact h.of_balances [] none h.aborted h.aborting (fun hc => ⟨hc, _, _, .rfl, .rfl, .refl _ _ _⟩) rfl
  | @join sh workers n program fault? hw =>
    refine h.of_balances [] none h.aborted (by simp) (fun hc => ?_) rfl
    exact ⟨⟨by simp, hc.2⟩, _, _, .rfl, .rfl, .refl _ _ _⟩
  | @bury sh workers n program hw =>
    have hdead := List.mem_of_getElem? hw
    have hwrong : ¬ ∀ w ∈ workers, w.stage.isCalm = true := fun hall =>
      absurd (hall _ hdead) Bool.false_ne_true
    exact h.of_balances [] none (fun _ => hwrong) (fun _ _ => rfl) (fun hc => absurd hc.2 hwrong) rfl
  | @abort sh workers n =>
    have hwrong := h.aborted (h.aborting n rfl)
    exact h.of_balances [] none h.aborted (by simp) (fun hc => absurd hc.2 hwrong) rfl

/-- The counts are right after every run. -/
theorem Run.counted {initial : State} {n : Nat} (h : Run s (start s initial n) events c) :
    Counted events c := by
  induction h with
  | refl => exact counted_start s initial n
  | snoc _ hstep ih => exact ih.step hstep

end Crew

end Enabledness
