import Enabledness.Proofs.CrewBooks

/-!
# How a crew ends

What the result of a finished crew says about all that happened.

* `Candid` : a worker that reports a failure has done nothing after it, and ends with its fault.
* `Recorded` : a query that is reported done has an answer in the log.
* `Run.ending` : a crew gives a result only if all queries were settled, and otherwise the fault of a
  query that failed or, if none did, that it was stopped.
-/

namespace Enabledness

open Exploration Chore

/-! ## Failures -/

/-- The fault that a worker has reported. -/
def Stage.reported? : Stage → Option ConstructionFault
  | alarmed fault | aborting fault => some fault
  | ended fault? => fault?
  | _ => none

/-- A worker has reported no failure, or one, as the last thing it did. -/
def Candid (acts : List Act) (w : Worker) : Prop :=
  (∀ a ∈ acts, a.failure? = none) ∧ w.stage.reported? = none ∨
    ∃ earlier q fault, acts = earlier ++ [.fails q fault] ∧ (∀ a ∈ earlier, a.failure? = none) ∧
      w.stage.reported? = some fault

theorem Chore.failure?_of_mem_acts {e : Exploration} {chore : Chore} :
    ∀ a ∈ chore.acts e, a.failure? = none := by
  intro a ha
  obtain ⟨q, -, rfl⟩ := eq_pushes_of_mem_acts ha
  rfl

/-- **One move** of a worker: it reports no failure, or its first one, or it has reported one and does
nothing. -/
theorem Worker.Move.candid {s : Setup} {sh sh' : Shared} {w w' : Worker} {acts h : List Act}
    (hmove : Worker.Move s sh w acts sh' w') (hw : Candid h w) : Candid (h ++ acts) w' := by
  -- a worker that goes on has reported nothing so far
  have hgo : w.stage.reported? = none → w'.stage.reported? = none →
      (∀ a ∈ acts, a.failure? = none) → Candid (h ++ acts) w' := by
    intro hnone hnone' hacts
    rcases hw with ⟨hh, -⟩ | ⟨_, _, _, -, -, hsome⟩
    · refine Or.inl ⟨fun a ha => ?_, hnone'⟩
      rcases List.mem_append.1 ha with ha | ha
      · exact hh a ha
      · exact hacts a ha
    · rw [hnone] at hsome
      simp at hsome
  cases hmove with
  | leave | stay | take | wait | close | record | fault => exact hgo rfl rfl (by simp)
  | @ask program program' q n _ =>
    refine hgo rfl ?_ (by simp [Act.failure?])
    cases s.verifier n program' q <;> rfl
  | chore hp => exact hgo rfl rfl failure?_of_mem_acts
  | settle => exact hgo rfl rfl (by simp [Act.failure?])
  | @fail program q fault =>
    rcases hw with ⟨hh, -⟩ | ⟨_, _, _, -, -, hsome⟩
    · exact Or.inr ⟨h, q, fault, rfl, hh, rfl⟩
    · simp [Stage.reported?] at hsome
  | alarm | abort =>
    rw [List.append_nil]
    exact hw

/-- A worker that never crashes. -/
theorem Worker.Move.not_dead {s : Setup} {sh sh' : Shared} {w w' : Worker} {acts : List Act}
    (hnocrash : ∀ n program q, s.verifier n program q ≠ .crashed)
    (hmove : Worker.Move s sh w acts sh' w') : w'.stage ≠ .dead := by
  cases hmove with
  | @ask program program' q n _ =>
    cases hv : s.verifier n program' q with
    | crashed => exact absurd hv (hnocrash n program' q)
    | ran run => simp [Stage.ofReply]
    | failed fault => simp [Stage.ofReply]
  | _ => simp

/-! ## The end of the workers -/

/-- The worker has ended. -/
def Stage.hasEnded : Stage → Bool
  | ended _ | dead => true
  | _ => false

/-- The workers that the lead has waited for. -/
def Lead.joined : Lead → Nat
  | joining n => n
  | aborting n => n + 1
  | _ => 0

/-- A worker that has ended does not move. -/
theorem Worker.Move.not_hasEnded {s : Setup} {sh sh' : Shared} {w w' : Worker} {acts : List Act}
    (h : Worker.Move s sh w acts sh' w') : w.stage.hasEnded = false := by
  cases h <;> rfl

namespace Crew

variable {s : Setup} {c c' : Crew} {events more : List Event} {initial : State} {n : Nat}

/-- One step: the lead waits for workers that have ended, and these do not move. -/
theorem Step.hasEnded (hstep : Step s c events c')
    (h : ∀ i < c.lead.joined, ∀ w, c.workers[i]? = some w → w.stage.hasEnded = true) :
    ∀ i < c'.lead.joined, ∀ w, c'.workers[i]? = some w → w.stage.hasEnded = true := by
  cases hstep with
  | explore | fault | hire => exact fun i hi => absurd hi (Nat.not_lt_zero i)
  | @work sh sh' before after w w' lead acts _ hmove =>
    intro i hi x hx
    have hne : i ≠ before.length := by
      rintro rfl
      have hw := h before.length hi w (by simp)
      rw [hmove.not_hasEnded] at hw
      simp at hw
    rw [getElem?_replace w' w hne] at hx
    exact h i hi x hx
  | stop => exact h
  | @join sh workers m program fault? hw =>
    intro i hi x hx
    rcases Nat.lt_or_eq_of_le (Nat.le_of_lt_succ hi) with hlt | rfl
    · exact h i hlt x hx
    · rw [show workers[i]? = some _ from hw] at hx
      exact Option.some.inj hx ▸ rfl
  | @bury sh workers m program hw =>
    intro i hi x hx
    rcases Nat.lt_or_eq_of_le (Nat.le_of_lt_succ hi) with hlt | rfl
    · exact h i hlt x hx
    · rw [show workers[i]? = some _ from hw] at hx
      exact Option.some.inj hx ▸ rfl
  | abort => exact h

/-- The workers that the lead has waited for have ended. -/
theorem Run.hasEnded (h : Run s (start s initial n) events c) :
    ∀ i < c.lead.joined, ∀ w, c.workers[i]? = some w → w.stage.hasEnded = true := by
  induction h with
  | refl => exact fun i hi => absurd hi (Nat.not_lt_zero i)
  | snoc _ hstep ih => exact hstep.hasEnded ih

end Crew

/-! ## Answers in the log -/

theorem LogChange.answer?_ne_none {l l' : ResultLog} (h : LogChange l l') {q : Query}
    (hq : l.answer? q.source q.main q.kind ≠ none) : l'.answer? q.source q.main q.kind ≠ none := by
  cases h with
  | same => exact hq
  | store q' o =>
    rw [ResultLog.answer?_store_query]
    split
    · simp
    · exact hq
  | enqueued t =>
    unfold ResultLog.answer? at hq ⊢
    rwa [ResultLog.outcome?_recordEnqueued]

/-- A move changes the log as chores do. -/
theorem Worker.Move.logChange {s : Setup} {sh sh' : Shared} {w w' : Worker} {acts : List Act}
    (h : Worker.Move s sh w acts sh' w') : LogChange sh.exploration.log sh'.exploration.log := by
  cases h with
  | record => exact .store _ _
  | chore hp => exact (perform_changes hp).2
  | _ => exact .same

/-- A worker reacts to a query that has an answer. -/
theorem Worker.Move.answered {s : Setup} {sh sh' : Shared} {w w' : Worker} {acts : List Act}
    (h : Worker.Move s sh w acts sh' w') {q : Query} {chores : List Chore}
    (hw' : w'.stage = .reacting q chores)
    (hw : ∀ chores, w.stage = .reacting q chores → sh.exploration.answerTo? q ≠ none) :
    sh'.exploration.answerTo? q ≠ none := by
  cases h with
  | @record program q' run =>
    obtain ⟨rfl, -⟩ := Stage.reacting.inj hw'
    show (sh.exploration.log.store q' _).answer? q'.source q'.main q'.kind ≠ none
    rw [ResultLog.answer?_store_query, if_pos rfl]
    simp
  | @chore program q' e chore more rest hp =>
    obtain ⟨rfl, -⟩ := Stage.reacting.inj hw'
    exact (perform_changes hp).2.answer?_ne_none (hw _ rfl)
  | @ask program program' q' n _ =>
    cases hv : s.verifier n program' q' <;> simp [hv, Stage.ofReply] at hw'
  | leave | stay | take | wait | close | fault | settle | fail | alarm | abort => simp at hw'

/-- A worker settles the query that it reacts to. -/
theorem Worker.Move.settled {s : Setup} {sh sh' : Shared} {w w' : Worker} {acts : List Act}
    (h : Worker.Move s sh w acts sh' w') {q : Query} (hq : q ∈ settledBy acts) :
    w.stage = .reacting q [] := by
  cases h with
  | settle =>
    obtain rfl := List.mem_singleton.1 hq
    rfl
  | @chore program q' e chore more rest hp =>
    obtain ⟨a, ha, hs⟩ := List.mem_filterMap.1 hq
    obtain ⟨q'', -, rfl⟩ := eq_pushes_of_mem_acts ha
    simp [Act.settled?] at hs
  | _ => simp [settledBy, Act.settled?] at hq

namespace Crew

variable {s : Setup} {c c' : Crew} {events more : List Event} {initial : State} {n : Nat}

/-- The queries that were reported done, and those that workers react to, have an answer. -/
structure Recorded (events : List Event) (c : Crew) : Prop where
  settled : ∀ q ∈ settledIn events, c.exploration.answerTo? q ≠ none
  reacting : ∀ w ∈ c.workers, ∀ q chores, w.stage = .reacting q chores →
    c.exploration.answerTo? q ≠ none

theorem Recorded.logChange (h : Recorded events c) (sh : Shared) (lead : Lead)
    (hlog : LogChange c.exploration.log sh.exploration.log) :
    Recorded events ⟨sh, c.workers, lead⟩ where
  settled q hq := hlog.answer?_ne_none (h.settled q hq)
  reacting w hw q chores hs := hlog.answer?_ne_none (h.reacting w hw q chores hs)

theorem Run.recorded (h : Run s (start s initial n) events c) : Recorded events c := by
  induction h with
  | refl =>
    refine ⟨by simp [settledIn], fun w hw q chores hs => ?_⟩
    rw [(List.mem_replicate.1 hw).2] at hs
    simp at hs
  | snoc _ hstep ih =>
    cases hstep with
    | @explore sh workers e chore chores rest hp =>
      obtain ⟨hsettled, hreacting⟩ := ih.logChange { sh with exploration := e }
        (.exploring (chores ++ rest)) (perform_changes hp).2
      refine ⟨fun q hq => ?_, hreacting⟩
      rw [settledIn_append_map] at hq
      rcases List.mem_append.1 hq with hq | hq
      · exact hsettled q hq
      · obtain ⟨a, ha, hs⟩ := List.mem_filterMap.1 hq
        obtain ⟨q', -, rfl⟩ := eq_pushes_of_mem_acts ha
        simp [Act.settled?] at hs
    | @work sh sh' before after w w' lead acts _ hmove =>
      have hw : w ∈ before ++ w :: after := List.mem_append_right _ List.mem_cons_self
      have hkept := hmove.logChange
      refine ⟨fun q hq => ?_, fun x hx q chores hs => ?_⟩
      · rw [settledIn_append_map] at hq
        rcases List.mem_append.1 hq with hq | hq
        · exact hkept.answer?_ne_none (ih.settled q hq)
        · exact hkept.answer?_ne_none (ih.reacting w hw q [] (hmove.settled hq))
      · have hold := ih.reacting
        simp only [List.mem_append, List.mem_cons] at hx hold
        rcases hx with hx | rfl | hx
        · exact hkept.answer?_ne_none (hold x (Or.inl hx) q chores hs)
        · exact hmove.answered hs fun chores hc => hold w (Or.inr (Or.inl rfl)) q chores hc
        · exact hkept.answer?_ne_none (hold x (Or.inr (Or.inr hx)) q chores hs)
    | fault | hire | stop | join | bury | abort =>
      rw [List.append_nil]
      exact ih.logChange _ _ .same

/-- The lead does nothing but push queries. -/
theorem Run.lead_pushes (h : Run s (start s initial n) events c) {a : Act}
    (ha : (none, a) ∈ events) : ∃ q, a = .pushes q := by
  induction h with
  | refl => exact absurd ha List.not_mem_nil
  | snoc _ hstep ih =>
    rcases List.mem_append.1 ha with ha | ha
    · exact ih ha
    · cases hstep with
      | explore hp =>
        obtain ⟨a', ha', heq⟩ := List.mem_map.1 ha
        obtain ⟨q, -, rfl⟩ := eq_pushes_of_mem_acts ha'
        exact ⟨q, (congrArg Prod.snd heq).symm⟩
      | work =>
        obtain ⟨a', -, heq⟩ := List.mem_map.1 ha
        simp at heq
      | fault | hire | stop | join | bury | abort => exact absurd ha List.not_mem_nil

/-! ## The result -/

/-- The lead finds no fault exactly if no worker ended with one. -/
theorem firstFault?_eq_none_iff : c.firstFault? = none ↔
    ∀ (i : Nat) (w : Worker), c.workers[i]? = some w → w.fault? i = none := by
  rw [firstFault?, List.findSome?_eq_none_iff]
  constructor
  · exact fun h i w hw => h (w, i) (List.mem_zipIdx_iff_getElem?.2 hw)
  · exact fun h x hx => h x.2 x.1 (List.mem_zipIdx_iff_getElem?.1 hx)

/-- All workers ended without a fault. -/
def EndedWell (c : Crew) : Prop :=
  c.lead = .joining c.workers.length ∧ ∀ w ∈ c.workers, w.stage = .ended none

theorem EndedWell.calm (h : EndedWell c) : c.Calm :=
  ⟨by simp [h.1], fun w hw => by rw [h.2 w hw]; rfl⟩

/-- At the end nobody has a query in its hands: what was pushed is settled or waits. -/
theorem EndedWell.count_eq (h : EndedWell c) (hcount : Counted events c) :
    (∀ q, (pushedIn events).count q =
      (settledIn events).count q + c.exploration.queue.items.count q) ∧
    c.exploration.queue.outstanding = c.exploration.queue.items.length := by
  have hjobs : c.jobs = [] := by
    rw [jobs, List.filterMap_eq_nil_iff]
    intro w hw
    rw [h.2 w hw]
    rfl
  have hout := hcount.outstanding_eq h.calm
  rw [hjobs] at hout
  refine ⟨fun q => ?_, by simpa using hout⟩
  have hq := hcount.count_eq h.calm q
  rw [hjobs] at hq
  simpa using hq

/-- At the end no pair waits for answers, unless queries wait. -/
theorem EndedWell.pending_eq (h : EndedWell c) (hsafe : Safe s c)
    (hitems : c.exploration.queue.items = []) (k : State × Action) :
    c.exploration.pending.get? k = none := by
  have hload : c.load = [] := by
    have hnone : (c.workers.flatMap fun w => w.stage.load) = [] := by
      rw [List.flatMap_eq_nil_iff]
      intro w hw
      rw [h.2 w hw]
      rfl
    rw [load, hnone, h.1]
    rfl
  have htidy := hsafe.orderly.tidy k
  rw [TidyAt, dueAt, hload, hitems] at htidy
  cases hp : c.exploration.pending.get? k with
  | none => rfl
  | some f =>
    -- it would wait for no answer, and somebody would have to release it
    obtain ⟨hdue, hreleased⟩ := htidy.exact h.calm f hp
    simpa using hreleased hdue

/-- Without a fault, the result of the crew is that of the two checks. -/
theorem EndedWell.result_eq (h : EndedWell c) (hsafe : Safe s c) :
    c.result = if c.exploration.queue.outstanding ≠ 0 then .error .cancelled
      else .ok c.exploration := by
  have hnone : c.firstFault? = none := by
    rw [firstFault?_eq_none_iff]
    intro i w hw
    rw [Worker.fault?, h.2 w (List.mem_of_getElem? hw)]
  unfold result
  rw [h.1]
  simp only [hnone, hsafe.unvisited?_eq]

/-- A crew that ended well and gives an exploration has nothing left to do. -/
theorem EndedWell.complete (h : EndedWell c) (hrun : Run s (start s initial n) events c)
    (hsafe : Safe s c) {e : Exploration} (hr : c.result = .ok e) :
    (∀ q, (settledIn events).count q = (pushedIn events).count q) ∧
    (∀ q ∈ pushedIn events, e.answerTo? q ≠ none) ∧ e.queue.items = [] ∧ e.queue.outstanding = 0 ∧
    ∀ k, e.pending.get? k = none := by
  obtain ⟨hcount, hout⟩ := h.count_eq hrun.counted
  rw [h.result_eq hsafe] at hr
  split at hr
  · simp at hr
  · next hzero =>
    obtain rfl := Except.ok.inj hr
    have hzero : c.exploration.queue.outstanding = 0 := by simpa using hzero
    have hitems : c.exploration.queue.items = [] :=
      List.eq_nil_of_length_eq_zero (hout.symm.trans hzero)
    have hsettled : ∀ q, (settledIn events).count q = (pushedIn events).count q := fun q => by
      simpa [hitems] using (hcount q).symm
    refine ⟨hsettled, fun q hq => ?_, hitems, hzero, h.pending_eq hsafe hitems⟩
    apply hrun.recorded.settled
    rw [← List.count_pos_iff, hsettled]
    exact List.count_pos_iff.2 hq

/-- A crew that ended well, but has not settled all queries, was cancelled. -/
theorem EndedWell.cancelled (h : EndedWell c) (hcounted : Counted events c) (hsafe : Safe s c)
    (hleft : ∃ q, (settledIn events).count q < (pushedIn events).count q) :
    c.result = .error .cancelled := by
  obtain ⟨hcount, hout⟩ := h.count_eq hcounted
  obtain ⟨q, hq⟩ := hleft
  have hwaits : c.exploration.queue.items ≠ [] := by
    intro hitems
    have hsame := hcount q
    rw [hitems, List.count_nil] at hsame
    omega
  rw [h.result_eq hsafe, if_pos]
  rw [hout]
  exact fun hlength => hwaits (List.eq_nil_of_length_eq_zero hlength)

/-- A crew that gives an exploration has ended well. -/
theorem endedWell_of_result (h : Run s (start s initial n) events c) (hfin : c.IsFinished)
    {e : Exploration} (hr : c.result = .ok e) : EndedWell c := by
  rcases hfin with ⟨fault, hlead⟩ | hlead
  · simp [result, hlead] at hr
  · have hnone : c.firstFault? = none := by
      cases hf : c.firstFault? with
      | none => rfl
      | some fault =>
        unfold result at hr
        rw [hlead] at hr
        simp [hf] at hr
    refine ⟨hlead, fun w hw => ?_⟩
    obtain ⟨i, hi⟩ := List.mem_iff_getElem?.1 hw
    have hlt : i < c.lead.joined := by
      rw [hlead]
      exact (List.getElem?_eq_some_iff.1 hi).1
    have hended := h.hasEnded i hlt w hi
    have hfault := firstFault?_eq_none_iff.1 hnone i w hi
    unfold Worker.fault? at hfault
    cases hs : w.stage with
    | ended fault? =>
      rw [hs] at hfault
      exact congrArg Stage.ended hfault
    | dead => simp [hs] at hfault
    | _ => simp [hs, Stage.hasEnded] at hended

/-- Who reports a failure does nothing after it, and has it as the fault that it reported. -/
theorem Run.reported_of_fails (h : Run s (start s initial n) events c) {x : Event} (hx : x ∈ events)
    {q : Query} {fault : ConstructionFault} (hfails : x.2 = .fails q fault) :
    ∃ (i : Nat) (w : Worker), i < n ∧ x.1 = some i ∧ c.workers[i]? = some w ∧
      w.stage.reported? = some fault ∧ ∃ earlier, history i events = earlier ++ [.fails q fault] ∧
        ∀ a ∈ earlier, a.failure? = none := by
  obtain ⟨worker, a⟩ := x
  obtain rfl : a = .fails q fault := hfails
  cases worker with
  | none =>
    obtain ⟨q', hq'⟩ := h.lead_pushes hx
    simp at hq'
  | some i =>
    obtain ⟨hlen, hall⟩ := h.witnessed (P := Candid) (Or.inl ⟨by simp, rfl⟩)
      fun _ _ _ _ _ _ hmove => hmove.candid
    have hmem := mem_history.2 hx
    have hi : i < n := by
      by_contra hge
      rw [(hall i).2 (Nat.le_of_not_lt hge)] at hmem
      exact absurd hmem List.not_mem_nil
    obtain ⟨w, hw⟩ : ∃ w, c.workers[i]? = some w := ⟨_, List.getElem?_eq_getElem (by omega)⟩
    rcases (hall i).1 w hw with ⟨hno, -⟩ | ⟨earlier, q', fault', hlast, hno, hreported⟩
    · simpa [Act.failure?] using hno _ hmem
    · rw [hlast] at hmem
      rcases List.mem_append.1 hmem with hmem | hmem
      · simpa [Act.failure?] using hno _ hmem
      · obtain ⟨rfl, rfl⟩ := Act.fails.inj (List.mem_singleton.1 hmem)
        exact ⟨i, w, hi, rfl, hw, hreported, earlier, hlast, hno⟩

/-- A fault that was reported comes from a query that failed. -/
theorem Run.fails_of_reported (h : Run s (start s initial n) events c) {i : Nat} {w : Worker}
    (hw : c.workers[i]? = some w) {fault : ConstructionFault} (hr : w.stage.reported? = some fault) :
    ∃ q, (some i, Act.fails q fault) ∈ events := by
  obtain ⟨-, hall⟩ := h.witnessed (P := Candid) (Or.inl ⟨by simp, rfl⟩)
    fun _ _ _ _ _ _ hmove => hmove.candid
  rcases (hall i).1 w hw with ⟨-, hnone⟩ | ⟨earlier, q, fault', hlast, -, hreported⟩
  · rw [hnone] at hr
    simp at hr
  · obtain rfl : fault' = fault := Option.some.inj (hreported.symm.trans hr)
    refine ⟨q, mem_history.1 ?_⟩
    rw [hlast]
    exact List.mem_append_right _ List.mem_cons_self

/-- With one worker, nothing is asked after a failure. -/
theorem Run.asked?_after_fails {before after : List Event} {x : Event}
    (h : Run s (start s initial 1) (before ++ x :: after) c) {q : Query} {fault : ConstructionFault}
    (hfails : x.2 = .fails q fault) : ∀ y ∈ after, y.2.asked? = none := by
  obtain ⟨i, -, hi, hx, -, -, earlier, hlast, hno⟩ :=
    h.reported_of_fails (List.mem_append_right _ List.mem_cons_self) hfails
  obtain rfl : i = 0 := by omega
  obtain rfl : x = (some 0, .fails q fault) := Prod.ext hx hfails
  have hafter : history 0 after = [] := by
    rw [history_append, show history 0 ((some 0, Act.fails q fault) :: after) =
      .fails q fault :: history 0 after from rfl] at hlast
    rcases List.eq_nil_or_concat (history 0 after) with hnil | ⟨l, a, hl⟩
    · exact hnil
    · -- the failure would not be the last act of the worker
      rw [hl, List.concat_eq_append, ← List.cons_append, ← List.append_assoc] at hlast
      obtain ⟨rfl, -⟩ := List.append_inj' hlast rfl
      simpa [Act.failure?] using hno (.fails q fault) (by simp)
  rintro ⟨worker, a⟩ hy
  have hmem : (worker, a) ∈ before ++ (some 0, .fails q fault) :: after :=
    List.mem_append_right _ (List.mem_cons_of_mem _ hy)
  cases worker with
  | none =>
    obtain ⟨q', rfl⟩ := h.lead_pushes hmem
    rfl
  | some j =>
    obtain ⟨-, hall⟩ := h.witnessed (P := fun _ _ => True) trivial fun _ _ _ _ _ _ _ _ => trivial
    have hj := mem_history.2 hmem
    by_cases hzero : j = 0
    · subst hzero
      have ha := mem_history.2 hy
      rw [hafter] at ha
      exact absurd ha List.not_mem_nil
    · rw [(hall j).2 (by omega)] at hj
      exact absurd hj List.not_mem_nil

section NoCrash

variable (hnocrash : ∀ m program q, s.verifier m program q ≠ .crashed)
  (h : Run s (start s initial n) events c) (hlead : c.lead = .joining c.workers.length)

include hnocrash h hlead

/-- All workers have ended when the lead has waited for all of them, and what they reported is the
fault that they ended with. -/
theorem Run.fault?_eq_reported? {i : Nat} {w : Worker} (hw : c.workers[i]? = some w) :
    w.stage = .ended w.stage.reported? ∧ w.fault? i = w.stage.reported? := by
  have hlt : i < c.lead.joined := by
    rw [hlead]
    exact (List.getElem?_eq_some_iff.1 hw).1
  have hended := h.hasEnded i hlt w hw
  have halive := ((h.witnessed (P := fun _ w => w.stage ≠ .dead) (by simp)
    fun _ _ _ _ _ _ hmove _ => hmove.not_dead hnocrash).2 i).1 w hw
  unfold Worker.fault?
  cases hs : w.stage with
  | ended fault? => exact ⟨rfl, rfl⟩
  | dead => exact absurd hs halive
  | _ => simp [hs, Stage.hasEnded] at hended

/-- If no query failed, all workers ended well. -/
theorem Run.endedWell (hno : ∀ x ∈ events, ∀ q fault, x.2 ≠ .fails q fault) : EndedWell c := by
  refine ⟨hlead, fun w hw => ?_⟩
  obtain ⟨i, hi⟩ := List.mem_iff_getElem?.1 hw
  obtain ⟨hended, -⟩ := h.fault?_eq_reported? hnocrash hlead hi
  cases hr : w.stage.reported? with
  | none => rw [hended, hr]
  | some fault =>
    obtain ⟨q, hq⟩ := h.fails_of_reported hi hr
    exact absurd rfl (hno _ hq q fault)

/-- If some query failed, the crew fails with the fault of one that did. -/
theorem Run.result_of_fails {x : Event} (hx : x ∈ events) {q : Query} {fault : ConstructionFault}
    (hfails : x.2 = .fails q fault) : ∃ (i : Nat) (q' : Query) (fault' : ConstructionFault),
    (some i, Act.fails q' fault') ∈ events ∧ c.result = .error fault' := by
  obtain ⟨i, w, -, -, hw, hreported, -⟩ := h.reported_of_fails hx hfails
  cases hf : c.firstFault? with
  | none =>
    have hnone := firstFault?_eq_none_iff.1 hf i w hw
    rw [(h.fault?_eq_reported? hnocrash hlead hw).2, hreported] at hnone
    simp at hnone
  | some fault' =>
    obtain ⟨j, w', hw', hfault⟩ := exists_of_firstFault? hf
    rw [(h.fault?_eq_reported? hnocrash hlead hw').2] at hfault
    obtain ⟨q', hq'⟩ := h.fails_of_reported hw' hfault
    refine ⟨j, q', fault', hq', ?_⟩
    unfold result
    rw [hlead]
    simp only [hf]

omit h in
/-- A crew of one fails with the fault of any query that failed: there is only one. -/
theorem Run.result_of_fails_alone (h : Run s (start s initial 1) events c) {x : Event}
    (hx : x ∈ events) {q : Query} {fault : ConstructionFault} (hfails : x.2 = .fails q fault) :
    c.result = .error fault := by
  obtain ⟨i, w, hi, -, hw, hreported, -⟩ := h.reported_of_fails hx hfails
  obtain ⟨j, q', fault', hx', hr⟩ := h.result_of_fails hnocrash hlead hx hfails
  -- both faults were reported by the only worker
  obtain ⟨i', w', hi', -, hw', hreported', -⟩ := h.reported_of_fails hx' rfl
  obtain rfl : i' = i := by omega
  obtain rfl : w' = w := Option.some.inj (hw'.symm.trans hw)
  rw [hr, Option.some.inj (hreported.symm.trans hreported')]

end NoCrash

/-- **How a crew ends.**  However many workers there are, however their steps interleave, whatever the
verifier replies, as long as it does not crash, and whenever somebody stops the construction:

* the crew gives a result only if each query that was pushed was settled, as often as it was pushed,
  and has an answer in the log, no query waits and none is outstanding, and no pair waits for necessity
  answers;
* if the initial state could be explored and some query failed, the crew fails with the fault of a
  query that failed; if none failed and some query that was pushed was not settled, the crew was
  cancelled;
* with one worker, the fault is that of the first query that failed, and the verifier is not asked
  again after it. -/
theorem Run.ending (hinitial : ∀ a ∈ initial, a ∈ s.set.actions)
    (hnocrash : ∀ m program q, s.verifier m program q ≠ .crashed)
    (h : Run s (start s initial n) events c) (hfin : c.IsFinished) :
    (∀ e, c.result = .ok e → (∀ q, (settledIn events).count q = (pushedIn events).count q) ∧
      (∀ q ∈ pushedIn events, e.answerTo? q ≠ none) ∧ e.queue.items = [] ∧
      e.queue.outstanding = 0 ∧ ∀ k, e.pending.get? k = none) ∧
    ((∀ fault, c.lead ≠ .failed fault) →
      ((∃ x ∈ events, ∃ q fault, x.2 = .fails q fault) →
        ∃ x ∈ events, ∃ q fault, x.2 = .fails q fault ∧ c.result = .error fault) ∧
      ((∀ x ∈ events, ∀ q fault, x.2 ≠ .fails q fault) →
        (∃ q, (settledIn events).count q < (pushedIn events).count q) →
        c.result = .error .cancelled) ∧
      (n = 1 → ∀ before x after q fault, events = before ++ x :: after → x.2 = .fails q fault →
        c.result = .error fault ∧ ∀ y ∈ after, y.2.asked? = none)) := by
  have hsafe := h.safe hinitial
  refine ⟨fun e hr => ?_, fun hexplored => ?_⟩
  · exact (endedWell_of_result h hfin hr).complete h hsafe hr
  · have hlead : c.lead = .joining c.workers.length := by
      rcases hfin with ⟨fault, hf⟩ | hlead
      · exact absurd hf (hexplored fault)
      · exact hlead
    refine ⟨?_, fun hno hleft => ?_, ?_⟩
    · rintro ⟨x, hx, q, fault, hfails⟩
      obtain ⟨i, q', fault', hx', hr⟩ := h.result_of_fails hnocrash hlead hx hfails
      exact ⟨_, hx', q', fault', rfl, hr⟩
    · exact (h.endedWell hnocrash hlead hno).cancelled h.counted hsafe hleft
    · rintro rfl before x after q fault rfl hfails
      exact ⟨h.result_of_fails_alone hnocrash hlead (by simp) hfails, h.asked?_after_fails hfails⟩

/-- Two workers that take turns at the lamp end in three ways.  If they find its automaton, they have
settled what they pushed and leave nothing open; if the verifier fails on one of their queries, its fault
is what they give; if they are stopped before all is settled, they were cancelled. -/
theorem ending_lamp :
    (∃ events c e, Run lampSetup (start lampSetup lampOff 2) events c ∧
      [some 0, some 1, some 0, some 1].Sublist (askersIn events) ∧ c.result = .ok e ∧
      (∀ q, (settledIn events).count q = (pushedIn events).count q) ∧
      (∀ q ∈ pushedIn events, e.answerTo? q ≠ none) ∧ e.queue.items = [] ∧
      ∀ k, e.pending.get? k = none) ∧
    (∃ events c, Run lampFault (start lampFault lampOff 2) events c ∧
      [some 0, some 1, some 0, some 1].Sublist (askersIn events) ∧
      ∃ x ∈ events, ∃ q fault, x.2 = .fails q fault ∧ c.result = .error fault) ∧
    ∃ events c, Run lampSetup (start lampSetup lampOff 2) events c ∧
      [some 0, some 1, some 0, some 1].Sublist (askersIn events) ∧
      (∃ q, (settledIn events).count q < (pushedIn events).count q) ∧
      c.result = .error .cancelled := by
  have hlamp : ∀ m program q, lampSetup.verifier m program q ≠ .crashed := by
    intro m program q hcrash
    exact Reply.noConfusion hcrash
  have hfault : ∀ m program q, lampFault.verifier m program q ≠ .crashed := by
    intro m program q
    show (if q.name = "q_dis_g__on__off" then _ else _) ≠ Reply.crashed
    split
    · exact Reply.noConfusion
    · exact hlamp m program q
  refine ⟨?_, ?_, ?_⟩
  · obtain ⟨events, c, hrun, haskers, hfin, hok⟩ := exists_run_lamp
    obtain ⟨e, he⟩ : ∃ e, c.result = .ok e := by
      cases hr : c.result with
      | ok e => exact ⟨e, rfl⟩
      | error fault =>
        rw [hr] at hok
        exact absurd hok Bool.false_ne_true
    obtain ⟨hdone, -⟩ := Run.ending mem_actions_of_mem_lampOff hlamp hrun hfin
    obtain ⟨hcount, hanswered, hitems, -, hpending⟩ := hdone e he
    exact ⟨events, c, e, hrun, haskers, he, hcount, hanswered, hitems, hpending⟩
  · obtain ⟨events, c, hrun, haskers, hfin, hhired, hfails⟩ := exists_run_lampFault
    obtain ⟨-, hends⟩ := Run.ending mem_actions_of_mem_lampOff hfault hrun hfin
    obtain ⟨fault, hmem⟩ := List.exists_mem_of_ne_nil _ hfails
    obtain ⟨x, hx, q, hxfails⟩ := mem_failuresIn.1 hmem
    exact ⟨events, c, hrun, haskers, (hends (Lead.ne_failed_of_hasHired hhired)).1
      ⟨x, hx, q, fault, hxfails⟩⟩
  · obtain ⟨events, c, hrun, haskers, hfin, hhired, hnone, q, -, hleft⟩ := exists_run_lampStop
    obtain ⟨-, hends⟩ := Run.ending mem_actions_of_mem_lampOff hlamp hrun hfin
    have hno : ∀ x ∈ events, ∀ q fault, x.2 ≠ .fails q fault := fun x hx q fault hfails =>
      List.ne_nil_of_mem (mem_failuresIn.2 ⟨x, hx, q, hfails⟩) hnone
    exact ⟨events, c, hrun, haskers, ⟨q, hleft⟩,
      (hends (Lead.ne_failed_of_hasHired hhired)).2.1 hno ⟨q, hleft⟩⟩

end Crew

end Enabledness
