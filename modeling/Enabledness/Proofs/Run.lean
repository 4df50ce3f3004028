import Enabledness.Construction
import Enabledness.Proofs.Settling

/-!
# Running a construction

A construction asks about queued queries until none is left.  What holds between two questions
(`InOrder`) holds at the start and is kept by every question, whatever the order in which queries are
asked.

* `Tally` : what was asked and what took a global answer is what has an answer, each once.
* `complete_of_constructBy` : once a construction has finished, the queries that were asked are those
  of the states of the automaton, each has an answer, and the automaton is what the answers say
  (`Complete`).
* `exists_constructBy` : a construction finishes if the verifier gives a verdict on all queries about
  the class, nobody stops it and the class is not too large.
-/

namespace Enabledness

open Exploration

/-- All actions of a query belong to a class. -/
structure Query.IsOver (c : ActionSet) (q : Query) : Prop where
  mem_of_source : ∀ a ∈ q.source, a ∈ c.actions
  mem_of_tested : ∀ t, q.tested? = some t → t ∈ c.actions
  mem_of_target : ∀ target, q.target? = some target → ∀ a ∈ target, a ∈ c.actions

section IsOver

variable {c : ActionSet} {q : Query} (hsource : ∀ a ∈ q.source, a ∈ c.actions)

include hsource

theorem Query.isOver_of_invariant {completion : Completion}
    (hkind : q.kind = .invariant completion) : q.IsOver c := by
  refine ⟨hsource, fun t ht => ?_, fun target ht => ?_⟩
  · simp [tested?, hkind] at ht
  · simp [target?, hkind] at ht

theorem Query.isOver_of_transition {completion : Completion} {target : State}
    (hkind : q.kind = .transition completion target) (htarget : ∀ a ∈ target, a ∈ c.actions) :
    q.IsOver c := by
  refine ⟨hsource, fun t ht => ?_, fun target' ht => ?_⟩
  · simp [tested?, hkind] at ht
  · rw [target?, hkind, Option.some.injEq] at ht
    rwa [← ht]

theorem Query.isOver_of_necessity {p : Polarity} {scope : Scope} {tested : Action}
    (hkind : q.kind = .necessity p scope tested) (htested : tested ∈ c.actions) : q.IsOver c := by
  refine ⟨hsource, fun t ht => ?_, fun target ht => ?_⟩
  · rw [tested?, hkind, Option.some.injEq] at ht
    rwa [← ht]
  · simp [target?, hkind] at ht

end IsOver

/-- The automaton is what the log says, and the log has an answer to everything that there is to ask
about the states of the automaton, and to nothing else. -/
structure Complete (s : Setting) (said : Query → Verdict → Prop) (initial : State) (a : Automaton)
    (l : ResultLog) : Prop where
  charted : Charted s initial a l
  truthful : Truthful said l
  answered_iff : ∀ q : Query, l.answer? q.source q.main q.kind ≠ none ↔
    q.source ∈ a.states ∧ (IsOpening s q ∨ IsStep s l q)

variable {said : Query → Verdict → Prop} {initial : State}

namespace Exploration

variable {s : Setting} {e : Exploration}

/-! ## The first exploration -/

theorem untouched_start (initial : State) (k : State × Action) : Untouched k (start initial) where
  pending_eq := Table.get?_empty k
  ledger := by
    have hnone : ∀ q, (start initial).answerTo? q = none := fun q =>
      congrArg (·.map Outcome.answer) (ResultLog.outcome?_empty q.source q.main q.kind)
    refine ⟨List.nodup_nil, fun q hq => absurd hq List.not_mem_nil, fun q _ => ?_⟩
    rw [hnone q]
    simp [queuedAt, start]

/-- At the start no query has an answer. -/
theorem answerTo?_start (initial : State) (q : Query) : (start initial).answerTo? q = none :=
  (untouched_start initial q.pair).ledger.answerTo?_of_not_asked rfl id

theorem mem_states_start {state : State} :
    state ∈ (start initial).automaton.states ↔ state = initial := by
  rw [← Roster.mem_toList]
  show state ∈ (Roster.singleton initial).toList ↔ _
  rw [Roster.toList_singleton, List.mem_singleton]

theorem charted_start (hinitial : ∀ a ∈ initial, a ∈ s.set.actions) :
    Charted s initial (start initial).automaton (start initial).log where
  initial_eq := rfl
  initial_mem := mem_states_start.2 rfl
  mem_actions state hs := mem_states_start.1 hs ▸ hinitial
  mem_source t ht := absurd ht List.not_mem_nil
  mem_target t ht := absurd ht List.not_mem_nil
  reaches state hs := by
    rw [mem_states_start.1 hs]
    exact .initial
  count_eq t := by
    have hnone : ∀ c, existenceIn? (start initial).log c t.source t.action t.target = none := by
      intro c
      unfold existenceIn? ResultLog.answer?
      rw [show (start initial).log.outcome? _ _ _ = none from ResultLog.outcome?_empty ..]
      rfl
    simp only [hnone]
    rfl

theorem kept_start (hinitial : ∀ a ∈ initial, a ∈ s.set.actions) :
    Kept s said initial (start initial) where
  charted := charted_start hinitial
  truthful q answer ha := by
    rw [show (start initial).log.answer? _ _ _ = none from answerTo?_start initial q] at ha
    simp at ha
  filed state hs := absurd hs List.not_mem_nil
  visited_iff state := by
    show state ∈ (Roster.empty.insert initial : Roster State) ↔ _
    rw [mem_states_start, Roster.mem_insert]
    exact or_iff_left List.not_mem_nil

/-- The exploration of the initial state. -/
theorem explore_start_spec (said : Query → Verdict → Prop)
    (hinitial : ∀ a ∈ initial, a ∈ s.set.actions) :
    (∃ fault, (start initial).explore s initial = .error fault ∧ TooWide s fault) ∨
    ∃ e, (start initial).explore s initial = .ok e ∧ Sound s said initial e ∧ e.queue.Busy 0 ∧
      ∃ queries, Reused queries (start initial) e := by
  have hbooks : Books s (fun _ => False) (start initial) := fun k _ =>
    ⟨False.elim, fun _ => untouched_start initial k⟩
  rcases explore_spec hbooks (fun _ _ => id) rfl with hwide | ⟨e, he, hbooks', hgrow⟩
  · exact Or.inl hwide
  · refine Or.inr ⟨e, he, ⟨(kept_start hinitial).grows hgrow (mem_states_start.2 rfl), ?_⟩,
      hgrow.busy ⟨rfl, rfl⟩, hgrow.reused⟩
    refine hbooks'.congr fun k _ => ?_
    rw [hgrow.automaton_eq, mem_states_start, false_or]

/-! ## The queries that wait -/

/-- All queries that wait are about the class. -/
theorem Sound.isOver (h : Sound s said initial e) {i : Nat} {q : Query}
    (hq : e.queue.items[i]? = some q) : q.IsOver s.set := by
  obtain ⟨hsource, hexp⟩ := h.books.explored hq
  obtain ⟨hasked, -⟩ := hexp.asked (mem_queuedAt_of_getElem? hq)
  have hactions := h.charted.mem_actions q.source hsource
  rcases hkind : q.kind with c | ⟨c, target⟩ | ⟨p, scope, tested⟩
  · exact Query.isOver_of_invariant hactions hkind
  · simp only [IsOpening, IsStep, hkind, false_or] at hasked
    exact Query.isOver_of_transition hactions hkind hasked.mem_actions
  · simp only [IsOpening, IsStep, hkind, or_false] at hasked
    exact Query.isOver_of_necessity hactions hkind hasked.2

/-- **The end of a run.**  When no query waits, all that was asked has an answer. -/
theorem Sound.complete (h : Sound s said initial e) (hempty : e.queue.items = []) :
    Complete s said initial e.automaton e.log := by
  refine ⟨h.charted, h.truthful, fun q => ?_⟩
  -- nothing waits any more, so what was asked about a pair is what has an answer
  have hqueued : e.queuedAt q.pair = [] := by
    rw [queuedAt, hempty]
    rfl
  by_cases hs : q.source ∈ e.automaton.states
  · rw [and_iff_right hs]
    rcases (h.books q.pair q.main_mem_source).1 hs with ⟨f, hw⟩ | hsch
    · have hpos := hw.remaining_pos
      rw [hw.remaining_eq, hqueued] at hpos
      simp at hpos
    · rw [← hsch.ledger.asked_iff q rfl, hqueued]
      simp [answerTo?]
  · have hu := (h.books q.pair q.main_mem_source).2 hs
    have hnone : e.answerTo? q = none := hu.ledger.answerTo?_of_not_asked rfl id
    simp only [hs, false_and, iff_false, not_not]
    exact hnone

end Exploration

namespace Setup

variable {s : Setup} {schedule : Schedule} {p p' : Progress}

/-! ## One question -/

/-- The queries that were asked and those that took a global answer are the ones that have an answer,
and none of them is listed twice. -/
structure Tally (p : Progress) (reused : List Query) : Prop where
  cachedAnswers_eq : p.exploration.cachedAnswers = reused.length
  nodup : (p.asked.toList ++ reused).Nodup
  reused_yes : ∀ q ∈ reused, ∃ p' t, q.kind = .necessity p' .atSource t ∧
    p.exploration.answerTo? q = some .yes
  mem_iff : ∀ q, q ∈ p.asked.toList ++ reused ↔ p.exploration.answerTo? q ≠ none

/-- What holds of a construction between two questions. -/
structure InOrder (s : Setup) (said : Query → Verdict → Prop) (initial : State) (p : Progress) :
    Prop where
  sound : Sound s.toSetting said initial p.exploration
  balanced : p.exploration.queue.Balanced
  tallied : ∃ reused, Tally p reused

/-- Before the first question only global answers can be there. -/
theorem Tally.start {e : Exploration} {program : Program} {queries : List Query}
    (h : Reused queries (start initial) e) : Tally ⟨e, program, #[]⟩ queries := by
  refine ⟨h.cachedAnswers_eq.trans (Nat.zero_add _), h.nodup, fun q hq => ?_, fun q => ?_⟩
  · obtain ⟨p, t, hkind⟩ := h.atSource q hq
    exact ⟨p, t, hkind, h.answered q hq⟩
  · show q ∈ queries ↔ e.answerTo? q ≠ none
    by_cases hq : q ∈ queries
    · simp [hq, h.answered q hq]
    · simp [hq, h.answerTo?_eq q hq, answerTo?_start]

/-- One more query is asked, and others take global answers on the way. -/
theorem Tally.ask {e e' : Exploration} {program program' : Program} {asked : Array Query}
    {reused queries : List Query} (h : Tally ⟨e, program, asked⟩ reused) {i : Nat} {q : Query}
    {run : VerifierRun} (hun : e.answerTo? q = none)
    (hreused : Reused queries (e.noted i q run) e') :
    Tally ⟨e', program', asked.push q⟩ (reused ++ queries) := by
  have hself : (e.noted i q run).answerTo? q ≠ none := by simp [answerTo?_noted]
  have hother : ∀ q', q' ≠ q → (e.noted i q run).answerTo? q' = e.answerTo? q' := fun q' hne => by
    rw [answerTo?_noted, if_neg hne]
  have hne : ∀ q' ∈ queries, q' ≠ q := by
    rintro q' hq' rfl
    exact hself (hreused.unanswered q' hq')
  -- neither the query nor those that take global answers had an answer before
  have hfresh : ∀ q', q' = q ∨ q' ∈ queries → q' ∉ asked.toList ++ reused := by
    rintro q' (rfl | hq') hm
    · exact (h.mem_iff q').1 hm hun
    · refine (h.mem_iff q').1 hm ?_
      exact (hother q' (hne q' hq')).symm.trans (hreused.unanswered q' hq')
  have hperm : ((asked.push q).toList ++ (reused ++ queries)).Perm
      ((q :: queries) ++ (asked.toList ++ reused)) := by
    rw [Array.toList_push, List.append_assoc, List.singleton_append, List.cons_append]
    refine List.perm_middle.trans (.cons q ?_)
    rw [← List.append_assoc]
    exact List.perm_append_comm
  refine ⟨?_, ?_, fun q' hq' => ?_, fun q' => ?_⟩
  · rw [hreused.cachedAnswers_eq, List.length_append]
    exact congrArg (· + queries.length) h.cachedAnswers_eq
  · rw [hperm.nodup_iff]
    refine List.nodup_append.2 ⟨?_, h.nodup, fun q₁ hq₁ q₂ hq₂ heq => ?_⟩
    · exact List.nodup_cons.2 ⟨fun hm => hne q hm rfl, hreused.nodup⟩
    · exact hfresh q₁ (List.mem_cons.1 hq₁) (heq ▸ hq₂)
  · rcases List.mem_append.1 hq' with hm | hm
    · obtain ⟨p', t, hkind, hyes⟩ := h.reused_yes q' hm
      have hold : q' ∈ asked.toList ++ reused := List.mem_append_right _ hm
      refine ⟨p', t, hkind, (hreused.answerTo?_eq q' fun hq => hfresh q' (Or.inr hq) hold).trans ?_⟩
      exact (hother q' fun heq => hfresh q' (Or.inl heq) hold).trans hyes
    · obtain ⟨p', t, hkind⟩ := hreused.atSource q' hm
      exact ⟨p', t, hkind, hreused.answered q' hm⟩
  · rw [hperm.mem_iff, List.mem_append, List.mem_cons, h.mem_iff]
    by_cases hm : q' ∈ queries
    · simp [hm, hreused.answered q' hm]
    · rw [hreused.answerTo?_eq q' hm]
      by_cases heq : q' = q
      · simp [heq, hself]
      · simp [heq, hm, hother q' heq]

/-- Why a run can fail: the verifier has no verdict on a query about the class, or an action has too
many candidate targets. -/
def Fails (s : Setup) (fault : ConstructionFault) : Prop :=
  (∃ n program q, q.IsOver s.set ∧ ∀ run, s.verifier n program q ≠ .ran run) ∨
    TooWide s.toSetting fault

/-- All verdicts that the verifier gives are said. -/
def Gives (s : Setup) (said : Query → Verdict → Prop) : Prop :=
  ∀ n program q run, s.verifier n program q = .ran run → said q run.verdict

/-- **One question.**  It fails, or leaves the construction in order. -/
theorem ask_spec (hgives : s.Gives said) (h : InOrder s said initial p) {i : Nat} {q : Query}
    {queue : WorkQueue Query} (ht : p.exploration.queue.takeAt i = (.item q, queue)) :
    (∃ failure, s.ask { p with exploration := { p.exploration with queue := queue } } q =
      .error failure ∧ s.Fails failure.fault) ∨
    ∃ p', s.ask { p with exploration := { p.exploration with queue := queue } } q = .ok p' ∧
      InOrder s said initial p' := by
  obtain ⟨hq, rfl⟩ := WorkQueue.takeAt_eq_item_iff.1 ht
  have hover := h.sound.isOver hq
  obtain ⟨exploration, program, asked⟩ := p
  unfold ask
  simp only
  split
  · next hcrash =>
    have hno : ∀ run, s.verifier asked.size
        (program.append q.name (q.procedureText s.set s.code)) q ≠ .ran run := by simp [hcrash]
    exact Or.inl ⟨_, rfl, Or.inl ⟨_, _, q, hover, hno⟩⟩
  · next fault hfault =>
    have hno : ∀ run, s.verifier asked.size
        (program.append q.name (q.procedureText s.set s.code)) q ≠ .ran run := by simp [hfault]
    exact Or.inl ⟨_, rfl, Or.inl ⟨_, _, q, hover, hno⟩⟩
  · next run hrun =>
    rcases settle_spec h.sound hq h.balanced (hgives _ _ _ _ hrun) with
      ⟨fault, hf, hwide⟩ | ⟨e', he', hsound, hbalanced, queries, hqueries⟩
    · rw [hf]
      exact Or.inl ⟨_, rfl, Or.inr hwide⟩
    · rw [he']
      obtain ⟨reused, htally⟩ := h.tallied
      have hun := ((h.sound.books.explored hq).2.asked (mem_queuedAt_of_getElem? hq)).2
      exact Or.inr ⟨_, rfl, hsound, hbalanced, _, htally.ask hun hqueries⟩

/-! ## All questions -/

/-- The position of the next query is in the queue unless the queue is empty. -/
theorem items_eq_nil_of_position (schedule : Schedule)
    (h : p.exploration.queue.items[position schedule p]? = none) :
    p.exploration.queue.items = [] := by
  rw [List.getElem?_eq_none_iff] at h
  unfold position at h
  simp only at h
  split at h
  · apply List.eq_nil_of_length_eq_zero
    omega
  · next hdrop =>
    rw [List.isEmpty_iff, List.drop_eq_nil_iff] at hdrop
    omega

/-- A run that finds a query asks about it and goes on. -/
theorem drain_of_item (hstop : ¬ s.isStopped p.asked.size = true) {q : Query}
    {queue : WorkQueue Query}
    (ht : p.exploration.queue.takeAt (position schedule p) = (.item q, queue)) :
    s.drain schedule p =
      s.ask { p with exploration := { p.exploration with queue := queue } } q >>=
        s.drain schedule := by
  rw [drain, if_neg hstop]
  split
  · next q' queue' ht' =>
    obtain ⟨hq, rfl⟩ := Prod.mk.inj (ht'.symm.trans ht)
    obtain rfl := Poll.item.inj hq
    split
    · next p' hask => rw [hask]; rfl
    · next failure hask => rw [hask]; rfl
  · next hno => exact absurd ht (hno q queue)

/-- A run that finds no query ends. -/
theorem drain_of_no_item (hstop : ¬ s.isStopped p.asked.size = true)
    (hno : ∀ q queue, p.exploration.queue.takeAt (position schedule p) ≠ (.item q, queue)) :
    s.drain schedule p = .ok p := by
  rw [drain, if_neg hstop]
  split
  · next q queue ht => exact absurd ht (hno q queue)
  · rfl

/-- **All questions.**  A run fails, is stopped or asks until no query waits. -/
theorem drain_spec (hgives : s.Gives said) (schedule : Schedule) (h : InOrder s said initial p) :
    (∃ failure, s.drain schedule p = .error failure ∧ s.Fails failure.fault) ∨
    ∃ p', s.drain schedule p = .ok p' ∧ InOrder s said initial p' ∧
      (s.stopAfter = none → p'.exploration.queue.items = []) := by
  -- the induction follows the run: it is stopped, asks and goes on, fails, or finds no query
  induction p using drain.induct s schedule with
  | case1 p hstop =>
    rw [drain, if_pos hstop]
    refine Or.inr ⟨p, rfl, h, fun hnone => ?_⟩
    simp [isStopped, hnone] at hstop
  | case2 p hstop q queue ht p' hask ih =>
    rw [drain_of_item hstop ht]
    rcases ask_spec hgives h ht with ⟨failure, hf, hfails⟩ | ⟨p₁, hp₁, hinOrder⟩
    · rw [hf]
      exact Or.inl ⟨failure, rfl, hfails⟩
    · rw [hp₁]
      obtain rfl : p₁ = p' := Except.ok.inj (hp₁.symm.trans hask)
      exact ih hinOrder
  | case3 p hstop q queue ht failure hask =>
    rw [drain_of_item hstop ht]
    rcases ask_spec hgives h ht with ⟨failure', hf, hfails⟩ | ⟨p₁, hp₁, -⟩
    · rw [hf]
      exact Or.inl ⟨failure', rfl, hfails⟩
    · rw [show s.ask _ q = .error failure from hask] at hp₁
      simp at hp₁
  | case4 p hstop hno =>
    refine Or.inr ⟨p, drain_of_no_item hstop hno, h, fun _ => ?_⟩
    apply items_eq_nil_of_position schedule
    cases hi : p.exploration.queue.items[position schedule p]? with
    | none => rfl
    | some q => exact absurd (WorkQueue.takeAt_eq_item_iff.2 ⟨hi, rfl⟩) (hno q _)

/-! ## A whole construction -/

/-- The construction is in order when the first question can be asked. -/
theorem begin_spec (said : Query → Verdict → Prop)
    (hinitial : ∀ a ∈ initial, a ∈ s.set.actions) :
    (∃ failure, s.begin initial = .error failure ∧
      (s.programFault ≠ none ∨ TooWide s.toSetting failure.fault)) ∨
    ∃ p, s.begin initial = .ok p ∧ InOrder s said initial p := by
  unfold begin
  rcases explore_start_spec (s := s.toSetting) said hinitial with
    ⟨fault, hf, hwide⟩ | ⟨e, he, hsound, hbusy, queries, hqueries⟩
  · rw [hf]
    exact Or.inl ⟨_, rfl, Or.inr hwide⟩
  · rw [he]
    cases hfault : s.programFault with
    | some reason => exact Or.inl ⟨_, rfl, Or.inl (by simp)⟩
    | none =>
      have hitems := e.queue.items_closeIfIdle
      exact Or.inr ⟨_, rfl, hsound.setQueue hitems, hbusy.closeIfIdle, _,
        .start (hqueries.trans (.nil rfl fun _ => rfl))⟩

/-- A construction has ended in order, and this is its result. -/
structure Finished (s : Setup) (said : Query → Verdict → Prop) (initial : State) (p : Progress)
    (r : Construction) : Prop where
  inOrder : InOrder s said initial p
  items_eq : p.exploration.queue.items = []
  result_eq : r = ⟨p.exploration.automaton, p.exploration.log, p.program, p.asked.toList,
    p.exploration.cachedAnswers⟩

theorem Finished.complete {r : Construction} (h : Finished s said initial p r) :
    Complete s.toSetting said initial r.automaton r.log := by
  rw [h.result_eq]
  exact h.inOrder.sound.complete h.items_eq

/-- Closing the books finds all queries done, unless the construction was stopped. -/
theorem finish_spec (h : InOrder s said initial p) :
    (∃ failure, finish p = .error failure ∧ p.exploration.queue.items ≠ []) ∨
    ∃ r, finish p = .ok r ∧ Finished s said initial p r := by
  unfold finish
  by_cases hempty : p.exploration.queue.items = []
  · -- both checks pass: nothing is outstanding, and no outcome is filed under a state never visited
    have hzero : p.exploration.queue.outstanding = 0 := by
      rw [h.balanced.outstanding_eq, hempty]
      rfl
    have hvisited : p.exploration.log.unvisited? = none := by
      rw [ResultLog.unvisited?, List.find?_eq_none]
      intro state hs
      simpa using h.sound.filed state hs
    rw [if_neg (by simp [hzero]), hvisited]
    exact Or.inr ⟨_, rfl, h, hempty, rfl⟩
  · have hpos : p.exploration.queue.outstanding ≠ 0 := by
      rw [h.balanced.outstanding_eq]
      simpa using hempty
    rw [if_pos hpos]
    exact Or.inl ⟨_, rfl, hempty⟩

/-- **A whole construction.**  It fails, is stopped, or ends in order with all queries settled. -/
theorem constructBy_spec (hgives : s.Gives said) (schedule : Schedule)
    (hinitial : ∀ a ∈ initial, a ∈ s.set.actions) :
    (∃ failure, s.constructBy schedule initial = .error failure ∧
      (s.programFault ≠ none ∨ s.stopAfter ≠ none ∨ s.Fails failure.fault)) ∨
    ∃ r, s.constructBy schedule initial = .ok r ∧ ∃ p, Finished s said initial p r := by
  unfold constructBy
  rcases begin_spec said hinitial with ⟨failure, hf, hcause⟩ | ⟨p, hp, hinOrder⟩
  · rw [hf]
    refine Or.inl ⟨failure, rfl, ?_⟩
    rcases hcause with hfault | hwide
    · exact Or.inl hfault
    · exact Or.inr (Or.inr (Or.inr hwide))
  · rw [hp]
    show (∃ failure, (s.drain schedule p >>= finish) = .error failure ∧ _) ∨
      ∃ r, (s.drain schedule p >>= finish) = .ok r ∧ _
    rcases drain_spec hgives schedule hinOrder with
      ⟨failure, hf, hfails⟩ | ⟨p', hp', hinOrder', hempty⟩
    · rw [hf]
      exact Or.inl ⟨failure, rfl, Or.inr (Or.inr hfails)⟩
    · rw [hp']
      rcases finish_spec hinOrder' with ⟨failure, hf, hwaits⟩ | hr
      · exact Or.inl ⟨failure, hf, Or.inr (Or.inl fun hnone => hwaits (hempty hnone))⟩
      · obtain ⟨r, hr, hfinished⟩ := hr
        exact Or.inr ⟨r, hr, p', hfinished⟩

/-- A construction that gives a result has ended in order. -/
theorem exists_finished_of_constructBy (hgives : s.Gives said)
    (hinitial : ∀ a ∈ initial, a ∈ s.set.actions) {r : Construction}
    (h : s.constructBy schedule initial = .ok r) : ∃ p, Finished s said initial p r := by
  rcases constructBy_spec hgives schedule hinitial with ⟨failure, hf, -⟩ | ⟨r', hr', hfinished⟩
  · rw [hf] at h
    simp at h
  · obtain rfl := Except.ok.inj (hr'.symm.trans h)
    exact hfinished

/-- A finished construction is complete. -/
theorem complete_of_constructBy (hgives : s.Gives said)
    (hinitial : ∀ a ∈ initial, a ∈ s.set.actions) {r : Construction}
    (h : s.constructBy schedule initial = .ok r) :
    Complete s.toSetting said initial r.automaton r.log := by
  obtain ⟨p, hfinished⟩ := exists_finished_of_constructBy hgives hinitial h
  exact hfinished.complete

/-- A construction finishes if nothing stands in its way. -/
theorem exists_constructBy (schedule : Schedule) (hinitial : ∀ a ∈ initial, a ∈ s.set.actions)
    (hruns : ∀ n program q, q.IsOver s.set → ∃ run, s.verifier n program q = .ran run)
    (hbound : s.set.size ≤ SortedSet.subsetBound s.bound) (hstop : s.stopAfter = none)
    (hprogram : s.programFault = none) : ∃ r, s.constructBy schedule initial = .ok r := by
  have hgives : s.Gives fun _ _ => True := fun _ _ _ _ _ => trivial
  rcases constructBy_spec hgives schedule hinitial with
    ⟨failure, -, hp | hs | ⟨n, program, q, hover, hno⟩ | hwide⟩ | ⟨r, hr, -⟩
  · exact absurd hprogram hp
  · exact absurd hstop hs
  · obtain ⟨run, hrun⟩ := hruns n program q hover
    exact absurd hrun (hno run)
  · exact absurd hwide (not_tooWide hbound _)
  · exact ⟨r, hr⟩

end Setup

end Enabledness
