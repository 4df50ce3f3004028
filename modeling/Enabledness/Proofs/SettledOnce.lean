import Enabledness.Proofs.AnyOrder
import Enabledness.Proofs.Questions
import Enabledness.Proofs.ScheduleIndependence

/-!
# Every question is settled once

A finished construction has asked no query twice, and what it asked, together with what it took from the
global table, is all that there is to ask about its states.

* `ResultLog.Owned` : every slot of the log that is not empty belongs to a query.
* `ResultLog.Borrowed` : an outcome of a query that was not asked is a YES of the global table.
* `settle_cases`, `settle_log` : how settling a query changes the automaton and the log; both properties
  are kept by every such change.
* `constructBy_settles_once` : the queries that were asked or took a global YES are those that there are,
  the log has outcomes for these alone, and their number is known.
-/

namespace Enabledness

open Exploration

/-! ## Where outcomes come from -/

namespace ResultLog

/-- Every slot that is not empty belongs to a query. -/
def Owned (l : ResultLog) : Prop :=
  ∀ place? main kind, l.slot? place? main kind ≠ none →
    ∃ q : Query, q.place? = place? ∧ q.main = main ∧ q.kind.unscoped = kind.unscoped

/-- An outcome of a query that was not asked is a YES of the global table. -/
def Borrowed (asked : List Query) (l : ResultLog) : Prop :=
  ∀ (q : Query) (o : Outcome), l.outcome? q.source q.main q.kind = some o → q ∉ asked →
    ∃ p t, q.kind = .necessity p .atSource t ∧ l.globalOutcome? q.main t p = some o ∧ o.answer = .yes

variable {l l' : ResultLog} {asked : List Query} {q : Query} {o : Outcome}

theorem Owned.store (h : Owned l) (q : Query) (o : Outcome) : Owned (l.store q o) := by
  intro place? main kind hslot
  rw [slot?_store] at hslot
  split at hslot
  · next hq =>
    obtain ⟨rfl, rfl, hkind⟩ := hq
    exact ⟨q, rfl, rfl, hkind.symm⟩
  · exact h place? main kind hslot

theorem Owned.recordEnqueued (h : Owned l) (t : Transition) : Owned (l.recordEnqueued t) := by
  intro place? main kind hslot
  rw [slot?_recordEnqueued] at hslot
  exact h place? main kind hslot

theorem Owned.copied {source : State} (h : Owned l) (hcopied : Copied source l l') : Owned l' := by
  induction hcopied with
  | refl => exact h
  | copy _ _ _ _ _ ih => exact ih (h.store _ _)

/-- Storing a local outcome leaves the global table as it is. -/
theorem globalOutcome?_store (l : ResultLog) (q : Query) (o : Outcome) (main tested : Action)
    (p : Polarity) :
    (l.store q o).globalOutcome? main tested p =
      if q.kind = .necessity p .global tested ∧ main = q.main then some o
      else l.globalOutcome? main tested p := by
  have hquestion : (.necessity p .global tested = q.kind ∧ main = q.main ∧
      (q.isGlobal = true ∨ q.source = q.source)) ↔
      q.kind = .necessity p .global tested ∧ main = q.main := by
    constructor
    · rintro ⟨hk, hm, -⟩
      exact ⟨hk.symm, hm⟩
    · rintro ⟨hk, hm⟩
      exact ⟨hk.symm, hm, Or.inr rfl⟩
  rw [← outcome?_global _ q.source, ← outcome?_global _ q.source, outcome?_store]
  exact if_congr hquestion rfl rfl

/-- A query that is asked for the first time does not lend its outcome to others. -/
theorem Borrowed.store (h : Borrowed asked l) (hnew : l.outcome? q.source q.main q.kind = none)
    (o : Outcome) : Borrowed (asked ++ [q]) (l.store q o) := by
  intro q' o' ho hq'
  rw [List.mem_append, List.mem_singleton, not_or] at hq'
  rw [outcome?_store_query, if_neg hq'.2] at ho
  obtain ⟨p, t, hkind, hglobal, hyes⟩ := h q' o' ho hq'.1
  refine ⟨p, t, hkind, ?_, hyes⟩
  rw [globalOutcome?_store, if_neg]
  · exact hglobal
  · rintro ⟨hk, hm⟩
    rw [hk, outcome?_global, ← hm, hglobal] at hnew
    simp at hnew

theorem Borrowed.recordEnqueued (h : Borrowed asked l) (t : Transition) :
    Borrowed asked (l.recordEnqueued t) := by
  intro q o ho hq
  rw [outcome?_recordEnqueued] at ho
  obtain ⟨p, t', hkind, hglobal, hyes⟩ := h q o ho hq
  refine ⟨p, t', hkind, ?_, hyes⟩
  rw [← outcome?_global _ q.source, outcome?_recordEnqueued, outcome?_global, hglobal]

/-- A copy of a global YES is one. -/
theorem Borrowed.copied {source : State} (h : Borrowed asked l) (hcopied : Copied source l l') :
    Borrowed asked l' := by
  induction hcopied with
  | refl => exact h
  | @copy l l' q p t o _ hkind hglobal hyes _ ih =>
    apply ih
    -- the copy is not in the global table
    have hsame : ∀ main t' p', (l.store q o).globalOutcome? main t' p' = l.globalOutcome? main t' p' := by
      intro main t' p'
      rw [globalOutcome?_store, if_neg (by simp [hkind])]
    intro q' o' ho hq'
    rw [outcome?_store_query] at ho
    split at ho
    · next heq =>
      obtain rfl := Option.some.inj ho
      rw [heq]
      exact ⟨p, t, hkind, (hsame _ _ _).trans hglobal, hyes⟩
    · obtain ⟨p', t', hkind', hglobal', hyes'⟩ := h q' o' ho hq'
      exact ⟨p', t', hkind', (hsame _ _ _).trans hglobal', hyes'⟩

end ResultLog

/-! ## How the log changes -/

namespace Exploration

variable {s : Setting} {e e' : Exploration} {state : State} {main : Action}

theorem eq_of_askAbout {kind : QueryKind} {q : Query} (h : askAbout state main kind = .ok q) :
    q.source = state ∧ q.main = main ∧ q.kind = kind := by
  unfold askAbout Query.make at h
  split at h
  · next hm =>
    split at hm
    · obtain rfl := Except.ok.inj hm
      obtain rfl := Except.ok.inj h
      exact ⟨rfl, rfl, rfl⟩
    · simp at hm
  · simp at h

/-- Going through the necessity questions copies global outcomes. -/
theorem copied_gather {l : List (Action × Polarity)} {facts facts' : Facts} {toAsk toAsk' : List Query}
    (h : gather state main l e facts toAsk = .ok (e', facts', toAsk')) :
    Copied state e.log e'.log := by
  induction l generalizing e facts toAsk with
  | nil =>
    simp only [gather, Except.ok.injEq, Prod.mk.injEq] at h
    obtain ⟨rfl, -⟩ := h
    exact .refl _
  | cons x l ih =>
    obtain ⟨tested, polarity⟩ := x
    rw [gather] at h
    cases hq : askAbout state main (.necessity polarity (scopeOf state) tested) with
    | error fault => simp [hq, bind, Except.bind] at h
    | ok q =>
      obtain ⟨hsource, -, hkind⟩ := eq_of_askAbout hq
      simp only [hq, bind, Except.bind] at h
      split at h
      · next answer log hreuse =>
        have hcopied : Copied state e.log log := by
          by_cases hglobal : q.isGlobal = true
          · rw [ResultLog.reuseGlobal_of_isGlobal _ hglobal] at hreuse
            exact (Prod.mk.inj hreuse).2 ▸ .refl _
          · have hscope : q.kind = .necessity polarity .atSource tested := by
              rw [Query.isGlobal_eq, hkind] at hglobal
              cases hs : scopeOf state with
              | atSource => rw [hkind, hs]
              | global => simp [hs, QueryKind.isGlobal] at hglobal
            rcases ResultLog.reuseGlobal_of_atSource e.log hscope with ⟨o, ho, hyes, hr⟩ | ⟨-, hr⟩
            · rw [hr] at hreuse
              rw [← (Prod.mk.inj hreuse).2]
              exact .copy hsource hscope ho hyes (.refl _)
            · rw [hr] at hreuse
              simp at hreuse
        exact hcopied.trans (ih h)
      · exact ih h

theorem log_schedule {facts : Facts} (h : e.schedule s state main facts = .ok e') : e'.log = e.log := by
  unfold schedule at h
  split at h
  · simp at h
  · next targets _ =>
    cases hq : targets.mapM (transitionQueries state main) with
    | error fault => simp [hq, bind, Except.bind] at h
    | ok queries =>
      simp only [hq, bind, Except.bind, pure, Except.pure, Except.ok.injEq] at h
      subst h
      rfl

theorem copied_explorePair (h : explorePair s state e main = .ok e') : Copied state e.log e'.log := by
  unfold explorePair at h
  cases hi : invariantQueries state main with
  | error fault => simp [hi, bind, Except.bind] at h
  | ok invariants =>
    simp only [hi, bind, Except.bind] at h
    split at h
    · simp at h
    · next r hr =>
      obtain ⟨e₁, facts, toAsk⟩ := r
      have hcopied : Copied state (e.enqueue invariants).log e₁.log := copied_gather hr
      simp only at h
      split at h
      · rwa [log_schedule h]
      · simp only [pure, Except.pure, Except.ok.injEq] at h
        subst h
        exact hcopied

/-- Exploring a state copies global outcomes to it. -/
theorem copied_explore (h : e.explore s state = .ok e') : Copied state e.log e'.log :=
  explore_induction (P := fun e' => Copied state e.log e'.log)
    (fun _ _ _ _ ha hcopied => hcopied.trans (copied_explorePair ha)) h (.refl _)

/-- **What settling a query does** to the automaton and the log.  The outcome is stored, and at most a
transition between known states is added; or the query discovers its target, which is noted, and global
outcomes are copied to the new state. -/
theorem settle_cases {q : Query} {run : VerifierRun} (h : e.settle s q run = .ok e') :
    (e'.log = e.log.record q run ∧ (e'.automaton = e.automaton ∨
      ∃ t, t.source = q.source ∧ e.automaton.isDiscovery t = false ∧
        e'.automaton = e.automaton.addTransition t)) ∨
    ∃ c target existence, q.kind = .transition c target ∧
      existence? (q.answer run.verdict) = some existence ∧
      e.automaton.isDiscovery ⟨q.source, target, q.main, existence⟩ = true ∧
      e'.automaton = e.automaton.addTransition ⟨q.source, target, q.main, existence⟩ ∧
      Copied target ((e.log.record q run).recordEnqueued ⟨q.source, target, q.main, existence⟩) e'.log := by
  unfold settle at h
  cases ha : onAnswer s { e with log := e.log.record q run } q (q.answer run.verdict) with
  | error fault => simp [ha, bind, Except.bind] at h
  | ok e₁ =>
    simp only [ha, bind, Except.bind, pure, Except.pure, Except.ok.injEq] at h
    obtain rfl := h
    unfold onAnswer at ha
    split at ha
    · obtain rfl := Except.ok.inj ha
      exact Or.inl ⟨rfl, Or.inl rfl⟩
    · next c target hkind =>
      split at ha
      · next existence hex =>
        unfold discover at ha
        simp only at ha
        split at ha
        · next hnew =>
          exact Or.inr ⟨c, target, existence, hkind, hex, hnew, (sameReach_explore ha).1,
            copied_explore ha⟩
        · next hknown =>
          obtain rfl := Except.ok.inj ha
          exact Or.inl ⟨rfl, Or.inr ⟨_, rfl, Bool.eq_false_iff.2 hknown, rfl⟩⟩
      · obtain rfl := Except.ok.inj ha
        exact Or.inl ⟨rfl, Or.inl rfl⟩
    · unfold resolve at ha
      split at ha
      · simp at ha
      · simp only at ha
        split at ha
        · exact Or.inl ⟨log_schedule ha, Or.inl (sameReach_schedule ha).1⟩
        · obtain rfl := Except.ok.inj ha
          exact Or.inl ⟨rfl, Or.inl rfl⟩

/-- How the log changes when a query is settled: its outcome is stored, maybe a discovery is noted, and
then global outcomes are copied to the new state. -/
theorem settle_log {q : Query} {run : VerifierRun} (h : e.settle s q run = .ok e') :
    ∃ (state : State) (l : ResultLog), Copied state l e'.log ∧
      (l = e.log.record q run ∨ ∃ t, l = (e.log.record q run).recordEnqueued t) := by
  rcases settle_cases h with ⟨hlog, -⟩ | ⟨c, target, existence, -, -, -, -, hcopied⟩
  · exact ⟨q.source, _, hlog ▸ .refl _, Or.inl rfl⟩
  · exact ⟨target, _, hcopied, Or.inr ⟨_, rfl⟩⟩

/-- Necessities are asked of all states with a main action if the state that is explored has no other. -/
theorem scope_iff_of_asked {l : ResultLog} {q : Query} {p : Polarity} {scope : Scope} {t : Action}
    (h : IsOpening s q ∨ IsStep s l q) (hkind : q.kind = .necessity p scope t) :
    scope = .global ↔ q.source.size = 1 := by
  rcases h with h | h
  · simp only [IsOpening, hkind] at h
    rw [h.1, scopeOf]
    split
    · next hsize => simp [hsize]
    · next hsize => simp [hsize]
  · simp [IsStep, hkind] at h

end Exploration

/-! ## A whole construction -/

namespace Setup

variable {s : Setup} {initial : State} {p : Progress}

theorem owned_start (initial : State) : ResultLog.Owned (start initial).log := by
  intro place? main kind hslot
  cases place? with
  | _ => exact absurd rfl hslot

theorem borrowed_start (asked : List Query) (initial : State) :
    ResultLog.Borrowed asked (start initial).log := by
  intro q o ho
  rw [show (start initial).log.outcome? q.source q.main q.kind = none from
    ResultLog.outcome?_empty q.source q.main q.kind] at ho
  simp at ho

/-- **Where the outcomes of a construction come from**, whatever the order of its questions. -/
theorem Reaches.owned_and_borrowed (hinitial : ∀ a ∈ initial, a ∈ s.set.actions)
    (h : s.Reaches initial p) :
    p.exploration.log.Owned ∧ p.exploration.log.Borrowed p.asked.toList := by
  have hgives : s.Gives fun _ _ => True := fun _ _ _ _ _ => trivial
  refine h.induction (P := fun p => p.exploration.log.Owned ∧
    p.exploration.log.Borrowed p.asked.toList) (fun p hp => ?_) fun p p' hreaches ih hstep => ?_
  · obtain ⟨e, he, hexploration, hasked⟩ := exists_explore_of_begin hp
    have hcopied := copied_explore he
    rw [hexploration, hasked]
    exact ⟨(owned_start initial).copied hcopied, (borrowed_start [] initial).copied hcopied⟩
  · obtain ⟨howned, hborrowed⟩ := ih
    obtain ⟨i, q, run, hq, hsettle, hasked⟩ := hstep.exists_settle
    obtain ⟨state, l, hcopied, hl⟩ := settle_log hsettle
    -- the query waits, so that it has no outcome yet
    have hnew : p.exploration.log.outcome? q.source q.main q.kind = none := by
      have hsound := (hreaches.inOrder hgives hinitial).sound
      have hnone := ((hsound.books.explored hq).2.asked (mem_queuedAt_of_getElem? hq)).2
      exact Option.map_eq_none_iff.1 hnone
    have hstored := howned.store q ⟨q.answer run.verdict, run⟩
    have hstored' := hborrowed.store hnew ⟨q.answer run.verdict, run⟩
    rw [hasked, Array.toList_push]
    rcases hl with rfl | ⟨t, rfl⟩
    · exact ⟨hstored.copied hcopied, hstored'.copied hcopied⟩
    · exact ⟨(hstored.recordEnqueued t).copied hcopied, (hstored'.recordEnqueued t).copied hcopied⟩

end Setup

/-- **Every question is settled once.**  Let a construction give a result, in whatever order it asked its
queries.  Then for some queries that it did not ask,

* none of these and of the queries that it asked is there twice;
* together they are the invariant and necessity queries of all actions of all states, and the transition
  queries to all candidate targets;
* a necessity query is global if its state has one action, and about its state otherwise;
* each of the queries that it did not ask is about one state, and has as outcome a YES of the global
  table;
* the log has outcomes for all these queries, each in its place, and for nothing else;
* their number is known: two invariant queries for each action of each state, two necessity queries for
  each other action of the class, and two transition queries for each choice of the actions that are
  branched over. -/
theorem constructBy_settles_once {s : Setup} {schedule : Schedule} {initial : State} {r : Construction}
    (hinitial : ∀ a ∈ initial, a ∈ s.set.actions) (h : s.constructBy schedule initial = .ok r) :
    ∃ reused : List Query,
      (r.asked ++ reused).Nodup ∧
      (∀ q, q ∈ r.asked ++ reused ↔ q.source ∈ r.automaton.states ∧
        (IsOpening s.toSetting q ∨ IsStep s.toSetting r.log q)) ∧
      (∀ q ∈ r.asked ++ reused, ∀ p scope t, q.kind = .necessity p scope t →
        (scope = .global ↔ q.source.size = 1)) ∧
      (∀ q ∈ reused, ∃ p t o, q.kind = .necessity p .atSource t ∧
        r.log.outcome? q.source q.main q.kind = some o ∧
        r.log.globalOutcome? q.main t p = some o ∧ o.answer = .yes) ∧
      (∀ place? main kind, r.log.slot? place? main kind ≠ none ↔ ∃ q ∈ r.asked ++ reused,
        q.place? = place? ∧ q.main = main ∧ q.kind.unscoped = kind.unscoped) ∧
      r.cachedAnswers = reused.length ∧
      r.asked.length + r.cachedAnswers = (r.automaton.states.toList.map fun source =>
        (source.toList.map fun main => 2 + 2 * (s.set.size - 1) + 2 * 2 ^
          (freeActions s.toSetting main (factsOf s.toSetting r.log source main)).size).sum).sum := by
  have hgives : s.Gives fun _ _ => True := fun _ _ _ _ _ => trivial
  obtain ⟨p, hreaches, hfinished⟩ := Setup.exists_reaches_of_constructBy hgives hinitial h
  obtain ⟨howned, hborrowed⟩ := hreaches.owned_and_borrowed hinitial
  obtain ⟨reused, htally⟩ := hfinished.inOrder.tallied
  have hcomplete := hfinished.complete
  obtain rfl := hfinished.result_eq
  have hmem : ∀ q, q ∈ p.asked.toList ++ reused ↔ q.source ∈ p.exploration.automaton.states ∧
      (IsOpening s.toSetting q ∨ IsStep s.toSetting p.exploration.log q) := fun q =>
    (htally.mem_iff q).trans (hcomplete.answered_iff q)
  refine ⟨reused, htally.nodup, hmem, fun q hq _ _ _ hkind => ?_, fun q hq => ?_,
    fun place? main kind => ?_, htally.cachedAnswers_eq, ?_⟩
  · exact scope_iff_of_asked ((hmem q).1 hq).2 hkind
  · -- what was not asked and has an outcome took it from the global table
    obtain ⟨-, -, -, hyes⟩ := htally.reused_yes q hq
    obtain ⟨o, ho, -⟩ := Option.map_eq_some_iff.1 hyes
    have hnot : q ∉ p.asked.toList := fun hasked =>
      (List.nodup_append.1 htally.nodup).2.2 q hasked q hq rfl
    obtain ⟨p', t, hkind, hglobal, ho'⟩ := hborrowed q o ho hnot
    exact ⟨p', t, o, hkind, ho, hglobal, ho'⟩
  · have hslot : ∀ q : Query, q ∈ p.asked.toList ++ reused ↔
        p.exploration.log.outcome? q.source q.main q.kind ≠ none := fun q =>
      (htally.mem_iff q).trans (not_congr Option.map_eq_none_iff)
    constructor
    · intro hne
      obtain ⟨q, hplace, hmain, hkind⟩ := howned place? main kind hne
      refine ⟨q, (hslot q).2 ?_, hplace, hmain, hkind⟩
      rwa [← ResultLog.slot?_eq_outcome? _ hplace hmain hkind]
    · rintro ⟨q, hq, hplace, hmain, hkind⟩
      rw [ResultLog.slot?_eq_outcome? _ hplace hmain hkind]
      exact (hslot q).1 hq
  · have hlength := length_eq_of_asked p.exploration.automaton.states.nodup
      hcomplete.charted.mem_actions htally.nodup hmem
    rw [← hlength, List.length_append]
    exact congrArg (p.asked.toList.length + ·) htally.cachedAnswers_eq

/-- The lamp whose necessities are all proven: 46 queries are asked and two take a global answer, which
makes 12 for each of the four pairs. -/
theorem constructBy_settles_once_lamp : ∃ r, lampProven.constructBy .fifo lampOff = .ok r ∧
    r.asked.length = 46 ∧ ∃ reused : List Query, reused.length = 2 ∧ (r.asked ++ reused).Nodup ∧
      (r.automaton.states.toList.map fun source => (source.toList.map fun main =>
        2 + 2 * (lampProven.set.size - 1) + 2 * 2 ^ (freeActions lampProven.toSetting main
          (factsOf lampProven.toSetting r.log source main)).size).sum).sum = 48 := by
  have hinitial : ∀ a ∈ lampOff, a ∈ lampProven.set.actions := fun a ha =>
    (SortedSet.mem_filter.1 ha).1
  have heval : ((lampProven.begin lampOff).toOption.any fun p₀ => (lampProven.askOldest 46 p₀).any
      fun p => p.exploration.queue.items.isEmpty && p.asked.size == 46 &&
        p.exploration.cachedAnswers == 2) = true := by
    decide +kernel
  obtain ⟨p₀, hbegin, heval⟩ := Setup.exists_begin_of_any heval
  obtain ⟨p, hask, heval⟩ := (Option.any_eq_true _ _).1 heval
  simp only [Bool.and_eq_true, List.isEmpty_iff, beq_iff_eq] at heval
  obtain ⟨⟨hitems, hsize⟩, hcached⟩ := heval
  have hgives : lampProven.Gives fun _ _ => True := fun _ _ _ _ _ => trivial
  obtain ⟨r, hr, hfinished⟩ :=
    Setup.exists_constructBy_of_askOldest hgives hinitial rfl hbegin hask hitems
  have hasked : r.asked.length = 46 := by rw [hfinished.result_eq, Array.length_toList, hsize]
  have hcached : r.cachedAnswers = 2 := by rw [hfinished.result_eq, hcached]
  obtain ⟨reused, hnodup, -, -, -, -, hreused, hcount⟩ := constructBy_settles_once hinitial hr
  rw [hcached] at hreused
  rw [hasked, hcached] at hcount
  exact ⟨r, hr, hasked, reused, hreused.symm, hnodup, hcount.symm⟩

end Enabledness
