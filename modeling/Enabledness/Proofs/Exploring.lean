import Mathlib.Tactic.Tauto
import Enabledness.Proofs.Books

/-!
# Exploring keeps the books

What the operations of an exploration do to the books of a pair.

* `Scheduled.of_candidates` : once the facts of a pair are complete, asking about the candidates
  brings it to its last phase.
* `exists_gathered` : going through the necessity questions copies global outcomes and leaves the rest to
  be asked.
* `Reused` : which queries were answered by such copies; each counts as one cached answer.
* `explorePair_spec`, `explore_spec` : exploring a state takes each of its pairs from `Untouched` to
  `Explored`, and can fail only because there are too many candidates (`TooWide`).
-/

namespace Enabledness

namespace Exploration

variable {s : Setting}

/-- The fault of an action that has too many candidate targets. -/
def TooWide (s : Setting) (fault : ConstructionFault) : Prop :=
  ∃ main facts refusal, candidates s main facts = .error refusal ∧ fault = .candidates refusal

/-- A class within the bound has no such action. -/
theorem not_tooWide (hbound : s.set.size ≤ SortedSet.subsetBound s.bound)
    (fault : ConstructionFault) : ¬ TooWide s fault := by
  rintro ⟨main, facts, refusal, h, -⟩
  obtain ⟨targets, ht⟩ := exists_candidates hbound main facts
  rw [ht] at h
  simp at h

/-! ## Asking about the candidates -/

/-- Both transition queries to each target. -/
def stepQueries {source : State} {main : Action} (h : main ∈ source) (targets : List State) :
    List Query :=
  targets.flatMap fun target =>
    [⟨source, main, .transition .normal target, faultless_transition h _ _⟩,
      ⟨source, main, .transition .exceptional target, faultless_transition h _ _⟩]

theorem mem_stepQueries {source : State} {main : Action} (h : main ∈ source) {targets : List State}
    {q : Query} :
    q ∈ stepQueries h targets ↔
      q.pair = (source, main) ∧ ∃ c, ∃ target ∈ targets, q.kind = .transition c target := by
  unfold stepQueries
  rw [List.mem_flatMap]
  constructor
  · rintro ⟨target, ht, hq⟩
    rcases List.mem_cons.1 hq with rfl | hq
    · exact ⟨rfl, .normal, target, ht, rfl⟩
    · obtain rfl := List.mem_singleton.1 hq
      exact ⟨rfl, .exceptional, target, ht, rfl⟩
  · rintro ⟨hp, c, target, ht, hk⟩
    refine ⟨target, ht, ?_⟩
    have hs : q.source = source := congrArg Prod.fst hp
    have hm : q.main = main := congrArg Prod.snd hp
    cases c with
    | normal => exact List.mem_cons.2 (Or.inl (Query.ext_of hs hm hk))
    | exceptional =>
      refine List.mem_cons.2 (Or.inr (List.mem_singleton.2 ?_))
      exact Query.ext_of hs hm hk

theorem nodup_stepQueries {source : State} {main : Action} (h : main ∈ source)
    {targets : List State} (hn : targets.Nodup) : (stepQueries h targets).Nodup := by
  refine List.nodup_flatMap.2 ⟨fun target _ => ?_, hn.imp fun {t t'} hne => ?_⟩
  · simp
  · show List.Disjoint _ _
    rw [List.disjoint_left]
    intro q hq hq'
    simp only [List.mem_cons, List.not_mem_nil, or_false] at hq hq'
    rcases hq with rfl | rfl <;> simp [hne] at hq'

/-- The transition queries of an enabled main action are never refused. -/
theorem exists_mapM_transitionQueries {source : State} {main : Action} (h : main ∈ source)
    (targets : List State) : ∃ queries,
    targets.mapM (transitionQueries source main) = .ok queries ∧
      queries.flatten = stepQueries h targets := by
  have hboth : transitionQueries source main = fun target =>
      .ok [⟨source, main, .transition .normal target, faultless_transition h _ _⟩,
        ⟨source, main, .transition .exceptional target, faultless_transition h _ _⟩] := by
    funext target
    unfold transitionQueries
    rw [List.mapM_cons, List.mapM_cons, askAbout_of_faultless (faultless_transition h _ _),
      askAbout_of_faultless (faultless_transition h _ _)]
    rfl
  rw [hboth]
  exact ⟨_, List.mapM_pure, rfl⟩

theorem schedule_eq (e : Exploration) {source : State} {main : Action} (h : main ∈ source)
    (facts : Facts) :
    e.schedule s source main facts =
      match candidates s main facts with
      | .error refusal => .error (.candidates refusal)
      | .ok targets => .ok (e.enqueue (stepQueries h targets)) := by
  unfold schedule
  cases candidates s main facts with
  | error refusal => rfl
  | ok targets =>
    obtain ⟨queries, hq, hflat⟩ := exists_mapM_transitionQueries h targets
    show (targets.mapM (transitionQueries source main) >>= _) = .ok (e.enqueue (stepQueries h targets))
    rw [hq, ← hflat]
    rfl

/-- **The last phase of a pair.**  When no necessity answer is due any more, asking about the targets
that agree with the facts makes the pair `Scheduled`. -/
theorem Scheduled.of_candidates {k : State × Action} {e : Exploration} {facts : Facts}
    {targets : List State} (hk : k.2 ∈ k.1) (ho : e.queue.closed = false)
    (hpending : e.pending.get? k = none) (hledger : Ledger k (IsOpening s) e)
    (hsettled : ∀ q ∈ e.queuedAt k, q.isNecessity = false)
    (hfacts : ∀ t ∈ s.set.actions, t ≠ k.2 → ∀ p,
      facts.answer? p t = necessityAnswer? e.log k.1 k.2 p t)
    (hc : candidates s k.2 facts = .ok targets) :
    Scheduled s k (e.enqueue (stepQueries hk targets)) := by
  have hpair : ∀ q ∈ stepQueries hk targets, q.pair = k := fun q hq =>
    ((mem_stepQueries hk).1 hq).1
  -- the facts agree with the log, so the targets are the candidates according to the log
  have hstep : ∀ q : Query, q.pair = k →
      (q ∈ stepQueries hk targets ↔ IsStep s e.log q) := by
    intro q hq
    have hs : q.source = k.1 := congrArg Prod.fst hq
    have hm : q.main = k.2 := congrArg Prod.snd hq
    rw [mem_stepQueries, and_iff_right hq]
    unfold IsStep
    rcases hkind : q.kind with c | ⟨c, target⟩ | ⟨p, scope, t⟩
    · simp
    · simp only [QueryKind.transition.injEq, hs, hm]
      constructor
      · rintro ⟨c', t', ht', -, rfl⟩
        exact ((mem_candidates_iff hc).1 ht').congr fun t ht hne p => (hfacts t ht hne p).symm
      · intro hcand
        exact ⟨c, target, (mem_candidates_iff hc).2 (hcand.congr hfacts), rfl, rfl⟩
    · simp
  have hnew : ∀ q ∈ stepQueries hk targets, ¬ IsOpening s q := by
    intro q hq
    obtain ⟨-, c, target, -, hkind⟩ := (mem_stepQueries hk).1 hq
    simp [IsOpening, hkind]
  refine ⟨hpending, ?_, fun q hq => ?_⟩
  · refine (hledger.enqueue ho hpair (nodup_stepQueries hk (nodup_candidates hc)) hnew).congr ?_
    exact fun q hq => or_congr Iff.rfl (hstep q hq)
  · rw [queuedAt_enqueue ho] at hq
    rcases List.mem_append.1 hq with hq | hq
    · exact hsettled q hq
    · obtain ⟨-, c, target, -, hkind⟩ := (mem_stepQueries hk).1 (List.mem_filter.1 hq).1
      simp [Query.isNecessity, Query.tested?, hkind]

/-- **The middle phase of a pair.**  When the necessity questions without an answer are asked, and
their number is noted, the pair is `Waiting`. -/
theorem Waiting.of_enqueue {k : State × Action} {e : Exploration} {facts : Facts}
    {toAsk : List Query} (ho : e.queue.closed = false)
    (hpending : e.pending.get? k = some { facts with remaining := toAsk.length })
    (hledger : Ledger k (fun q => IsOpening s q ∧ ¬ q ∈ toAsk) e)
    (hsettled : ∀ q ∈ e.queuedAt k, q.isNecessity = false) (hne : toAsk ≠ [])
    (hnodup : toAsk.Nodup) (hpair : ∀ q ∈ toAsk, q.pair = k)
    (hopening : ∀ q ∈ toAsk, q.isNecessity = true ∧ IsOpening s q)
    (hfacts : ∀ t ∈ s.set.actions, t ≠ k.2 → ∀ p,
      facts.answer? p t = necessityAnswer? e.log k.1 k.2 p t) :
    Waiting s k { facts with remaining := toAsk.length } (e.enqueue toAsk) := by
  have hfilter : (toAsk.filter fun q => q.pair = k) = toAsk :=
    List.filter_eq_self.2 fun q hq => decide_eq_true (hpair q hq)
  refine ⟨hpending, ?_, ?_, List.length_pos_iff.2 hne, hfacts⟩
  · refine (hledger.enqueue ho hpair hnodup (fun q hq hm => hm.2 hq)).congr fun q _ => ?_
    by_cases hm : q ∈ toAsk
    · simp [hm, (hopening q hm).2]
    · simp [hm]
  · -- only the new queries are necessity queries
    have hold : (e.queuedAt k).countP Query.isNecessity = 0 :=
      List.countP_eq_zero.2 fun q hq => by simp [hsettled q hq]
    have hnew : toAsk.countP Query.isNecessity = toAsk.length :=
      List.countP_eq_length.2 fun q hq => (hopening q hq).1
    rw [queuedAt_enqueue ho, hfilter, List.countP_append, hold, hnew, Nat.zero_add]

/-! ## Going through the necessity questions -/

/-- A log after global YES outcomes were copied to necessity queries of a state. -/
inductive Copied (source : State) : ResultLog → ResultLog → Prop
  /-- Nothing was copied. -/
  | refl (l : ResultLog) : Copied source l l
  /-- One outcome was copied, then others. -/
  | copy {l l' : ResultLog} {q : Query} {p : Polarity} {t : Action} {o : Outcome} :
      q.source = source → q.kind = .necessity p .atSource t →
      l.globalOutcome? q.main t p = some o → o.answer = .yes →
      Copied source (l.store q o) l' → Copied source l l'

theorem Copied.trans {source : State} {l l' l'' : ResultLog} (h : Copied source l l')
    (h' : Copied source l' l'') : Copied source l l'' := by
  induction h with
  | refl l => exact h'
  | copy hs hk hg hy _ ih => exact .copy hs hk hg hy (ih h')

/-- The queries that were answered from the global table on the way from one exploration to another.
Each of them is counted as a cached answer, and no other query changed its answer. -/
structure Reused (queries : List Query) (e e' : Exploration) : Prop where
  cachedAnswers_eq : e'.cachedAnswers = e.cachedAnswers + queries.length
  nodup : queries.Nodup
  unanswered : ∀ q ∈ queries, e.answerTo? q = none
  answered : ∀ q ∈ queries, e'.answerTo? q = some .yes
  atSource : ∀ q ∈ queries, ∃ p t, q.kind = .necessity p .atSource t
  answerTo?_eq : ∀ q, q ∉ queries → e'.answerTo? q = e.answerTo? q

/-- Nothing was reused if neither the count nor an answer changed. -/
theorem Reused.nil {e e' : Exploration} (hc : e'.cachedAnswers = e.cachedAnswers)
    (ha : ∀ q, e'.answerTo? q = e.answerTo? q) : Reused [] e e' where
  cachedAnswers_eq := hc
  nodup := .nil
  unanswered := by simp
  answered := by simp
  atSource := by simp
  answerTo?_eq q _ := ha q

theorem Reused.trans {queries queries' : List Query} {e e' e'' : Exploration}
    (h : Reused queries e e') (h' : Reused queries' e' e'') :
    Reused (queries ++ queries') e e'' := by
  -- what was reused first has an answer, so it was not reused again
  have hdisjoint : ∀ q ∈ queries, q ∉ queries' := by
    intro q hq hq'
    have hnone := h'.unanswered q hq'
    rw [h.answered q hq] at hnone
    simp at hnone
  refine ⟨?_, ?_, fun q hq => ?_, fun q hq => ?_, fun q hq => ?_, fun q hq => ?_⟩
  · rw [h'.cachedAnswers_eq, h.cachedAnswers_eq, List.length_append]
    omega
  · refine List.nodup_append.2 ⟨h.nodup, h'.nodup, fun q hq q' hq' heq => ?_⟩
    exact hdisjoint q hq (heq ▸ hq')
  · by_cases hm : q ∈ queries
    · exact h.unanswered q hm
    · rw [← h.answerTo?_eq q hm]
      exact h'.unanswered q ((List.mem_append.1 hq).resolve_left hm)
  · by_cases hm : q ∈ queries'
    · exact h'.answered q hm
    · rw [h'.answerTo?_eq q hm]
      exact h.answered q ((List.mem_append.1 hq).resolve_right hm)
  · rcases List.mem_append.1 hq with hm | hm
    · exact h.atSource q hm
    · exact h'.atSource q hm
  · rw [List.mem_append, not_or] at hq
    rw [h'.answerTo?_eq q hq.2, h.answerTo?_eq q hq.1]

/-- A query is one of the necessity questions of a list, put to a pair. -/
def Asks (k : State × Action) (l : List (Action × Polarity)) (q : Query) : Prop :=
  q.pair = k ∧ ∃ x ∈ l, q.kind = .necessity x.2 (scopeOf k.1) x.1

/-- What going through a list of necessity questions does: outcomes of the global table are copied
and become facts, and the other questions are to be asked. -/
structure Gathered (k : State × Action) (l : List (Action × Polarity)) (e : Exploration)
    (facts : Facts) (e' : Exploration) (facts' : Facts) (toAsk : List Query) : Prop where
  automaton_eq : e'.automaton = e.automaton
  queue_eq : e'.queue = e.queue
  pending_eq : e'.pending = e.pending
  copied : Copied k.1 e.log e'.log
  reused : ∃ queries, Reused queries e e'
  nodup : toAsk.Nodup
  asks : ∀ q ∈ toAsk, Asks k l q
  /-- What is to be asked, or is not in the list, has the answer that it had. -/
  answerTo?_eq : ∀ q, (Asks k l q → q ∈ toAsk) → e'.answerTo? q = e.answerTo? q
  /-- What is not to be asked was answered YES. -/
  answerTo?_yes : ∀ q, Asks k l q → ¬ q ∈ toAsk → e'.answerTo? q = some .yes
  answer?_eq : ∀ p t, (∀ q, Asks k [(t, p)] q → (t, p) ∈ l → q ∈ toAsk) →
    facts'.answer? p t = facts.answer? p t
  answer?_yes : ∀ p t q, Asks k [(t, p)] q → (t, p) ∈ l → ¬ q ∈ toAsk →
    facts'.answer? p t = some .yes

theorem asks_cons {k : State × Action} {x : Action × Polarity} {l : List (Action × Polarity)}
    {q : Query} : Asks k (x :: l) q ↔ Asks k [x] q ∨ Asks k l q := by
  unfold Asks
  simp only [List.mem_cons, List.not_mem_nil, or_false]
  constructor
  · rintro ⟨hp, y, rfl | hy, hk⟩
    · exact Or.inl ⟨hp, y, rfl, hk⟩
    · exact Or.inr ⟨hp, y, hy, hk⟩
  · rintro (⟨hp, y, rfl, hk⟩ | ⟨hp, y, hy, hk⟩)
    · exact ⟨hp, y, Or.inl rfl, hk⟩
    · exact ⟨hp, y, Or.inr hy, hk⟩

/-- One question has one query. -/
theorem Asks.eq {k : State × Action} {x : Action × Polarity} {q q' : Query} (h : Asks k [x] q)
    (h' : Asks k [x] q') : q = q' := by
  obtain ⟨hp, y, hy, hk⟩ := h
  obtain ⟨hp', y', hy', hk'⟩ := h'
  obtain rfl := List.mem_singleton.1 hy
  obtain rfl := List.mem_singleton.1 hy'
  refine Query.ext_of ?_ ?_ (hk.trans hk'.symm)
  · exact congrArg Prod.fst (hp.trans hp'.symm)
  · exact congrArg Prod.snd (hp.trans hp'.symm)

/-- Different questions have different queries. -/
theorem Asks.mem_of_singleton {k : State × Action} {x : Action × Polarity}
    {l : List (Action × Polarity)} {q : Query} (h : Asks k [x] q) (h' : Asks k l q) : x ∈ l := by
  obtain ⟨-, y, hy, hk⟩ := h
  obtain ⟨-, y', hy', hk'⟩ := h'
  obtain rfl := List.mem_singleton.1 hy
  rw [hk, QueryKind.necessity.injEq] at hk'
  rwa [Prod.ext hk'.2.2 hk'.1]

section Gathered

variable {k : State × Action} {l : List (Action × Polarity)} {e e' : Exploration}
  {facts facts' : Facts} {toAsk : List Query} {t : Action} {p : Polarity} {q : Query}

/-- A question that the global table does not answer is to be asked. -/
theorem Gathered.ask (h : Gathered k l e facts e' facts' toAsk) (hq : Asks k [(t, p)] q)
    (hnew : (t, p) ∉ l) : Gathered k ((t, p) :: l) e facts e' facts' (q :: toAsk) := by
  have hnot : ¬ Asks k l q := fun hl => hnew (hq.mem_of_singleton hl)
  refine ⟨h.automaton_eq, h.queue_eq, h.pending_eq, h.copied, h.reused, ?_, ?_, ?_, ?_, ?_, ?_⟩
  · exact List.nodup_cons.2 ⟨fun hm => hnot (h.asks q hm), h.nodup⟩
  · intro q' hq'
    rcases List.mem_cons.1 hq' with rfl | hq'
    · exact asks_cons.2 (Or.inl hq)
    · exact asks_cons.2 (Or.inr (h.asks q' hq'))
  · intro q' hq'
    apply h.answerTo?_eq
    intro hl
    rcases List.mem_cons.1 (hq' (asks_cons.2 (Or.inr hl))) with rfl | hm
    · exact absurd hl hnot
    · exact hm
  · intro q' hq' hm
    rw [List.mem_cons, not_or] at hm
    rcases asks_cons.1 hq' with hq' | hq'
    · exact absurd (hq'.eq hq) hm.1
    · exact h.answerTo?_yes q' hq' hm.2
  · intro p' t' hall
    apply h.answer?_eq
    intro q' hq' hl
    rcases List.mem_cons.1 (hall q' hq' (List.mem_cons_of_mem _ hl)) with rfl | hm
    · exact absurd ⟨hq'.1, _, hl, by simpa using hq'.2⟩ hnot
    · exact hm
  · intro p' t' q' hq' hl hm
    rw [List.mem_cons, not_or] at hm
    rcases List.mem_cons.1 hl with heq | hl
    · rw [heq] at hq'
      exact absurd (hq'.eq hq) hm.1
    · exact h.answer?_yes p' t' q' hq' hl hm.2

/-- A question that the global table answers YES is answered by a copy. -/
theorem Gathered.reuse {o : Outcome}
    (h : Gathered k l { e with log := e.log.store q o, cachedAnswers := e.cachedAnswers + 1 }
      (facts.insert t .yes p) e' facts' toAsk)
    (hq : Asks k [(t, p)] q) (hnew : (t, p) ∉ l) (hkind : q.kind = .necessity p .atSource t)
    (hun : e.answerTo? q = none) (hg : e.log.globalOutcome? q.main t p = some o)
    (hy : o.answer = .yes) : Gathered k ((t, p) :: l) e facts e' facts' toAsk := by
  have hnot : ¬ Asks k l q := fun hl => hnew (hq.mem_of_singleton hl)
  have hout : ¬ q ∈ toAsk := fun hm => hnot (h.asks q hm)
  let e₁ : Exploration := { e with log := e.log.store q o, cachedAnswers := e.cachedAnswers + 1 }
  have hstore : ∀ q', q' ≠ q → e₁.answerTo? q' = e.answerTo? q' := by
    intro q' hne
    exact (ResultLog.answer?_store_query ..).trans (if_neg hne)
  have hself : e₁.answerTo? q = some .yes := by
    rw [← hy]
    exact (ResultLog.answer?_store_query ..).trans (if_pos rfl)
  have hsource : q.source = k.1 := congrArg Prod.fst hq.1
  have hone : Reused [q] e e₁ := by
    refine ⟨rfl, List.nodup_singleton q, ?_, ?_, ?_, fun q' hq' => ?_⟩
    · exact List.forall_mem_singleton.2 hun
    · exact List.forall_mem_singleton.2 hself
    · exact List.forall_mem_singleton.2 ⟨p, t, hkind⟩
    · exact hstore q' fun heq => hq' (List.mem_singleton.2 heq)
  obtain ⟨queries, hqueries⟩ := h.reused
  refine ⟨h.automaton_eq, h.queue_eq, h.pending_eq, .copy hsource hkind hg hy h.copied,
    ⟨_, hone.trans hqueries⟩, h.nodup, ?_, ?_, ?_, ?_, ?_⟩
  · exact fun q' hq' => asks_cons.2 (Or.inr (h.asks q' hq'))
  · intro q' hq'
    have hne : q' ≠ q := by
      rintro rfl
      exact hout (hq' (asks_cons.2 (Or.inl hq)))
    exact (h.answerTo?_eq q' fun hl => hq' (asks_cons.2 (Or.inr hl))).trans (hstore q' hne)
  · intro q' hq' hm
    rcases asks_cons.1 hq' with hq' | hq'
    · obtain rfl := hq'.eq hq
      exact (h.answerTo?_eq q' fun hl => absurd hl hnot).trans hself
    · exact h.answerTo?_yes q' hq' hm
  · intro p' t' hall
    have hne : ¬ (p' = p ∧ t' = t) := by
      rintro ⟨rfl, rfl⟩
      exact hout (hall q hq List.mem_cons_self)
    rw [h.answer?_eq p' t' fun q' hq' hl => hall q' hq' (List.mem_cons_of_mem _ hl),
      Facts.answer?_insert, if_neg hne]
  · intro p' t' q' hq' hl hm
    by_cases heq : (t', p') ∈ l
    · exact h.answer?_yes p' t' q' hq' heq hm
    · rcases List.mem_cons.1 hl with hl | hl
      · obtain ⟨rfl, rfl⟩ := Prod.mk.inj hl
        rw [h.answer?_eq p' t' fun _ _ hl => absurd hl heq, Facts.answer?_insert,
          if_pos ⟨rfl, rfl⟩]
      · exact absurd hl heq

end Gathered

section GatherCons

variable {state : State} {main t : Action} {p : Polarity} {l : List (Action × Polarity)}
  {e : Exploration} {facts : Facts} {before : List Query} {q : Query}
  (hq : askAbout state main (.necessity p (scopeOf state) t) = .ok q)

include hq

/-- A question that the global table answers becomes a fact. -/
theorem gather_cons_of_reuse {answer : Answer} {log : ResultLog}
    (hreuse : e.log.reuseGlobal q = (some answer, log)) :
    gather state main ((t, p) :: l) e facts before =
      gather state main l { e with log := log, cachedAnswers := e.cachedAnswers + 1 }
        (facts.insert t answer p) before := by
  simp only [gather, hq, bind, Except.bind, hreuse]

/-- A question that the global table does not answer is left. -/
theorem gather_cons_of_ask {log : ResultLog} (hreuse : e.log.reuseGlobal q = (none, log)) :
    gather state main ((t, p) :: l) e facts before =
      gather state main l e facts (before ++ [q]) := by
  simp only [gather, hq, bind, Except.bind, hreuse]

end GatherCons

/-- **Going through the necessity questions of a pair.**  None is refused. -/
theorem exists_gathered {k : State × Action} (hk : k.2 ∈ k.1) (l : List (Action × Polarity))
    (e : Exploration) (facts : Facts) (before : List Query) (hn : l.Nodup)
    (hne : ∀ x ∈ l, x.1 ≠ k.2) (hun : ∀ q, Asks k l q → e.answerTo? q = none) :
    ∃ e' facts' toAsk, gather k.1 k.2 l e facts before = .ok (e', facts', before ++ toAsk) ∧
      Gathered k l e facts e' facts' toAsk := by
  induction l generalizing e facts before with
  | nil =>
    refine ⟨e, facts, [], by simp [gather], rfl, rfl, rfl, .refl _, ⟨[], .nil rfl fun _ => rfl⟩, .nil,
      ?_, ?_, ?_, ?_, ?_⟩
    · simp
    · exact fun _ _ => rfl
    · rintro q ⟨-, x, hx, -⟩
      simp at hx
    · exact fun _ _ _ => rfl
    · simp
  | cons x l ih =>
    obtain ⟨t, p⟩ := x
    obtain ⟨hnew, hn⟩ := List.nodup_cons.1 hn
    have hfault := faultless_necessity hk (hne (t, p) List.mem_cons_self) p
    let q : Query := ⟨k.1, k.2, .necessity p (scopeOf k.1) t, hfault⟩
    have hq : Asks k [(t, p)] q := ⟨rfl, _, List.mem_cons_self, rfl⟩
    have hnone : e.answerTo? q = none := hun q (asks_cons.2 (Or.inl hq))
    have hne' : ∀ x ∈ l, x.1 ≠ k.2 := fun x hx => hne x (List.mem_cons_of_mem _ hx)
    have hun' : ∀ q', Asks k l q' → e.answerTo? q' = none := fun q' hq' =>
      hun q' (asks_cons.2 (Or.inr hq'))
    have hask : e.log.reuseGlobal q = (none, e.log) →
        ∃ e' facts' toAsk, gather k.1 k.2 ((t, p) :: l) e facts before =
          .ok (e', facts', before ++ toAsk) ∧ Gathered k ((t, p) :: l) e facts e' facts' toAsk := by
      intro hreuse
      obtain ⟨e', facts', toAsk, hg, hspec⟩ := ih e facts (before ++ [q]) hn hne' hun'
      refine ⟨e', facts', q :: toAsk, ?_, hspec.ask hq hnew⟩
      rw [gather_cons_of_ask (askAbout_of_faultless hfault) hreuse]
      simpa using hg
    rcases hscope : scopeOf k.1 with _ | _
    · have hkind : q.kind = .necessity p .atSource t := by
        show QueryKind.necessity p (scopeOf k.1) t = _
        rw [hscope]
      rcases e.log.reuseGlobal_of_atSource hkind with ⟨o, hg, hy, hreuse⟩ | ⟨-, hreuse⟩
      · -- the copy leaves the questions to come without an answer
        have hun'' : ∀ q', Asks k l q' → answerTo?
            { e with log := e.log.store q o, cachedAnswers := e.cachedAnswers + 1 } q' = none := by
          intro q' hq'
          have hne'' : q' ≠ q := by
            rintro rfl
            exact hnew (hq.mem_of_singleton hq')
          rw [← hun' q' hq']
          exact (ResultLog.answer?_store_query ..).trans (if_neg hne'')
        obtain ⟨e', facts', toAsk, hgather, hspec⟩ := ih
          { e with log := e.log.store q o, cachedAnswers := e.cachedAnswers + 1 }
          (facts.insert t .yes p) before hn hne' hun''
        refine ⟨e', facts', toAsk, ?_, hspec.reuse hq hnew hkind hnone hg hy⟩
        rw [gather_cons_of_reuse (askAbout_of_faultless hfault) hreuse]
        exact hgather
      · exact hask hreuse
    · -- nobody has asked the global question before
      have hglobal : q.isGlobal = true := by
        rw [Query.isGlobal_eq]
        show (QueryKind.necessity p (scopeOf k.1) t).isGlobal = true
        rw [hscope]
        rfl
      apply hask
      rw [e.log.reuseGlobal_of_isGlobal hglobal]
      exact congrArg (·, e.log) hnone

/-- Gathering leaves the books of other pairs as they are. -/
theorem Gathered.sameAt {k k' : State × Action} {l : List (Action × Polarity)} {e e' : Exploration}
    {facts facts' : Facts} {toAsk : List Query} (h : Gathered k l e facts e' facts' toAsk)
    (hk : k' ≠ k) : SameAt k' e e' where
  queuedAt_eq := by rw [queuedAt, queuedAt, h.queue_eq]
  pending_eq := by rw [h.pending_eq]
  answerTo?_eq q hq := h.answerTo?_eq q fun hasks => absurd (hq.symm.trans hasks.1) hk

/-- What is answered by copies counts as asked. -/
theorem Ledger.gathered {k : State × Action} {asked : Query → Prop}
    {l : List (Action × Polarity)} {e e' : Exploration} {facts facts' : Facts}
    {toAsk : List Query} (h : Ledger k asked e) (hg : Gathered k l e facts e' facts' toAsk)
    (hnew : ∀ q, Asks k l q → ¬ asked q) :
    Ledger k (fun q => asked q ∨ (Asks k l q ∧ ¬ q ∈ toAsk)) e' := by
  have hqueued : e'.queuedAt k = e.queuedAt k := by rw [queuedAt, queuedAt, hg.queue_eq]
  refine ⟨hqueued ▸ h.nodup, fun q hq => ?_, fun q hq => ?_⟩
  · rw [hqueued] at hq
    have hpair := (mem_queuedAt.1 hq).2
    have hasked : asked q := (h.asked_iff q hpair).1 (Or.inl hq)
    rw [hg.answerTo?_eq q fun hasks => absurd hasked (hnew q hasks)]
    exact h.unanswered q hq
  · by_cases hcopy : Asks k l q ∧ ¬ q ∈ toAsk
    · simp [hg.answerTo?_yes q hcopy.1 hcopy.2, hcopy]
    · have hsame : Asks k l q → q ∈ toAsk := by
        intro hasks
        by_cases hm : q ∈ toAsk
        · exact hm
        · exact absurd ⟨hasks, hm⟩ hcopy
      rw [hqueued, hg.answerTo?_eq q hsame, h.asked_iff q hq]
      simp [hcopy]

/-! ## Exploring a pair -/

theorem mem_necessityKinds {main : Action} {x : Action × Polarity} :
    x ∈ necessityKinds s main ↔ x.1 ∈ s.set.actions ∧ x.1 ≠ main := by
  obtain ⟨t, p⟩ := x
  unfold necessityKinds
  simp only [List.mem_flatMap, List.mem_filter, decide_eq_true_eq, List.mem_cons, Prod.mk.injEq,
    List.not_mem_nil, or_false]
  constructor
  · rintro ⟨a, ha, ⟨rfl, -⟩ | ⟨rfl, -⟩⟩
    · exact ha
    · exact ha
  · intro ht
    refine ⟨t, ht, ?_⟩
    cases p
    · exact Or.inl ⟨rfl, rfl⟩
    · exact Or.inr ⟨rfl, rfl⟩

theorem nodup_necessityKinds (s : Setting) (main : Action) : (necessityKinds s main).Nodup := by
  unfold necessityKinds
  refine List.nodup_flatMap.2 ⟨fun t _ => by simp, ?_⟩
  refine (s.set.actions.nodup_toList.filter _).imp fun {t t'} hne => ?_
  show List.Disjoint _ _
  rw [List.disjoint_left]
  intro x hx hx'
  simp only [List.mem_cons, List.not_mem_nil, or_false] at hx hx'
  rcases hx with rfl | rfl <;> simp [hne] at hx'

/-- The necessity questions of a pair are the necessity queries that open it. -/
theorem asks_necessityKinds_iff {k : State × Action} {q : Query} (hq : q.pair = k) :
    Asks k (necessityKinds s k.2) q ↔ q.isNecessity = true ∧ IsOpening s q := by
  have hs : q.source = k.1 := congrArg Prod.fst hq
  have hm : q.main = k.2 := congrArg Prod.snd hq
  unfold Asks
  rw [and_iff_right hq]
  constructor
  · rintro ⟨x, hx, hkind⟩
    refine ⟨Query.isNecessity_eq_true_iff.2 ⟨_, _, _, hkind⟩, ?_⟩
    simp only [IsOpening, hkind, hs, true_and]
    exact (mem_necessityKinds.1 hx).1
  · rintro ⟨hnec, hopen⟩
    obtain ⟨p, scope, t, hkind⟩ := Query.isNecessity_eq_true_iff.1 hnec
    simp only [IsOpening, hkind, hs] at hopen
    refine ⟨(t, p), mem_necessityKinds.2 ⟨hopen.2, ?_⟩, by rw [hkind, hopen.1]⟩
    rw [← hm]
    exact Query.tested_ne_main hkind

/-- Both invariant queries about an enabled main action. -/
def openingInvariants {source : State} {main : Action} (h : main ∈ source) : List Query :=
  [⟨source, main, .invariant .normal, faultless_invariant h _⟩,
    ⟨source, main, .invariant .exceptional, faultless_invariant h _⟩]

theorem mem_openingInvariants {source : State} {main : Action} (h : main ∈ source) {q : Query} :
    q ∈ openingInvariants h ↔ q.pair = (source, main) ∧ ∃ c, q.kind = .invariant c := by
  unfold openingInvariants
  constructor
  · intro hq
    rcases List.mem_cons.1 hq with rfl | hq
    · exact ⟨rfl, .normal, rfl⟩
    · obtain rfl := List.mem_singleton.1 hq
      exact ⟨rfl, .exceptional, rfl⟩
  · rintro ⟨hp, c, hk⟩
    have hs : q.source = source := congrArg Prod.fst hp
    have hm : q.main = main := congrArg Prod.snd hp
    cases c with
    | normal => exact List.mem_cons.2 (Or.inl (Query.ext_of hs hm hk))
    | exceptional =>
      refine List.mem_cons.2 (Or.inr (List.mem_singleton.2 ?_))
      exact Query.ext_of hs hm hk

/-- The invariant queries of an enabled main action are never refused. -/
theorem invariantQueries_eq {source : State} {main : Action} (h : main ∈ source) :
    invariantQueries source main = .ok (openingInvariants h) := by
  unfold invariantQueries
  rw [List.mapM_cons, List.mapM_cons, askAbout_of_faultless (faultless_invariant h _),
    askAbout_of_faultless (faultless_invariant h _)]
  rfl

/-- What exploring a state changes besides the books of its pairs: queries are added and outcomes are
copied. -/
structure Grows (source : State) (e e' : Exploration) : Prop where
  automaton_eq : e'.automaton = e.automaton
  queue_eq : ∃ l, e'.queue = e.queue.pushAll l
  copied : Copied source e.log e'.log
  reused : ∃ queries, Reused queries e e'

theorem Grows.refl (source : State) (e : Exploration) : Grows source e e := by
  refine ⟨rfl, ⟨[], ?_⟩, .refl _, ⟨[], .nil rfl fun _ => rfl⟩⟩
  unfold WorkQueue.pushAll
  split <;> simp

theorem Grows.trans {source : State} {e e' e'' : Exploration} (h : Grows source e e')
    (h' : Grows source e' e'') : Grows source e e'' := by
  obtain ⟨l, hl⟩ := h.queue_eq
  obtain ⟨l', hl'⟩ := h'.queue_eq
  obtain ⟨queries, hqueries⟩ := h.reused
  obtain ⟨queries', hqueries'⟩ := h'.reused
  refine ⟨h'.automaton_eq.trans h.automaton_eq, ⟨l ++ l', ?_⟩, h.copied.trans h'.copied,
    ⟨_, hqueries.trans hqueries'⟩⟩
  rw [hl', hl, WorkQueue.pushAll_eq_foldl, WorkQueue.pushAll_eq_foldl, WorkQueue.pushAll_eq_foldl,
    List.foldl_append]

theorem grows_enqueue (source : State) (e : Exploration) (l : List Query) :
    Grows source e (e.enqueue l) := ⟨rfl, ⟨l, rfl⟩, .refl _, ⟨[], .nil rfl fun _ => rfl⟩⟩

theorem Grows.closed_eq {source : State} {e e' : Exploration} (h : Grows source e e') :
    e'.queue.closed = e.queue.closed := by
  obtain ⟨l, hl⟩ := h.queue_eq
  rw [hl, WorkQueue.pushAll]
  split <;> rfl

/-- The queries that open a pair are its invariant queries and its necessity questions. -/
theorem isOpening_iff {k : State × Action} (hk : k.2 ∈ k.1) {q : Query} (hq : q.pair = k) :
    IsOpening s q ↔ q ∈ openingInvariants hk ∨ Asks k (necessityKinds s k.2) q := by
  rw [mem_openingInvariants, asks_necessityKinds_iff hq, and_iff_right hq]
  rcases hkind : q.kind with c | ⟨c, target⟩ | ⟨p, scope, t⟩
  · simp [IsOpening, hkind]
  · simp [IsOpening, hkind, Query.isNecessity, Query.tested?]
  · simp [IsOpening, hkind, Query.isNecessity, Query.tested?]

section ExplorePair

variable {k : State × Action} (hk : k.2 ∈ k.1) {e : Exploration}

theorem Untouched.queuedAt_eq (hu : Untouched k e) : e.queuedAt k = [] :=
  List.eq_nil_iff_forall_not_mem.2 fun _ hq =>
    hu.ledger.not_mem_of_not_asked (mem_queuedAt.1 hq).2 id hq

/-- The invariant queries are the first ones asked about a pair. -/
theorem Untouched.ledger_enqueue (hu : Untouched k e) (ho : e.queue.closed = false) :
    Ledger k (· ∈ openingInvariants hk) (e.enqueue (openingInvariants hk)) := by
  refine (hu.ledger.enqueue ho (fun q hq => ((mem_openingInvariants hk).1 hq).1) ?_ ?_).congr ?_
  · simp [openingInvariants]
  · exact fun _ _ => id
  · exact fun _ _ => by simp

theorem Untouched.queuedAt_enqueue (hu : Untouched k e) (ho : e.queue.closed = false) :
    (e.enqueue (openingInvariants hk)).queuedAt k = openingInvariants hk := by
  rw [Exploration.queuedAt_enqueue ho, hu.queuedAt_eq, List.nil_append]
  exact List.filter_eq_self.2 fun q hq =>
    decide_eq_true ((mem_openingInvariants hk).1 hq).1

variable {hk} in
/-- What is asked at once about a pair, apart from the questions that are left. -/
theorem Gathered.ledger (hu : Untouched k e) (ho : e.queue.closed = false) {e' : Exploration}
    {facts : Facts} {toAsk : List Query}
    (hg : Gathered k (necessityKinds s k.2) (e.enqueue (openingInvariants hk)) {} e' facts toAsk) :
    Ledger k (fun q => IsOpening s q ∧ ¬ q ∈ toAsk) e' := by
  have hdisjoint : ∀ q, Asks k (necessityKinds s k.2) q → ¬ q ∈ openingInvariants hk := by
    rintro q ⟨-, x, -, hkind⟩ hm
    obtain ⟨-, c, hc⟩ := (mem_openingInvariants hk).1 hm
    rw [hkind] at hc
    simp at hc
  refine ((hu.ledger_enqueue hk ho).gathered hg hdisjoint).congr fun q hq => ?_
  rw [isOpening_iff hk hq]
  constructor
  · rintro (hm | hm)
    · exact ⟨Or.inl hm, fun hask => hdisjoint q (hg.asks q hask) hm⟩
    · exact ⟨Or.inr hm.1, hm.2⟩
  · rintro ⟨hm | hm, hask⟩
    · exact Or.inl hm
    · exact Or.inr ⟨hm, hask⟩

variable {hk} in
/-- The facts gathered about a pair are what the log says. -/
theorem Gathered.answer?_eq_necessityAnswer? (hu : Untouched k e) {e' : Exploration} {facts : Facts}
    {toAsk : List Query}
    (hg : Gathered k (necessityKinds s k.2) (e.enqueue (openingInvariants hk)) {} e' facts toAsk) :
    ∀ t ∈ s.set.actions, t ≠ k.2 → ∀ p, facts.answer? p t = necessityAnswer? e'.log k.1 k.2 p t := by
  intro t ht hne p
  let q : Query := ⟨k.1, k.2, _, faultless_necessity hk hne p⟩
  have hq : Asks k [(t, p)] q := ⟨rfl, _, List.mem_cons_self, rfl⟩
  have hmem : (t, p) ∈ necessityKinds s k.2 := mem_necessityKinds.2 ⟨ht, hne⟩
  show facts.answer? p t = e'.answerTo? q
  by_cases hm : q ∈ toAsk
  · have hnone : (e.enqueue (openingInvariants hk)).answerTo? q = none :=
      hu.ledger.answerTo?_of_not_asked rfl id
    rw [hg.answerTo?_eq q fun _ => hm, hnone, ← Facts.answer?_empty p t]
    exact hg.answer?_eq p t fun q' hq' _ => hq'.eq hq ▸ hm
  · rw [hg.answerTo?_yes q ⟨rfl, _, hmem, rfl⟩ hm]
    exact hg.answer?_yes p t q hq hmem hm

include hk

/-- **Exploring a pair.**  It takes the pair from `Untouched` to `Explored`, leaves all other pairs
alone and can fail only because there are too many candidates. -/
theorem explorePair_spec (hu : Untouched k e) (ho : e.queue.closed = false) :
    (∃ fault, explorePair s k.1 e k.2 = .error fault ∧ TooWide s fault) ∨
    ∃ e', explorePair s k.1 e k.2 = .ok e' ∧ Explored s k e' ∧ Grows k.1 e e' ∧
      ∀ k', k' ≠ k → SameAt k' e e' := by
  obtain ⟨e₁, facts, toAsk, hgather, hg⟩ := exists_gathered hk (necessityKinds s k.2)
    (e.enqueue (openingInvariants hk)) {} [] (nodup_necessityKinds s k.2)
    (fun x hx => (mem_necessityKinds.1 hx).2)
    (fun q hq => hu.ledger.answerTo?_of_not_asked hq.1 id)
  have hpair : explorePair s k.1 e k.2 =
      if toAsk.isEmpty then e₁.schedule s k.1 k.2 facts
      else .ok ({ e₁ with
        pending := e₁.pending.insert k { facts with remaining := toAsk.length } }.enqueue toAsk) := by
    unfold explorePair
    rw [invariantQueries_eq hk]
    show (gather _ _ _ _ _ _ >>= _) = _
    rw [hgather]
    rfl
  have ho₁ : e₁.queue.closed = false := by
    rw [hg.queue_eq, closed_enqueue]
    exact ho
  have hledger := hg.ledger hu ho
  have hfacts := hg.answer?_eq_necessityAnswer? hu
  have hsettled : ∀ q ∈ e₁.queuedAt k, q.isNecessity = false := by
    intro q hq
    rw [queuedAt, hg.queue_eq, ← queuedAt, hu.queuedAt_enqueue hk ho] at hq
    obtain ⟨-, c, hkind⟩ := (mem_openingInvariants hk).1 hq
    simp [Query.isNecessity, Query.tested?, hkind]
  have hnone : e₁.pending.get? k = none := by
    rw [hg.pending_eq]
    exact hu.pending_eq
  have hgrows : Grows k.1 e e₁ := by
    refine (grows_enqueue k.1 e (openingInvariants hk)).trans
      ⟨hg.automaton_eq, ?_, hg.copied, hg.reused⟩
    rw [hg.queue_eq]
    exact (Grows.refl k.1 _).queue_eq
  have hsame : ∀ k', k' ≠ k → SameAt k' e e₁ := fun k' hne =>
    (sameAt_enqueue ho (fun q hq => ((mem_openingInvariants hk).1 hq).1) hne).trans (hg.sameAt hne)
  rw [hpair]
  by_cases hempty : toAsk = []
  · -- the global table knew all answers
    rw [if_pos (by simp [hempty]), schedule_eq e₁ hk]
    cases hc : candidates s k.2 facts with
    | error refusal => exact Or.inl ⟨_, rfl, k.2, facts, refusal, hc, rfl⟩
    | ok targets =>
      refine Or.inr ⟨_, rfl, Or.inr ?_, hgrows.trans (grows_enqueue _ _ _), fun k' hne => ?_⟩
      · refine Scheduled.of_candidates hk ho₁ hnone ?_ hsettled hfacts hc
        exact hledger.congr fun q _ => by simp [hempty]
      · exact (hsame k' hne).trans
          (sameAt_enqueue ho₁ (fun q hq => ((mem_stepQueries hk).1 hq).1) hne)
  · -- some answers are due, so the pair is noted as pending before its questions are asked
    rw [if_neg (by simp [hempty])]
    let e₂ : Exploration := { e₁ with
      pending := e₁.pending.insert k { facts with remaining := toAsk.length } }
    have hasks : ∀ q ∈ toAsk, q.pair = k := fun q hq => (hg.asks q hq).1
    have hsame₂ : ∀ k', k' ≠ k → SameAt k' e₁ e₂ := fun k' hne =>
      ⟨rfl, (Table.get?_insert ..).trans (if_neg hne), fun _ _ => rfl⟩
    refine Or.inr ⟨e₂.enqueue toAsk, rfl, Or.inl ⟨{ facts with remaining := toAsk.length }, ?_⟩,
      hgrows.trans ⟨rfl, ⟨toAsk, rfl⟩, .refl _, ⟨[], .nil rfl fun _ => rfl⟩⟩, fun k' hne => ?_⟩
    · refine Waiting.of_enqueue (e := e₂) ho₁ ?_
        ⟨hledger.nodup, hledger.unanswered, hledger.asked_iff⟩ hsettled hempty hg.nodup hasks ?_ hfacts
      · exact (Table.get?_insert ..).trans (if_pos rfl)
      · exact fun q hq => (asks_necessityKinds_iff (hasks q hq)).1 (hg.asks q hq)
    · exact (hsame k' hne).trans ((hsame₂ k' hne).trans (sameAt_enqueue (e := e₂) ho₁ hasks hne))

end ExplorePair

/-! ## Exploring a state -/

/-- Exploring some actions of a state: the pairs go from `Untouched` to `Explored` one by one. -/
theorem foldlM_explorePair_spec {state : State} (l : List Action) (hsub : ∀ a ∈ l, a ∈ state)
    (hn : l.Nodup) {done : State × Action → Prop} {e : Exploration} (hb : Books s done e)
    (hnew : ∀ a ∈ l, ¬ done (state, a)) (ho : e.queue.closed = false) :
    (∃ fault, l.foldlM (explorePair s state) e = .error fault ∧ TooWide s fault) ∨
    ∃ e', l.foldlM (explorePair s state) e = .ok e' ∧
      Books s (fun k => done k ∨ (k.1 = state ∧ k.2 ∈ l)) e' ∧ Grows state e e' := by
  induction l generalizing e done with
  | nil =>
    exact Or.inr ⟨e, rfl, hb.congr fun k _ => by simp, .refl _ _⟩
  | cons a l ih =>
    obtain ⟨ha, hn⟩ := List.nodup_cons.1 hn
    have hmem : a ∈ state := hsub a List.mem_cons_self
    have hu : Untouched (state, a) e := (hb (state, a) hmem).2 (hnew a List.mem_cons_self)
    rw [List.foldlM_cons]
    rcases explorePair_spec (s := s) (k := (state, a)) hmem hu ho with
      ⟨fault, hf, hwide⟩ | ⟨e₁, he₁, hexp, hgrow, hsame⟩
    · rw [show explorePair s state e a = .error fault from hf]
      exact Or.inl ⟨fault, rfl, hwide⟩
    · rw [show explorePair s state e a = .ok e₁ from he₁]
      -- the rest of the list is explored with one more pair done
      have hb₁ : Books s (fun k => done k ∨ k = (state, a)) e₁ :=
        hb.update hsame hexp fun _ => Iff.rfl
      have hnew₁ : ∀ b ∈ l, ¬ (done (state, b) ∨ (state, b) = (state, a)) := by
        rintro b hbl (hdone | heq)
        · exact hnew b (List.mem_cons_of_mem _ hbl) hdone
        · exact ha ((Prod.mk.inj heq).2 ▸ hbl)
      have ho₁ : e₁.queue.closed = false := hgrow.closed_eq.trans ho
      rcases ih (fun b hbl => hsub b (List.mem_cons_of_mem _ hbl)) hn hb₁ hnew₁ ho₁ with
        ⟨fault, hf, hwide⟩ | ⟨e', he', hb', hgrow'⟩
      · exact Or.inl ⟨fault, hf, hwide⟩
      · refine Or.inr ⟨e', he', hb'.congr fun k _ => ?_, hgrow.trans hgrow'⟩
        rw [List.mem_cons, Prod.ext_iff]
        tauto

/-- **Exploring a state.**  All its pairs are explored afterwards. -/
theorem explore_spec {state : State} {done : State × Action → Prop} {e : Exploration}
    (hb : Books s done e) (hnew : ∀ a ∈ state, ¬ done (state, a)) (ho : e.queue.closed = false) :
    (∃ fault, e.explore s state = .error fault ∧ TooWide s fault) ∨
    ∃ e', e.explore s state = .ok e' ∧ Books s (fun k => done k ∨ k.1 = state) e' ∧
      Grows state e e' := by
  rcases foldlM_explorePair_spec state.toList (fun _ ha => ha) state.nodup_toList hb hnew ho with
    h | ⟨e', he', hb', hgrow⟩
  · exact Or.inl h
  · refine Or.inr ⟨e', he', hb'.congr fun k hk => ?_, hgrow⟩
    constructor
    · rintro (hd | hs)
      · exact Or.inl hd
      · exact Or.inr hs.1
    · rintro (hd | hs)
      · exact Or.inl hd
      · exact Or.inr ⟨hs, hs ▸ hk⟩

end Exploration

end Enabledness
