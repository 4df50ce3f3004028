import Enabledness.Proofs.Chart

/-!
# Settling a query

What an exploration does with the answer to one of its queries.

* `Sound` : the books, the chart and the log are in order.
* `Balanced` : the queue counts exactly the queries that wait, and is closed when there is none.
* `settle_spec` : settling a query keeps both, gives an answer to this query and to those that it
  reuses a global answer for, and can fail only because an action has too many candidate targets.
-/

namespace Enabledness

/-! ## The count of the queue -/

namespace WorkQueue

variable {α : Type}

/-- The queue is open, and some taken items are not reported done yet. -/
structure Busy (taken : Nat) (q : WorkQueue α) : Prop where
  closed_eq : q.closed = false
  outstanding_eq : q.outstanding = q.items.length + taken

/-- The queue counts the items that wait, and is closed when none does. -/
structure Balanced (q : WorkQueue α) : Prop where
  outstanding_eq : q.outstanding = q.items.length
  closed_iff : q.closed = true ↔ q.items = []

theorem Busy.pushAll {n : Nat} {q : WorkQueue α} (h : Busy n q) (l : List α) :
    Busy n (q.pushAll l) := by
  obtain ⟨hc, ho⟩ := h
  unfold WorkQueue.pushAll
  rw [if_neg (by simp [hc])]
  refine ⟨hc, ?_⟩
  simp only [List.length_append, ho]
  omega

theorem Busy.closeIfIdle {q : WorkQueue α} (h : Busy 0 q) : Balanced q.closeIfIdle := by
  obtain ⟨hc, ho⟩ := h
  rw [Nat.add_zero] at ho
  unfold WorkQueue.closeIfIdle
  split
  · next hzero => exact ⟨ho, by simp [List.length_eq_zero_iff.1 (ho.symm.trans hzero)]⟩
  · next hpos =>
    refine ⟨ho, ?_⟩
    rw [hc, ← List.length_eq_zero_iff, ← ho]
    simp [hpos]

theorem Busy.taskDone {q : WorkQueue α} (h : Busy 1 q) : Balanced q.taskDone := by
  apply Busy.closeIfIdle
  refine ⟨h.closed_eq, ?_⟩
  have ho := h.outstanding_eq
  show q.outstanding - 1 = q.items.length + 0
  omega

/-- Taking an item out leaves one item to report. -/
theorem Balanced.take {q : WorkQueue α} (h : Balanced q) {i : Nat} {a : α}
    (ha : q.items[i]? = some a) : Busy 1 { q with items := q.items.eraseIdx i } := by
  obtain ⟨hi, -⟩ := List.getElem?_eq_some_iff.1 ha
  refine ⟨?_, ?_⟩
  · show q.closed = false
    rw [Bool.eq_false_iff]
    intro hc
    rw [h.closed_iff.1 hc] at hi
    simp at hi
  · show q.outstanding = (q.items.eraseIdx i).length + 1
    rw [h.outstanding_eq, List.length_eraseIdx_of_lt hi]
    omega

end WorkQueue

/-- The facts of a pair after a necessity answer. -/
def Facts.after (f : Facts) (tested : Action) (answer : Answer) (p : Polarity) : Facts :=
  { f.insert tested answer p with remaining := f.remaining - 1 }

namespace Exploration

variable {s : Setting} {said : Query → Verdict → Prop} {initial : State} {e e' : Exploration}
  {i : Nat} {q : Query} {run : VerifierRun} {k : State × Action} {done : State × Action → Prop}

/-! ## Noting an answer that is no necessity -/

/-- Other answers leave the necessity answers alone. -/
theorem necessityAnswer?_noted (hn : q.isNecessity = false) (source : State) (main : Action)
    (p : Polarity) (t : Action) :
    necessityAnswer? (e.noted i q run).log source main p t =
      necessityAnswer? e.log source main p t := by
  show ((e.log.store q _).outcome? _ _ _).map _ = _
  rw [ResultLog.outcome?_store, if_neg]
  · rfl
  · rintro ⟨hk, -⟩
    have hnec := Query.isNecessity_eq_true_iff.2 ⟨_, _, _, hk.symm⟩
    rw [hn] at hnec
    exact Bool.false_ne_true hnec

theorem Waiting.noted {f : Facts} (h : Waiting s k f e) (hq : e.queue.items[i]? = some q)
    (hn : q.isNecessity = false) : Waiting s k f (e.noted i q run) where
  pending_eq := h.pending_eq
  ledger := h.ledger.noted hq
  remaining_eq := by
    have hcount := countP_queuedAt_noted (k := k) hq run Query.isNecessity
    rw [hn, Bool.false_and, if_neg Bool.false_ne_true, Nat.add_zero] at hcount
    rw [hcount]
    exact h.remaining_eq
  remaining_pos := h.remaining_pos
  answer?_eq t ht hne p := by
    rw [necessityAnswer?_noted hn]
    exact h.answer?_eq t ht hne p

theorem Scheduled.noted (h : Scheduled s k e) (hq : e.queue.items[i]? = some q)
    (hn : q.isNecessity = false) : Scheduled s k (e.noted i q run) where
  pending_eq := h.pending_eq
  ledger := by
    refine (h.ledger.noted hq).congr fun q' _ => or_congr Iff.rfl ?_
    exact (isStep_congr fun t _ _ p => necessityAnswer?_noted hn _ _ p t).symm
  settled q' hq' := by
    apply h.settled
    rw [mem_queuedAt] at hq' ⊢
    exact ⟨(List.eraseIdx_sublist _ _).subset hq'.1, hq'.2⟩

/-- Noting an answer keeps the books unless it is a necessity answer. -/
theorem Books.noted (h : Books s done e) (hq : e.queue.items[i]? = some q)
    (hn : q.isNecessity = false) : Books s done (e.noted i q run) := by
  intro k hk
  refine ⟨fun hd => ?_, fun hd => ?_⟩
  · rcases (h k hk).1 hd with ⟨f, hw⟩ | hsch
    · exact Or.inl ⟨f, hw.noted hq hn⟩
    · exact Or.inr (hsch.noted hq hn)
  · have hu := (h k hk).2 hd
    exact ⟨hu.pending_eq, hu.ledger.noted hq⟩

/-! ## Queries that wait -/

/-- A query waits only if its state was explored. -/
theorem Books.explored (h : Books s done e) (hq : e.queue.items[i]? = some q) :
    done q.pair ∧ Explored s q.pair e := by
  by_cases hd : done q.pair
  · exact ⟨hd, (h q.pair q.main_mem_source).1 hd⟩
  · have hu := (h q.pair q.main_mem_source).2 hd
    have hm := mem_queuedAt_of_getElem? hq
    rw [hu.queuedAt_eq] at hm
    exact absurd hm List.not_mem_nil

/-- A query waits only if it was asked, and then it has no answer. -/
theorem Explored.asked (h : Explored s k e) (hq : q ∈ e.queuedAt k) :
    (IsOpening s q ∨ IsStep s e.log q) ∧ e.answerTo? q = none := by
  have hpair := (mem_queuedAt.1 hq).2
  rcases h with ⟨f, hw⟩ | hsch
  · exact ⟨Or.inl ((hw.ledger.asked_iff q hpair).1 (Or.inl hq)), hw.ledger.unanswered q hq⟩
  · exact ⟨(hsch.ledger.asked_iff q hpair).1 (Or.inl hq), hsch.ledger.unanswered q hq⟩

/-- A necessity query waits only if its pair does. -/
theorem Explored.waiting (h : Explored s k e) (hq : q ∈ e.queuedAt k)
    (hn : q.isNecessity = true) : ∃ f, Waiting s k f e := by
  rcases h with hw | hsch
  · exact hw
  · have hf := hsch.settled q hq
    rw [hn] at hf
    simp at hf

/-! ## Necessity answers -/

section Resolve

variable {f : Facts} {p : Polarity} {scope : Scope} {tested : Action}

/-- The facts stay what the log says. -/
theorem Waiting.answer?_after (h : Waiting s q.pair f e) (hq : e.queue.items[i]? = some q)
    (hkind : q.kind = .necessity p scope tested) (run : VerifierRun) :
    ∀ t ∈ s.set.actions, t ≠ q.main → ∀ p',
      (f.after tested (q.answer run.verdict) p).answer? p' t =
        necessityAnswer? (e.noted i q run).log q.source q.main p' t := by
  intro t ht hne p'
  have hscope : scope = scopeOf q.source := by
    have hopen := (h.ledger.asked_iff q rfl).1 (Or.inl (mem_queuedAt_of_getElem? hq))
    simp only [IsOpening, hkind] at hopen
    exact hopen.1
  let q' : Query := ⟨q.source, q.main, _, faultless_necessity q.main_mem_source hne p'⟩
  have hiff : q' = q ↔ p' = p ∧ t = tested := by
    constructor
    · intro heq
      have hk : q'.kind = q.kind := congrArg Query.kind heq
      rw [hkind, QueryKind.necessity.injEq] at hk
      exact ⟨hk.1, hk.2.2⟩
    · rintro ⟨rfl, rfl⟩
      refine Query.ext_of rfl rfl ?_
      rw [hkind, hscope]
  show (f.insert tested (q.answer run.verdict) p).answer? p' t = (e.noted i q run).answerTo? q'
  rw [Facts.answer?_insert, answerTo?_noted]
  by_cases heq : q' = q
  · rw [if_pos heq, if_pos (hiff.1 heq)]
  · rw [if_neg heq, if_neg fun hc => heq (hiff.2 hc)]
    exact h.answer?_eq t ht hne p'

/-- A necessity answer lowers the count of due answers by one. -/
theorem Waiting.remaining_after (h : Waiting s q.pair f e) (hq : e.queue.items[i]? = some q)
    (hn : q.isNecessity = true) (run : VerifierRun) :
    f.remaining - 1 = ((e.noted i q run).queuedAt q.pair).countP Query.isNecessity := by
  have hcount := countP_queuedAt_noted (k := q.pair) hq run Query.isNecessity
  rw [hn, decide_eq_true rfl, Bool.and_self, if_pos rfl] at hcount
  have hremaining := h.remaining_eq
  omega

/-- **A necessity answer.**  Its pair keeps waiting or, if the answer was the last one due, asks about
its candidate targets. -/
theorem resolve_spec (hb : Books s done e) (hq : e.queue.items[i]? = some q)
    (hkind : q.kind = .necessity p scope tested) (ho : e.queue.closed = false) :
    (∃ fault, (e.noted i q run).resolve s q.source q.main tested p (q.answer run.verdict) =
      .error fault ∧ TooWide s fault) ∨
    ∃ e', (e.noted i q run).resolve s q.source q.main tested p (q.answer run.verdict) = .ok e' ∧
      Books s done e' ∧ Grows q.source (e.noted i q run) e' := by
  have hn : q.isNecessity = true := Query.isNecessity_eq_true_iff.2 ⟨_, _, _, hkind⟩
  have hmem := mem_queuedAt_of_getElem? hq
  obtain ⟨hdone, hexp⟩ := hb.explored hq
  obtain ⟨f, hw⟩ := hexp.waiting hmem hn
  have hledger : Ledger q.pair (IsOpening s) (e.noted i q run) := hw.ledger.noted hq
  have hfacts := hw.answer?_after hq hkind run
  have hremaining := hw.remaining_after hq hn run
  let facts := f.after tested (q.answer run.verdict) p
  have hresolve : (e.noted i q run).resolve s q.source q.main tested p (q.answer run.verdict) =
      if facts.remaining = 0 then
        { e.noted i q run with pending := (e.pending.insert q.pair facts).erase q.pair }.schedule s
          q.source q.main facts
      else .ok { e.noted i q run with pending := e.pending.insert q.pair facts } := by
    unfold resolve
    rw [show (e.noted i q run).pending.get? (q.source, q.main) = some f from hw.pending_eq]
    rfl
  -- the books change at the pair of the query only
  have hupdate : ∀ {e'}, (∀ k, k ≠ q.pair → SameAt k (e.noted i q run) e') →
      Explored s q.pair e' → Books s done e' := by
    intro e' hsame hexp'
    refine hb.update (fun k hk => (sameAt_noted hq hk).trans (hsame k hk)) hexp' fun k => ?_
    exact ⟨Or.inl, fun h => h.elim id fun heq => heq ▸ hdone⟩
  rw [hresolve]
  split
  · -- the last answer
    next hzero =>
    have hsettled : ∀ q' ∈ (e.noted i q run).queuedAt q.pair, q'.isNecessity = false := by
      intro q' hq'
      have hnone := List.countP_eq_zero.1 (hremaining.symm.trans hzero) q' hq'
      simpa using hnone
    let e₁ : Exploration := { e.noted i q run with
      pending := (e.pending.insert q.pair facts).erase q.pair }
    have hpending : ∀ k, k ≠ q.pair → e₁.pending.get? k = e.pending.get? k := fun k hk =>
      (Table.get?_erase ..).trans ((if_neg hk).trans ((Table.get?_insert ..).trans (if_neg hk)))
    have hsame₁ : ∀ k, k ≠ q.pair → SameAt k (e.noted i q run) e₁ := fun k hk =>
      ⟨rfl, hpending k hk, fun _ _ => rfl⟩
    rw [schedule_eq e₁ q.main_mem_source]
    cases hc : candidates s q.main facts with
    | error refusal => exact Or.inl ⟨_, rfl, q.main, facts, refusal, hc, rfl⟩
    | ok targets =>
      refine Or.inr ⟨_, rfl, hupdate (fun k hk => (hsame₁ k hk).trans ?_) (Or.inr ?_),
        ⟨rfl, ⟨_, rfl⟩, .refl _, ⟨[], .nil rfl fun _ => rfl⟩⟩⟩
      · exact sameAt_enqueue (e := e₁) ho
          (fun q' hq' => ((mem_stepQueries q.main_mem_source).1 hq').1) hk
      · exact Scheduled.of_candidates (k := q.pair) (e := e₁) q.main_mem_source ho
          ((Table.get?_erase ..).trans (if_pos rfl))
          ⟨hledger.nodup, hledger.unanswered, hledger.asked_iff⟩ hsettled hfacts hc
  · -- more answers are due
    next hpos =>
    refine Or.inr ⟨_, rfl, hupdate (fun k hk => ?_) (Or.inl ⟨facts, ?_⟩),
      ⟨rfl, (Grows.refl q.source _).queue_eq, .refl _, ⟨[], .nil rfl fun _ => rfl⟩⟩⟩
    · exact ⟨rfl, (Table.get?_insert ..).trans (if_neg hk), fun _ _ => rfl⟩
    · exact ⟨(Table.get?_insert ..).trans (if_pos rfl),
        ⟨hledger.nodup, hledger.unanswered, hledger.asked_iff⟩, hremaining, Nat.pos_of_ne_zero hpos,
        hfacts⟩

end Resolve

/-! ## Transition answers -/

/-- What the log says about transitions after a run was recorded. -/
theorem existenceIn?_record (l : ResultLog) (q : Query) (run : VerifierRun) (c : Completion)
    (source : State) (main : Action) (target : State) :
    existenceIn? (l.record q run) c source main target =
      if q.pair = (source, main) ∧ q.kind = .transition c target then
        existence? (q.answer run.verdict)
      else existenceIn? l c source main target := by
  by_cases h : q.pair = (source, main) ∧ q.kind = .transition c target
  · rw [if_pos h]
    have hs : q.source = source := congrArg Prod.fst h.1
    have hm : q.main = main := congrArg Prod.snd h.1
    have hanswer := ResultLog.answer?_store_query l q ⟨q.answer run.verdict, run⟩ q
    rw [if_pos rfl, hs, hm, h.2] at hanswer
    exact congrArg (·.bind existence?) hanswer
  · rw [if_neg h]
    exact existenceIn?_store _ h

/-- A query without an answer says nothing about a transition. -/
theorem existenceIn?_of_unanswered {c : Completion} {target : State}
    (hkind : q.kind = .transition c target) (hun : e.answerTo? q = none) :
    existenceIn? e.log c q.source q.main target = none := by
  unfold answerTo? at hun
  rw [hkind] at hun
  unfold existenceIn?
  rw [hun]
  rfl

/-- A transition that exists under one more completion stands once more in the chart. -/
theorem Charted.count_step (h : Charted s initial e.automaton e.log) {c : Completion} {target : State}
    {existence : Existence} (hkind : q.kind = .transition c target) (hun : e.answerTo? q = none)
    (hex : existence? (q.answer run.verdict) = some existence) (t : Transition) :
    (e.automaton.transitions ++ [(⟨q.source, target, q.main, existence⟩ : Transition)]).count t =
      [Completion.normal, .exceptional].countP fun c' =>
        existenceIn? (e.log.record q run) c' t.source t.action t.target = some t.existence := by
  obtain ⟨source, target', main, existence'⟩ := t
  have hold := existenceIn?_of_unanswered hkind hun
  rw [List.count_append, h.count_eq, List.count_singleton]
  simp only [existenceIn?_record, hkind, QueryKind.transition.injEq]
  by_cases heq : q.pair = (source, main) ∧ target = target'
  · -- the query adds its completion to the count, and nothing was said about it before
    obtain ⟨hp, rfl⟩ := heq
    obtain ⟨rfl, rfl⟩ := Prod.mk.inj hp
    cases c <;> by_cases hx : existence = existence' <;>
      simp [Query.pair, hold, hex, hx, List.countP_cons, Nat.add_comm]
  · have hne : (⟨q.source, target, q.main, existence⟩ : Transition) ≠
        ⟨source, target', main, existence'⟩ := by
      intro ht
      injection ht with hs ht hm _
      exact heq ⟨Prod.ext hs hm, ht⟩
    have hc : ∀ c', ¬ (q.pair = (source, main) ∧ c = c' ∧ target = target') := fun c' h' =>
      heq ⟨h'.1, h'.2.2⟩
    simp only [hc, if_false]
    rw [if_neg (by simpa using hne), Nat.add_zero]

/-- A transition query that is answered YES or MAYBE adds its transition to the chart. -/
theorem Charted.step (h : Charted s initial e.automaton e.log) {c : Completion} {target : State}
    {existence : Existence} (hkind : q.kind = .transition c target) (hun : e.answerTo? q = none)
    (hsource : q.source ∈ e.automaton.states) (htarget : ∀ a ∈ target, a ∈ s.set.actions)
    (hex : existence? (q.answer run.verdict) = some existence) :
    Charted s initial (e.automaton.addTransition ⟨q.source, target, q.main, existence⟩)
      (e.log.record q run) := by
  let t : Transition := ⟨q.source, target, q.main, existence⟩
  have hmem : ∀ {state}, state ∈ (e.automaton.addTransition t).states ↔
      state = target ∨ state ∈ e.automaton.states :=
    Automaton.mem_states_addTransition_iff (t := t) hsource
  have hnew : ∀ {state}, state ∈ e.automaton.states → state ∈ (e.automaton.addTransition t).states :=
    fun hm => hmem.2 (Or.inr hm)
  refine ⟨h.initial_eq, hnew h.initial_mem, ?_, ?_, ?_, ?_, ?_⟩
  · intro state hm
    rcases hmem.1 hm with rfl | hm
    · exact htarget
    · exact h.mem_actions state hm
  · intro t' ht'
    rcases Automaton.mem_transitions_addTransition.1 ht' with rfl | ht'
    · exact ⟨hnew hsource, q.main_mem_source⟩
    · exact ⟨hnew (h.mem_source t' ht').1, (h.mem_source t' ht').2⟩
  · intro t' ht'
    rcases Automaton.mem_transitions_addTransition.1 ht' with rfl | ht'
    · exact hmem.2 (Or.inl rfl)
    · exact hnew (h.mem_target t' ht')
  · intro state hm
    rcases hmem.1 hm with rfl | hm
    · exact .step (Automaton.mem_transitions_addTransition.2 (Or.inl rfl))
        ((h.reaches q.source hsource).addTransition t)
    · exact (h.reaches state hm).addTransition t
  · intro t'
    rw [Automaton.transitions_addTransition]
    exact h.count_step hkind hun hex t'

/-! ## What holds between two questions -/

/-- The chart and the log are in order. -/
structure Kept (s : Setting) (said : Query → Verdict → Prop) (initial : State) (e : Exploration) :
    Prop where
  charted : Charted s initial e.automaton e.log
  truthful : Truthful said e.log
  filed : Filed e.log
  visited_iff : ∀ state, state ∈ e.log.visited ↔ state ∈ e.automaton.states

/-- The books, the chart and the log are in order, and the explored states are those of the
automaton. -/
structure Sound (s : Setting) (said : Query → Verdict → Prop) (initial : State) (e : Exploration) :
    Prop extends Kept s said initial e where
  books : Books s (fun k => k.1 ∈ e.automaton.states) e

/-- More queries and copied outcomes change neither the chart nor what backs the log. -/
theorem Kept.grows (h : Kept s said initial e) {source : State} (hg : Grows source e e')
    (hs : source ∈ e.automaton.states) : Kept s said initial e' := by
  obtain ⟨hfiled, hvisited⟩ := h.filed.copied hg.copied ((h.visited_iff source).2 hs)
  have hcharted : Charted s initial e'.automaton e'.log := by
    rw [hg.automaton_eq]
    exact h.charted.congr hg.copied.existenceIn?_eq
  refine ⟨hcharted, h.truthful.copied hg.copied, hfiled, fun state => ?_⟩
  rw [hvisited, hg.automaton_eq]
  exact h.visited_iff state

theorem Grows.busy {source : State} (h : Grows source e e') {n : Nat} (hb : e.queue.Busy n) :
    e'.queue.Busy n := by
  obtain ⟨l, hl⟩ := h.queue_eq
  rw [hl]
  exact hb.pushAll l

/-- Recording a run keeps the chart in order if it speaks for no new transition. -/
theorem Kept.noted (h : Kept s said initial e) (hsource : q.source ∈ e.automaton.states)
    (hsaid : said q run.verdict)
    (hex : ∀ c target, q.kind = .transition c target →
      existence? (q.answer run.verdict) = none ∧ e.answerTo? q = none) :
    Kept s said initial (e.noted i q run) := by
  refine ⟨h.charted.congr fun c source main target => ?_, ?_, ?_, fun state => ?_⟩
  · show existenceIn? (e.log.record q run) c source main target = _
    rw [existenceIn?_record]
    split
    · next heq =>
      obtain ⟨hp, hkind⟩ := heq
      obtain ⟨rfl, rfl⟩ := Prod.mk.inj hp
      obtain ⟨hnone, hun⟩ := hex c target hkind
      rw [hnone, existenceIn?_of_unanswered hkind hun]
    · rfl
  · exact h.truthful.store (Or.inl ⟨run.verdict, hsaid, rfl⟩)
  · exact h.filed.store _ ((h.visited_iff q.source).2 hsource)
  · show state ∈ (e.log.store q _).visited ↔ _
    rw [visited_store]
    exact h.visited_iff state

/-- **A transition answer.**  The transition is added, and its target is explored if it is new. -/
theorem discover_spec (h : Sound s said initial e) (hq : e.queue.items[i]? = some q)
    (hbusy : (e.noted i q run).queue.Busy 1) (hsaid : said q run.verdict) {c : Completion}
    {target : State} (hkind : q.kind = .transition c target) {existence : Existence}
    (hex : existence? (q.answer run.verdict) = some existence) :
    (∃ fault, (e.noted i q run).discover s ⟨q.source, target, q.main, existence⟩ = .error fault ∧
      TooWide s fault) ∨
    ∃ e', (e.noted i q run).discover s ⟨q.source, target, q.main, existence⟩ = .ok e' ∧
      Sound s said initial e' ∧ e'.queue.Busy 1 ∧
      ∃ queries, Reused queries (e.noted i q run) e' := by
  obtain ⟨hsource, hexp⟩ := h.books.explored hq
  obtain ⟨hasked, hun⟩ := hexp.asked (mem_queuedAt_of_getElem? hq)
  have htarget : ∀ a ∈ target, a ∈ s.set.actions := by
    simp only [IsOpening, IsStep, hkind, false_or] at hasked
    exact hasked.mem_actions
  have hn : q.isNecessity = false := by simp [Query.isNecessity, Query.tested?, hkind]
  have hbooks : Books s (fun k => k.1 ∈ e.automaton.states) (e.noted i q run) :=
    h.books.noted hq hn
  let t : Transition := ⟨q.source, target, q.main, existence⟩
  let e₁ : Exploration := { e.noted i q run with automaton := e.automaton.addTransition t }
  have hcharted : Charted s initial e₁.automaton e₁.log :=
    h.charted.step hkind hun hsource htarget hex
  have htruthful : Truthful said e₁.log := h.truthful.store (Or.inl ⟨run.verdict, hsaid, rfl⟩)
  have hvisited : e₁.log.visited = e.log.visited := visited_store _ _ _
  have hfiled : Filed e₁.log := h.filed.store _ ((h.visited_iff q.source).2 hsource)
  have hmem : ∀ state, state ∈ e₁.automaton.states ↔
      state = target ∨ state ∈ e.automaton.states := fun state =>
    Automaton.mem_states_addTransition_iff (t := t) hsource
  have hdiscovery : (e.noted i q run).automaton.isDiscovery t = true ↔
      target ∉ e.automaton.states := Automaton.isDiscovery_iff (t := t) hsource
  unfold discover
  by_cases hnew : target ∈ e.automaton.states
  · -- the target is known: no state is added
    refine Or.inr ⟨e₁, if_neg fun hd => hdiscovery.1 hd hnew, ⟨⟨hcharted, htruthful, hfiled, ?_⟩, ?_⟩,
      hbusy, [], .nil rfl fun _ => rfl⟩
    · intro state
      rw [hvisited, hmem, h.visited_iff]
      exact ⟨Or.inr, fun hm => hm.elim (fun heq => heq ▸ hnew) id⟩
    · have hsame : ∀ k, SameAt k (e.noted i q run) e₁ := fun k => ⟨rfl, rfl, fun _ _ => rfl⟩
      refine (hbooks.of_sameAt hsame).congr fun k _ => ?_
      rw [hmem]
      exact ⟨Or.inr, fun hm => hm.elim (fun heq => heq ▸ hnew) id⟩
  · -- the new state is visited before it is explored
    let e₂ : Exploration := { e₁ with log := e₁.log.recordEnqueued t }
    have hanswer : ∀ source main kind, e₂.log.answer? source main kind =
        e₁.log.answer? source main kind := fun source main kind =>
      congrArg (·.map Outcome.answer) (ResultLog.outcome?_recordEnqueued ..)
    have hkept : Kept s said initial e₂ := by
      refine ⟨hcharted.congr fun c source main target => ?_, fun q' answer hq' => ?_, ?_, ?_⟩
      · exact congrArg (·.bind existence?) (hanswer ..)
      · exact htruthful q' answer ((hanswer ..).symm.trans hq')
      · exact hfiled.recordEnqueued (hvisited ▸ (h.visited_iff q.source).2 hsource)
      · intro state
        show state ∈ e₁.log.visited.insert target ↔ state ∈ e₁.automaton.states
        rw [Roster.mem_insert, hvisited, hmem, h.visited_iff]
    have hbooks₂ : Books s (fun k => k.1 ∈ e.automaton.states) e₂ :=
      hbooks.of_sameAt fun k => ⟨rfl, rfl, fun q' _ => hanswer ..⟩
    rw [if_pos (hdiscovery.2 hnew)]
    show (∃ fault, e₂.explore s target = .error fault ∧ TooWide s fault) ∨
      ∃ e', e₂.explore s target = .ok e' ∧ Sound s said initial e' ∧ e'.queue.Busy 1 ∧ _
    rcases explore_spec hbooks₂ (fun a _ => hnew) hbusy.closed_eq with
      hwide | ⟨e', he', hbooks', hgrow⟩
    · exact Or.inl hwide
    · obtain ⟨queries, hqueries⟩ := hgrow.reused
      have hnone : Reused [] (e.noted i q run) e₂ := .nil rfl fun q' => hanswer ..
      refine Or.inr ⟨e', he', ⟨hkept.grows hgrow ((hmem target).2 (Or.inl rfl)), ?_⟩,
        hgrow.busy hbusy, queries, hnone.trans hqueries⟩
      refine hbooks'.congr fun k _ => ?_
      rw [hgrow.automaton_eq, hmem, or_comm]

/-- **Reacting to an answer.** -/
theorem onAnswer_spec (h : Sound s said initial e) (hq : e.queue.items[i]? = some q)
    (hbal : e.queue.Balanced) (hsaid : said q run.verdict) :
    (∃ fault, (e.noted i q run).onAnswer s q (q.answer run.verdict) = .error fault ∧
      TooWide s fault) ∨
    ∃ e', (e.noted i q run).onAnswer s q (q.answer run.verdict) = .ok e' ∧
      Sound s said initial e' ∧ e'.queue.Busy 1 ∧
      ∃ queries, Reused queries (e.noted i q run) e' := by
  have hbusy : (e.noted i q run).queue.Busy 1 := hbal.take hq
  obtain ⟨hsource, hexp⟩ := h.books.explored hq
  have hun := (hexp.asked (mem_queuedAt_of_getElem? hq)).2
  unfold onAnswer
  split
  · next c hkind =>
    have hn : q.isNecessity = false := by simp [Query.isNecessity, Query.tested?, hkind]
    refine Or.inr ⟨_, rfl, ⟨h.toKept.noted hsource hsaid ?_, h.books.noted hq hn⟩, hbusy, [],
      .nil rfl fun _ => rfl⟩
    intro c' target hkind'
    rw [hkind] at hkind'
    simp at hkind'
  · next c target hkind =>
    split
    · next existence hex => exact discover_spec h hq hbusy hsaid hkind hex
    · next hnone =>
      have hn : q.isNecessity = false := by simp [Query.isNecessity, Query.tested?, hkind]
      exact Or.inr ⟨_, rfl, ⟨h.toKept.noted hsource hsaid fun _ _ _ => ⟨hnone, hun⟩,
        h.books.noted hq hn⟩, hbusy, [], .nil rfl fun _ => rfl⟩
  · next p scope tested hkind =>
    rcases resolve_spec h.books hq hkind (hbal.take hq).closed_eq with
      hwide | ⟨e', he', hbooks, hgrow⟩
    · exact Or.inl hwide
    · have hkept : Kept s said initial (e.noted i q run) := by
        refine h.toKept.noted hsource hsaid fun c target hkind' => ?_
        rw [hkind] at hkind'
        simp at hkind'
      refine Or.inr ⟨e', he', ⟨hkept.grows hgrow hsource, ?_⟩, hgrow.busy hbusy, hgrow.reused⟩
      exact hbooks.congr fun k _ => by rw [hgrow.automaton_eq]; rfl

/-- Books, chart and log do not depend on how the queue counts. -/
theorem Sound.setQueue (h : Sound s said initial e) {queue : WorkQueue Query}
    (hitems : queue.items = e.queue.items) : Sound s said initial { e with queue := queue } := by
  obtain ⟨⟨hcharted, htruthful, hfiled, hvisited⟩, hbooks⟩ := h
  refine ⟨⟨hcharted, htruthful, hfiled, hvisited⟩, ?_⟩
  refine hbooks.of_sameAt fun k => ⟨?_, rfl, fun _ _ => rfl⟩
  show queue.items.filter _ = e.queue.items.filter _
  rw [hitems]

/-- **Settling a query.**  A query that is taken from the queue and settled leaves all in order. -/
theorem settle_spec (h : Sound s said initial e) (hq : e.queue.items[i]? = some q)
    (hbal : e.queue.Balanced) (hsaid : said q run.verdict) :
    (∃ fault, { e with queue := { e.queue with items := e.queue.items.eraseIdx i } }.settle s q run =
      .error fault ∧ TooWide s fault) ∨
    ∃ e', { e with queue := { e.queue with items := e.queue.items.eraseIdx i } }.settle s q run =
      .ok e' ∧ Sound s said initial e' ∧ e'.queue.Balanced ∧
        ∃ queries, Reused queries (e.noted i q run) e' := by
  unfold settle
  show (∃ fault, ((e.noted i q run).onAnswer s q (q.answer run.verdict) >>= _) = .error fault ∧ _) ∨
    ∃ e', ((e.noted i q run).onAnswer s q (q.answer run.verdict) >>= _) = .ok e' ∧ _
  rcases onAnswer_spec h hq hbal hsaid with
    ⟨fault, hf, hwide⟩ | ⟨e₁, he₁, hsound, hbusy, queries, hqueries⟩
  · rw [hf]
    exact Or.inl ⟨fault, rfl, hwide⟩
  · rw [he₁]
    refine Or.inr ⟨_, rfl, hsound.setQueue e₁.queue.items_taskDone, hbusy.taskDone, queries ++ [], ?_⟩
    exact hqueries.trans (.nil rfl fun _ => rfl)

end Exploration

end Enabledness
