import Enabledness.Exploration.Rank
import Enabledness.Proofs.Candidates
import Enabledness.Proofs.Outcome

/-!
# The books of an exploration

Everything an exploration asks belongs to a pair of a state and a main action of that state, and the
handling of one pair never touches the books of another (`SameAt`).  So the books are kept pair by
pair.  A pair goes through three phases:

* `Untouched` : nothing was asked about it;
* `Waiting` : its invariant and necessity queries are asked, and some necessity answers are due;
* `Scheduled` : all necessity answers are in, and the transition queries to its candidate targets are
  asked.

In each phase `Ledger` says which queries were asked so far: these wait in the queue, each once, or
have an answer in the log, and never both.
-/

namespace Enabledness

/-! ## Queries about a pair -/

namespace Query

/-- The source and the main action of a query. -/
def pair (q : Query) : State × Action := (q.source, q.main)

/-- The query is a necessity query. -/
def isNecessity (q : Query) : Bool := q.tested?.isSome

theorem isNecessity_eq_true_iff {q : Query} :
    q.isNecessity = true ↔ ∃ p scope t, q.kind = .necessity p scope t := by
  unfold isNecessity tested?
  rcases q.kind with c | ⟨c, t⟩ | ⟨p, scope, t⟩ <;> simp

end Query

open Exploration (scopeOf)

theorem faultless_invariant {source : State} {main : Action} (h : main ∈ source) (c : Completion) :
    queryFault? source main (.invariant c) = none := by
  simp [queryFault?, h]

theorem faultless_transition {source : State} {main : Action} (h : main ∈ source) (c : Completion)
    (target : State) : queryFault? source main (.transition c target) = none := by
  simp [queryFault?, h]

/-- A state whose necessity queries are global enables one action only. -/
theorem single?_of_scopeOf {source : State} {main : Action} (h : main ∈ source)
    (hs : scopeOf source = .global) : source.single? = some main := by
  have hsize : source.toList.length = 1 := by
    unfold scopeOf at hs
    split at hs
    · assumption
    · simp at hs
  obtain ⟨a, ha⟩ := List.length_eq_one_iff.1 hsize
  have hm : main ∈ source.toList := h
  rw [ha, List.mem_singleton] at hm
  simp [State.single?, ha, hm]

theorem faultless_necessity {source : State} {main tested : Action} (h : main ∈ source)
    (ht : tested ≠ main) (p : Polarity) :
    queryFault? source main (.necessity p (scopeOf source) tested) = none := by
  have hsingle := single?_of_scopeOf h
  by_cases hs : scopeOf source = .global
  · simp [queryFault?, h, ht, hsingle hs]
  · simp [queryFault?, h, ht, hs]

/-- The tested action of a necessity query is not its main action. -/
theorem Query.tested_ne_main {q : Query} {p : Polarity} {scope : Scope} {t : Action}
    (h : q.kind = .necessity p scope t) : t ≠ q.main := by
  intro ht
  have hf := q.faultless
  unfold queryFault? at hf
  rw [if_neg (fun hm => hm q.main_mem_source), h] at hf
  simp [ht] at hf

/-- A question without a fault becomes a query. -/
theorem Query.make_of_faultless {source : State} {main : Action} {kind : QueryKind}
    (h : queryFault? source main kind = none) :
    Query.make source main kind = .ok ⟨source, main, kind, h⟩ := by
  unfold Query.make
  split
  · rfl
  · next fault hf =>
    rw [h] at hf
    simp at hf

theorem askAbout_of_faultless {source : State} {main : Action} {kind : QueryKind}
    (h : queryFault? source main kind = none) :
    askAbout source main kind = .ok ⟨source, main, kind, h⟩ := by
  rw [askAbout, Query.make_of_faultless h]

/-! ## Ledgers -/

namespace Exploration

/-- The answer to a query in the log. -/
def answerTo? (e : Exploration) (q : Query) : Option Answer := e.log.answer? q.source q.main q.kind

/-- The queries about a pair that wait in the queue. -/
def queuedAt (e : Exploration) (k : State × Action) : List Query :=
  e.queue.items.filter fun q => q.pair = k

theorem mem_queuedAt {e : Exploration} {k : State × Action} {q : Query} :
    q ∈ e.queuedAt k ↔ q ∈ e.queue.items ∧ q.pair = k := by
  simp [queuedAt]

/-- The queries about a pair that were asked so far: each waits in the queue once or has an answer,
and never both. -/
structure Ledger (k : State × Action) (asked : Query → Prop) (e : Exploration) : Prop where
  /-- No query waits twice. -/
  nodup : (e.queuedAt k).Nodup
  /-- A query that waits has no answer. -/
  unanswered : ∀ q ∈ e.queuedAt k, e.answerTo? q = none
  /-- What was asked waits or has an answer. -/
  asked_iff : ∀ q, q.pair = k → (q ∈ e.queuedAt k ∨ e.answerTo? q ≠ none ↔ asked q)

/-- Two explorations agree about a pair: the same queries wait, the same answers are due and the same
answers are known. -/
structure SameAt (k : State × Action) (e e' : Exploration) : Prop where
  /-- The same queries wait. -/
  queuedAt_eq : e'.queuedAt k = e.queuedAt k
  /-- The same answers are due. -/
  pending_eq : e'.pending.get? k = e.pending.get? k
  /-- The same answers are known. -/
  answerTo?_eq : ∀ q, q.pair = k → e'.answerTo? q = e.answerTo? q

theorem SameAt.refl (k : State × Action) (e : Exploration) : SameAt k e e :=
  ⟨rfl, rfl, fun _ _ => rfl⟩

theorem SameAt.trans {k : State × Action} {e e' e'' : Exploration} (h : SameAt k e e')
    (h' : SameAt k e' e'') : SameAt k e e'' where
  queuedAt_eq := h'.queuedAt_eq.trans h.queuedAt_eq
  pending_eq := h'.pending_eq.trans h.pending_eq
  answerTo?_eq q hq := (h'.answerTo?_eq q hq).trans (h.answerTo?_eq q hq)

namespace Ledger

variable {k : State × Action} {asked asked' : Query → Prop} {e e' : Exploration}

theorem congr (h : Ledger k asked e) (heq : ∀ q, q.pair = k → (asked q ↔ asked' q)) :
    Ledger k asked' e where
  nodup := h.nodup
  unanswered := h.unanswered
  asked_iff q hq := (h.asked_iff q hq).trans (heq q hq)

theorem of_sameAt (h : Ledger k asked e) (hs : SameAt k e e') : Ledger k asked e' where
  nodup := by
    rw [hs.queuedAt_eq]
    exact h.nodup
  unanswered q hq := by
    rw [hs.answerTo?_eq q (mem_queuedAt.1 hq).2]
    exact h.unanswered q (hs.queuedAt_eq ▸ hq)
  asked_iff q hq := by
    rw [hs.queuedAt_eq, hs.answerTo?_eq q hq]
    exact h.asked_iff q hq

theorem not_mem_of_not_asked (h : Ledger k asked e) {q : Query} (hq : q.pair = k) (hn : ¬ asked q) :
    ¬ q ∈ e.queuedAt k := fun hm => hn ((h.asked_iff q hq).1 (Or.inl hm))

theorem answerTo?_of_not_asked (h : Ledger k asked e) {q : Query} (hq : q.pair = k)
    (hn : ¬ asked q) : e.answerTo? q = none := by
  cases ha : e.answerTo? q with
  | none => rfl
  | some a => exact absurd ((h.asked_iff q hq).1 (Or.inr (by simp [ha]))) hn

end Ledger

/-! ## Adding queries to an open queue -/

theorem items_enqueue {e : Exploration} (ho : e.queue.closed = false) (l : List Query) :
    (e.enqueue l).queue.items = e.queue.items ++ l := by
  simp [enqueue, WorkQueue.pushAll, ho]

theorem closed_enqueue (e : Exploration) (l : List Query) :
    (e.enqueue l).queue.closed = e.queue.closed := by
  unfold enqueue WorkQueue.pushAll
  split <;> rfl

theorem queuedAt_enqueue {e : Exploration} (ho : e.queue.closed = false) (l : List Query)
    (k : State × Action) :
    (e.enqueue l).queuedAt k = e.queuedAt k ++ l.filter fun q => q.pair = k := by
  rw [queuedAt, items_enqueue ho, List.filter_append, queuedAt]

theorem answerTo?_enqueue (e : Exploration) (l : List Query) (q : Query) :
    (e.enqueue l).answerTo? q = e.answerTo? q := rfl

/-- Queries about one pair leave the books of all others as they are. -/
theorem sameAt_enqueue {e : Exploration} (ho : e.queue.closed = false) {l : List Query}
    {k k' : State × Action} (hl : ∀ q ∈ l, q.pair = k) (hk : k' ≠ k) :
    SameAt k' e (e.enqueue l) where
  queuedAt_eq := by
    rw [queuedAt_enqueue ho]
    have hnil : (l.filter fun q => q.pair = k') = [] := by
      refine List.filter_eq_nil_iff.2 fun q hq hp => hk ?_
      rw [← of_decide_eq_true hp]
      exact hl q hq
    rw [hnil, List.append_nil]
  pending_eq := rfl
  answerTo?_eq _ _ := rfl

/-- New queries about a pair are asked from now on. -/
theorem Ledger.enqueue {k : State × Action} {asked : Query → Prop} {e : Exploration}
    (h : Ledger k asked e) (ho : e.queue.closed = false) {l : List Query}
    (hl : ∀ q ∈ l, q.pair = k) (hnodup : l.Nodup) (hnew : ∀ q ∈ l, ¬ asked q) :
    Ledger k (fun q => asked q ∨ q ∈ l) (e.enqueue l) := by
  have hfilter : (l.filter fun q => q.pair = k) = l :=
    List.filter_eq_self.2 fun q hq => decide_eq_true (hl q hq)
  have hqueued : (e.enqueue l).queuedAt k = e.queuedAt k ++ l := by
    rw [queuedAt_enqueue ho, hfilter]
  refine ⟨?_, fun q hq => ?_, fun q hq => ?_⟩
  · rw [hqueued]
    refine List.nodup_append.2 ⟨h.nodup, hnodup, fun q hq q' hq' heq => ?_⟩
    subst heq
    exact h.not_mem_of_not_asked (hl q hq') (hnew q hq') hq
  · rw [hqueued] at hq
    rcases List.mem_append.1 hq with hq | hq
    · exact h.unanswered q hq
    · exact h.answerTo?_of_not_asked (hl q hq) (hnew q hq)
  · rw [hqueued, List.mem_append, answerTo?_enqueue, ← h.asked_iff q hq]
    constructor
    · rintro ((hm | hm) | hm)
      · exact Or.inl (Or.inl hm)
      · exact Or.inr hm
      · exact Or.inl (Or.inr hm)
    · rintro ((hm | hm) | hm)
      · exact Or.inl (Or.inl hm)
      · exact Or.inr hm
      · exact Or.inl (Or.inr hm)

/-! ## Taking a query out of the queue and noting its answer -/

/-- The exploration after a query was taken from the queue and its run recorded. -/
def noted (e : Exploration) (i : Nat) (q : Query) (run : VerifierRun) : Exploration :=
  { e with
    queue := { e.queue with items := e.queue.items.eraseIdx i }
    log := e.log.record q run }

theorem answerTo?_noted (e : Exploration) (i : Nat) (q : Query) (run : VerifierRun) (q' : Query) :
    (e.noted i q run).answerTo? q' = if q' = q then some (q.answer run.verdict) else e.answerTo? q' :=
  ResultLog.answer?_store_query _ _ _ _

theorem filter_eraseIdx_of_neg {α : Type} {p : α → Bool} {l : List α} {i : Nat} {a : α}
    (h : l[i]? = some a) (hp : p a = false) : (l.eraseIdx i).filter p = l.filter p := by
  induction l generalizing i with
  | nil => simp at h
  | cons b l ih =>
    cases i with
    | zero =>
      simp only [List.getElem?_cons_zero, Option.some.injEq] at h
      subst h
      simp [hp]
    | succ i =>
      simp only [List.getElem?_cons_succ] at h
      simp only [List.eraseIdx_cons_succ, List.filter_cons, ih h]

section Noted

variable {e : Exploration} {i : Nat} {q : Query} {run : VerifierRun} {k : State × Action}
  (hq : e.queue.items[i]? = some q)

include hq

theorem mem_queuedAt_of_getElem? : q ∈ e.queuedAt q.pair :=
  mem_queuedAt.2 ⟨List.mem_of_getElem? hq, rfl⟩

theorem countP_queuedAt_noted (run : VerifierRun) (p : Query → Bool) :
    ((e.noted i q run).queuedAt k).countP p + (if p q && decide (q.pair = k) then 1 else 0) =
      (e.queuedAt k).countP p := by
  unfold queuedAt
  rw [List.countP_filter, List.countP_filter]
  exact countP_eraseIdx _ hq

/-- Noting an answer leaves the books of other pairs as they are. -/
theorem sameAt_noted (hk : k ≠ q.pair) : SameAt k e (e.noted i q run) where
  queuedAt_eq := filter_eraseIdx_of_neg hq (decide_eq_false (Ne.symm hk))
  pending_eq := rfl
  answerTo?_eq q' hq' := by
    rw [answerTo?_noted, if_neg]
    intro heq
    exact hk (hq'.symm.trans (congrArg Query.pair heq))

/-- What was asked stays asked when an answer is noted: the query goes from the queue to the log. -/
theorem Ledger.noted {asked : Query → Prop} (h : Ledger k asked e) :
    Ledger k asked (e.noted i q run) := by
  by_cases hk : k = q.pair
  · subst hk
    have hsub : ((e.noted i q run).queuedAt q.pair).Sublist (e.queuedAt q.pair) :=
      (List.eraseIdx_sublist _ _).filter _
    -- the query waits once, so it is gone after it was taken
    have hone : (e.queuedAt q.pair).count q = 1 :=
      List.count_eq_one_of_mem h.nodup (mem_queuedAt_of_getElem? hq)
    have hgone : ¬ q ∈ (e.noted i q run).queuedAt q.pair := by
      intro hm
      have hcount := countP_queuedAt_noted (k := q.pair) hq run (· == q)
      have hpos : 0 < ((e.noted i q run).queuedAt q.pair).count q := List.count_pos_iff.2 hm
      simp only [beq_self_eq_true, decide_true, Bool.and_self, if_true] at hcount
      unfold List.count at hpos hone
      omega
    -- and no other query is
    have hother : ∀ q', q' ≠ q →
        (q' ∈ (e.noted i q run).queuedAt q.pair ↔ q' ∈ e.queuedAt q.pair) := by
      intro q' hne
      refine ⟨fun hm => hsub.subset hm, fun hm => ?_⟩
      have hcount := countP_queuedAt_noted (k := q.pair) hq run (· == q')
      have hpos : 0 < (e.queuedAt q.pair).count q' := List.count_pos_iff.2 hm
      have hb : (q == q') = false := by simpa using Ne.symm hne
      rw [hb, Bool.false_and, if_neg Bool.false_ne_true, Nat.add_zero] at hcount
      apply List.count_pos_iff.1
      unfold List.count at hpos ⊢
      omega
    refine ⟨hsub.nodup h.nodup, fun q' hm => ?_, fun q' hp => ?_⟩
    · have hne : q' ≠ q := fun heq => hgone (heq ▸ hm)
      rw [answerTo?_noted, if_neg hne]
      exact h.unanswered q' (hsub.subset hm)
    · by_cases hne : q' = q
      · subst hne
        have hasked : asked q' := (h.asked_iff q' hp).1 (Or.inl (mem_queuedAt_of_getElem? hq))
        simp [answerTo?_noted, hasked]
      · rw [answerTo?_noted, if_neg hne, hother q' hne]
        exact h.asked_iff q' hp
  · exact h.of_sameAt (sameAt_noted hq hk)

end Noted

/-! ## The phases of a pair -/

/-- The necessity answer that counts for a main action in a state. -/
def necessityAnswer? (l : ResultLog) (source : State) (main : Action) (p : Polarity)
    (tested : Action) : Option Answer :=
  l.answer? source main (.necessity p (scopeOf source) tested)

/-- The queries that are asked about a pair as soon as its state is explored. -/
def IsOpening (s : Setting) (q : Query) : Prop :=
  match q.kind with
  | .invariant _ => True
  | .necessity _ scope tested => scope = scopeOf q.source ∧ tested ∈ s.set.actions
  | .transition _ _ => False

/-- The transition queries to candidate targets. -/
def IsStep (s : Setting) (l : ResultLog) (q : Query) : Prop :=
  match q.kind with
  | .transition _ target => IsCandidate s.set (necessityAnswer? l q.source q.main) q.main target
  | _ => False

/-- Nothing was asked about a pair. -/
structure Untouched (k : State × Action) (e : Exploration) : Prop where
  /-- No answer is due. -/
  pending_eq : e.pending.get? k = none
  /-- Nothing was asked. -/
  ledger : Ledger k (fun _ => False) e

/-- The invariant and necessity queries of a pair were asked, and some necessity answers are due. -/
structure Waiting (s : Setting) (k : State × Action) (f : Facts) (e : Exploration) : Prop where
  /-- The facts so far. -/
  pending_eq : e.pending.get? k = some f
  /-- The queries so far. -/
  ledger : Ledger k (IsOpening s) e
  /-- The count of due answers is the number of necessity queries that wait. -/
  remaining_eq : f.remaining = (e.queuedAt k).countP Query.isNecessity
  /-- Some answer is due. -/
  remaining_pos : 0 < f.remaining
  /-- The facts are what the log says. -/
  answer?_eq : ∀ t ∈ s.set.actions, t ≠ k.2 → ∀ p,
    f.answer? p t = necessityAnswer? e.log k.1 k.2 p t

/-- All necessity answers of a pair are in, and the transition queries to its candidates were asked. -/
structure Scheduled (s : Setting) (k : State × Action) (e : Exploration) : Prop where
  /-- No answer is due. -/
  pending_eq : e.pending.get? k = none
  /-- The queries so far. -/
  ledger : Ledger k (fun q => IsOpening s q ∨ IsStep s e.log q) e
  /-- No necessity query waits. -/
  settled : ∀ q ∈ e.queuedAt k, q.isNecessity = false

/-- A pair whose state was explored is in one of two phases. -/
def Explored (s : Setting) (k : State × Action) (e : Exploration) : Prop :=
  (∃ f, Waiting s k f e) ∨ Scheduled s k e

/-- The books of an exploration in which the pairs of some states were explored. -/
def Books (s : Setting) (done : State × Action → Prop) (e : Exploration) : Prop :=
  ∀ k : State × Action, k.2 ∈ k.1 → (done k → Explored s k e) ∧ (¬ done k → Untouched k e)

section SameAt

variable {s : Setting} {k : State × Action} {e e' : Exploration}

/-- Explorations that agree about a pair agree about its necessity answers. -/
theorem SameAt.necessityAnswer?_eq (h : SameAt k e e') (hk : k.2 ∈ k.1) {t : Action}
    (ht : t ≠ k.2) (p : Polarity) :
    necessityAnswer? e'.log k.1 k.2 p t = necessityAnswer? e.log k.1 k.2 p t :=
  h.answerTo?_eq ⟨k.1, k.2, _, faultless_necessity hk ht p⟩ rfl

/-- The candidate targets of a pair depend on its necessity answers. -/
theorem isStep_congr {l l' : ResultLog} {q : Query}
    (h : ∀ t ∈ s.set.actions, t ≠ q.main → ∀ p,
      necessityAnswer? l' q.source q.main p t = necessityAnswer? l q.source q.main p t) :
    IsStep s l' q ↔ IsStep s l q := by
  unfold IsStep
  split
  · constructor
    · intro hc
      exact hc.congr fun t ht hne p => (h t ht hne p).symm
    · intro hc
      exact hc.congr h
  · rfl

theorem Untouched.of_sameAt (h : Untouched k e) (hs : SameAt k e e') : Untouched k e' where
  pending_eq := hs.pending_eq.trans h.pending_eq
  ledger := h.ledger.of_sameAt hs

theorem Waiting.of_sameAt {f : Facts} (h : Waiting s k f e) (hk : k.2 ∈ k.1)
    (hs : SameAt k e e') : Waiting s k f e' where
  pending_eq := hs.pending_eq.trans h.pending_eq
  ledger := h.ledger.of_sameAt hs
  remaining_eq := by
    rw [hs.queuedAt_eq]
    exact h.remaining_eq
  remaining_pos := h.remaining_pos
  answer?_eq t ht hne p := by
    rw [hs.necessityAnswer?_eq hk hne]
    exact h.answer?_eq t ht hne p

theorem Scheduled.of_sameAt (h : Scheduled s k e) (hk : k.2 ∈ k.1) (hs : SameAt k e e') :
    Scheduled s k e' where
  pending_eq := hs.pending_eq.trans h.pending_eq
  ledger := by
    refine (h.ledger.of_sameAt hs).congr fun q hq => or_congr Iff.rfl ?_
    subst hq
    exact (isStep_congr fun t _ hne p => hs.necessityAnswer?_eq hk hne p).symm
  settled q hq := h.settled q (hs.queuedAt_eq ▸ hq)

theorem Explored.of_sameAt (h : Explored s k e) (hk : k.2 ∈ k.1) (hs : SameAt k e e') :
    Explored s k e' := by
  rcases h with ⟨f, h⟩ | h
  · exact Or.inl ⟨f, h.of_sameAt hk hs⟩
  · exact Or.inr (h.of_sameAt hk hs)

/-- The books depend on which pairs were explored. -/
theorem Books.congr {done done' : State × Action → Prop} (h : Books s done e)
    (hd : ∀ k : State × Action, k.2 ∈ k.1 → (done k ↔ done' k)) : Books s done' e := fun k hk =>
  ⟨fun h' => (h k hk).1 ((hd k hk).2 h'), fun h' => (h k hk).2 fun h'' => h' ((hd k hk).1 h'')⟩

/-- Explorations that agree about all pairs have the same books. -/
theorem Books.of_sameAt {done : State × Action → Prop} (h : Books s done e)
    (hs : ∀ k, SameAt k e e') : Books s done e' := fun k hk =>
  ⟨fun hd => ((h k hk).1 hd).of_sameAt hk (hs k), fun hd => ((h k hk).2 hd).of_sameAt (hs k)⟩

/-- Books that change at one pair only. -/
theorem Books.update {done done' : State × Action → Prop} (h : Books s done e)
    {k₀ : State × Action} (hs : ∀ k, k ≠ k₀ → SameAt k e e') (h₀ : Explored s k₀ e')
    (hd : ∀ k, done' k ↔ done k ∨ k = k₀) : Books s done' e' := by
  intro k hk
  by_cases heq : k = k₀
  · subst heq
    exact ⟨fun _ => h₀, fun hn => absurd ((hd k).2 (Or.inr rfl)) hn⟩
  · refine ⟨fun hdone => ?_, fun hn => ?_⟩
    · rcases (hd k).1 hdone with hdone | hdone
      · exact ((h k hk).1 hdone).of_sameAt hk (hs k heq)
      · exact absurd hdone heq
    · exact ((h k hk).2 fun hdone => hn ((hd k).2 (Or.inl hdone))).of_sameAt (hs k heq)

end SameAt

end Exploration

end Enabledness
