import Enabledness.Proofs.Scheduling
import Enabledness.Proofs.SettledOnce
import Enabledness.Proofs.Termination

/-!
# Necessity answers that are due

A pair of a state and a main action waits until all necessity answers about it are in, and it keeps a
count of those that are still due.  Between two questions this count is exact, whatever the order of the
questions.

* `Tracks` : only actions of their states are waited for, and what is noted about them are answers to
  their own necessity questions.
* `Ledger.countP_add_knownAnswers` : a necessity question waits or has an answer, so the two numbers add
  up to the number of questions.
* `Sound.pending_eq_none_iff` : a pair that is not waited for has all answers, unless nothing was asked.
* `InOrder.mem_transitionsOf_iff` : the transition queries of a pair are asked when all its answers are
  known, and not before.
* `due_answers_exact` : all of this together, and that nothing is asked about a pair again.
-/

namespace Enabledness

open Exploration

/-! ## What is noted about a pair -/

namespace Facts

variable {s : Setting} {main : Action} {f : Facts}

/-- The facts are answers to necessity questions about a main action. -/
def IsAbout (f : Facts) (s : Setting) (main : Action) : Prop :=
  ∀ p t, f.answer? p t ≠ none → (t, p) ∈ necessityKinds s main

theorem isAbout_empty : ({} : Facts).IsAbout s main := fun p t h => absurd (answer?_empty p t) h

theorem IsAbout.insert (h : f.IsAbout s main) {tested : Action} {p : Polarity}
    (ht : (tested, p) ∈ necessityKinds s main) (answer : Answer) :
    (f.insert tested answer p).IsAbout s main := by
  intro p' t ha
  rw [answer?_insert] at ha
  split at ha
  · next heq =>
    obtain ⟨rfl, rfl⟩ := heq
    exact ht
  · exact h p' t ha

/-- The facts that are noted are as many as the questions that they answer. -/
theorem IsAbout.size_eq (h : f.IsAbout s main) :
    f.enabled.size + f.disabled.size =
      (necessityKinds s main).countP fun x => (f.answer? x.2 x.1).isSome := by
  have hsize : ∀ t : Table Action Answer, t.size = t.keys.length := fun t =>
    (List.length_reverse).symm
  have hperm : (f.enabled.keys.map (·, Polarity.enabled) ++
      f.disabled.keys.map (·, Polarity.disabled)).Perm
      ((necessityKinds s main).filter fun x => (f.answer? x.2 x.1).isSome) := by
    refine (List.perm_ext_iff_of_nodup ?_ ((nodup_necessityKinds s main).filter _)).2 ?_
    · refine List.nodup_append.2 ⟨f.enabled.nodup_keys.map fun _ _ h => (Prod.mk.inj h).1,
        f.disabled.nodup_keys.map fun _ _ h => (Prod.mk.inj h).1, ?_⟩
      simp
    · rintro ⟨t, p⟩
      have hmem : (f.answer? p t).isSome = true → (t, p) ∈ necessityKinds s main := fun ha =>
        h p t fun hnone => by simp [hnone] at ha
      have hiff := (and_iff_right_of_imp hmem).symm
      cases p with
      | enabled => simpa [Table.mem_keys_iff, answer?, answers] using hiff
      | disabled => simpa [Table.mem_keys_iff, answer?, answers] using hiff
  have hlength := hperm.length_eq
  rwa [List.length_append, List.length_map, List.length_map, ← hsize, ← hsize,
    ← List.countP_eq_length_filter] at hlength

end Facts

namespace Exploration

variable {s : Setting} {e e' : Exploration} {state : State} {main : Action}
  {pending : Table (State × Action) Facts} {k : State × Action} {f : Facts}

/-- Only actions of their states are waited for, and what is noted are answers about them. -/
def Tracks (s : Setting) (pending : Table (State × Action) Facts) : Prop :=
  ∀ k f, pending.get? k = some f → k.2 ∈ k.1 ∧ f.IsAbout s k.2

theorem Tracks.insert (h : Tracks s pending) (hk : k.2 ∈ k.1) (hf : f.IsAbout s k.2) :
    Tracks s (pending.insert k f) := by
  intro k' f' hget
  rw [Table.get?_insert] at hget
  split at hget
  · next heq =>
    obtain rfl := Option.some.inj hget
    exact heq ▸ ⟨hk, hf⟩
  · exact h k' f' hget

theorem Tracks.erase (h : Tracks s pending) (k : State × Action) : Tracks s (pending.erase k) := by
  intro k' f' hget
  rw [Table.get?_erase] at hget
  split at hget
  · simp at hget
  · exact h k' f' hget

/-- Going through the necessity questions about a main action notes answers to these. -/
theorem isAbout_gather {l : List (Action × Polarity)} {facts facts' : Facts} {toAsk toAsk' : List Query}
    (h : gather state main l e facts toAsk = .ok (e', facts', toAsk'))
    (hl : ∀ x ∈ l, x ∈ necessityKinds s main) (hfacts : facts.IsAbout s main) :
    e'.pending = e.pending ∧ facts'.IsAbout s main := by
  induction l generalizing e facts toAsk with
  | nil =>
    simp only [gather, Except.ok.injEq, Prod.mk.injEq] at h
    obtain ⟨rfl, rfl, -⟩ := h
    exact ⟨rfl, hfacts⟩
  | cons x l ih =>
    obtain ⟨tested, polarity⟩ := x
    have hrest : ∀ x ∈ l, x ∈ necessityKinds s main := fun x hx => hl x (List.mem_cons_of_mem _ hx)
    rw [gather] at h
    cases hq : askAbout state main (.necessity polarity (scopeOf state) tested) with
    | error fault => simp [hq, bind, Except.bind] at h
    | ok q =>
      simp only [hq, bind, Except.bind] at h
      split at h
      · obtain ⟨hpending, hfacts'⟩ := ih h hrest (hfacts.insert (hl _ List.mem_cons_self) _)
        exact ⟨hpending, hfacts'⟩
      · exact ih h hrest hfacts

theorem Tracks.explorePair (h : explorePair s state e main = .ok e') (hm : main ∈ state)
    (hp : Tracks s e.pending) : Tracks s e'.pending := by
  unfold Exploration.explorePair at h
  cases hi : invariantQueries state main with
  | error fault => simp [hi, bind, Except.bind] at h
  | ok invariants =>
    simp only [hi, bind, Except.bind] at h
    split at h
    · simp at h
    · next r hr =>
      obtain ⟨e₁, facts, toAsk⟩ := r
      obtain ⟨hpending, hfacts⟩ := isAbout_gather hr (fun x hx => hx) Facts.isAbout_empty
      have hp₁ : Tracks s e₁.pending := by
        rw [hpending]
        exact hp
      simp only at h
      split at h
      · rwa [pending_schedule h]
      · simp only [pure, Except.pure, Except.ok.injEq] at h
        subst h
        exact hp₁.insert hm hfacts

theorem Tracks.explore (h : e.explore s state = .ok e') (hp : Tracks s e.pending) :
    Tracks s e'.pending :=
  explore_induction (P := fun e => Tracks s e.pending)
    (fun _ hm _ _ ha hp => Tracks.explorePair ha hm hp) h hp

/-- A necessity answer is noted where its query was asked about. -/
theorem Tracks.settle {q : Query} {run : VerifierRun} (h : e.settle s q run = .ok e')
    (hq : ∀ p scope t, q.kind = .necessity p scope t → t ∈ s.set.actions)
    (hp : Tracks s e.pending) : Tracks s e'.pending := by
  unfold Exploration.settle at h
  cases ha : onAnswer s { e with log := e.log.record q run } q (q.answer run.verdict) with
  | error fault => simp [ha, bind, Except.bind] at h
  | ok e₁ =>
    simp only [ha, bind, Except.bind, pure, Except.pure, Except.ok.injEq] at h
    obtain rfl := h
    show Tracks s e₁.pending
    unfold onAnswer at ha
    split at ha
    · exact Except.ok.inj ha ▸ hp
    · split at ha
      · unfold discover at ha
        simp only at ha
        split at ha
        · exact Tracks.explore ha hp
        · exact Except.ok.inj ha ▸ hp
      · exact Except.ok.inj ha ▸ hp
    · next p scope tested hkind =>
      unfold resolve at ha
      split at ha
      · simp at ha
      · next facts hget =>
        obtain ⟨hm, hfacts⟩ := hp _ _ hget
        have hkinds : (tested, p) ∈ necessityKinds s q.main :=
          mem_necessityKinds.2 ⟨hq p scope tested hkind, Query.tested_ne_main hkind⟩
        have hinsert := hp.insert (f := facts.after tested (q.answer run.verdict) p) hm
          (hfacts.insert hkinds _)
        simp only at ha
        split at ha
        · rw [pending_schedule ha]
          exact hinsert.erase _
        · exact Except.ok.inj ha ▸ hinsert

/-! ## Due answers and known answers -/

/-- The number of necessity answers about a main action in a state that a log has. -/
def knownAnswers (s : Setting) (l : ResultLog) (source : State) (main : Action) : Nat :=
  (necessityKinds s main).countP fun x => (necessityAnswer? l source main x.2 x.1).isSome

/-- Once all necessity questions about a pair were asked, those without an answer wait. -/
theorem Ledger.perm_unanswered {asked : Query → Prop} (h : Ledger k asked e) (hk : k.2 ∈ k.1)
    (hasked : ∀ q : Query, q.isNecessity = true → (asked q ↔ IsOpening s q)) :
    (((e.queuedAt k).filter Query.isNecessity).map Query.kind).Perm
      (((necessityKinds s k.2).filter fun x =>
        ¬ (necessityAnswer? e.log k.1 k.2 x.2 x.1).isSome = true).map
          fun x => .necessity x.2 (scopeOf k.1) x.1) := by
  refine (List.perm_ext_iff_of_nodup ?_ ?_).2 fun kind => ?_
  · refine (h.nodup.filter _).map_on fun q hq q' hq' hkind => ?_
    have hpair := (mem_queuedAt.1 (List.mem_filter.1 hq).1).2
    have hpair' := (mem_queuedAt.1 (List.mem_filter.1 hq').1).2
    obtain ⟨hs, hm⟩ := Prod.mk.inj (hpair.trans hpair'.symm)
    exact Query.ext_of hs hm hkind
  · refine ((nodup_necessityKinds s k.2).filter _).map fun x y hxy => ?_
    obtain ⟨hp, -, ht⟩ := QueryKind.necessity.inj hxy
    exact Prod.ext ht hp
  · simp only [List.mem_map, List.mem_filter, decide_eq_true_iff]
    constructor
    · -- a query that waits was asked and has no answer
      rintro ⟨q, ⟨hq, hn⟩, rfl⟩
      obtain ⟨p, scope, t, hkind⟩ := Query.isNecessity_eq_true_iff.1 hn
      have hopen := (hasked q hn).1 ((h.asked_iff q (mem_queuedAt.1 hq).2).1 (Or.inl hq))
      have hnone := h.unanswered q hq
      obtain rfl := (mem_queuedAt.1 hq).2
      simp only [IsOpening, hkind] at hopen
      obtain ⟨rfl, ht⟩ := hopen
      refine ⟨(t, p), ⟨mem_necessityKinds.2 ⟨ht, Query.tested_ne_main hkind⟩, ?_⟩, hkind.symm⟩
      rw [answerTo?, hkind] at hnone
      simp [necessityAnswer?, Query.pair, hnone]
    · -- a question without an answer was asked, so it waits
      rintro ⟨⟨t, p⟩, ⟨hx, hnone⟩, rfl⟩
      obtain ⟨ht, hne⟩ := mem_necessityKinds.1 hx
      let q : Query := ⟨k.1, k.2, _, faultless_necessity hk hne p⟩
      have hn : q.isNecessity = true := Query.isNecessity_eq_true_iff.2 ⟨_, _, _, rfl⟩
      rcases (h.asked_iff q rfl).2 ((hasked q hn).2 ⟨rfl, ht⟩) with hq | hq
      · exact ⟨q, ⟨hq, hn⟩, rfl⟩
      · exact absurd (Option.isSome_iff_ne_none.2 hq) hnone

/-- **A necessity question waits or has an answer**, once all of them were asked. -/
theorem Ledger.countP_add_knownAnswers {asked : Query → Prop} (h : Ledger k asked e) (hk : k.2 ∈ k.1)
    (hasked : ∀ q : Query, q.isNecessity = true → (asked q ↔ IsOpening s q)) :
    (e.queuedAt k).countP Query.isNecessity + knownAnswers s e.log k.1 k.2 =
      (necessityKinds s k.2).length := by
  have hlength := (h.perm_unanswered hk hasked).length_eq
  rw [List.length_map, List.length_map, ← List.countP_eq_length_filter,
    ← List.countP_eq_length_filter] at hlength
  rw [hlength, knownAnswers, Nat.add_comm]
  exact (List.length_eq_countP_add_countP _).symm

/-- The answers that a pair waits for and those that are known are all that there are. -/
theorem Waiting.remaining_add_knownAnswers (h : Waiting s k f e) (hk : k.2 ∈ k.1) :
    f.remaining + knownAnswers s e.log k.1 k.2 = (necessityKinds s k.2).length := by
  rw [h.remaining_eq]
  exact h.ledger.countP_add_knownAnswers hk fun _ _ => Iff.rfl

/-- The answers that are known are those that are noted. -/
theorem Waiting.size_eq_knownAnswers (h : Waiting s k f e) (hf : f.IsAbout s k.2) :
    f.enabled.size + f.disabled.size = knownAnswers s e.log k.1 k.2 := by
  rw [hf.size_eq]
  refine List.countP_congr fun x hx => ?_
  obtain ⟨ht, hne⟩ := mem_necessityKinds.1 hx
  rw [h.answer?_eq x.1 ht hne]

/-- When the candidates of a pair are asked about, all its answers are known. -/
theorem Scheduled.knownAnswers_eq (h : Scheduled s k e) (hk : k.2 ∈ k.1) :
    knownAnswers s e.log k.1 k.2 = (necessityKinds s k.2).length := by
  have hcount := h.ledger.countP_add_knownAnswers (s := s) hk fun q hn => by
    obtain ⟨p, scope, t, hkind⟩ := Query.isNecessity_eq_true_iff.1 hn
    simp [IsStep, hkind]
  have hnone : (e.queuedAt k).countP Query.isNecessity = 0 :=
    List.countP_eq_zero.2 fun q hq => by simp [h.settled q hq]
  omega

/-- The state was explored, and all necessity answers about one of its actions are known. -/
structure Resolved (s : Setting) (e : Exploration) (source : State) (main : Action) : Prop where
  mem_states : source ∈ e.automaton.states
  mem_source : main ∈ source
  knownAnswers_eq : knownAnswers s e.log source main = 2 * (s.set.size - 1)

section Sound

variable {said : Query → Verdict → Prop} {initial source : State}

/-- All questions about an action of a registered state. -/
theorem Sound.length_necessityKinds (h : Sound s said initial e) (hs : source ∈ e.automaton.states)
    (hm : main ∈ source) : (necessityKinds s main).length = 2 * (s.set.size - 1) :=
  Exploration.length_necessityKinds (h.charted.mem_actions source hs main hm)

/-- What is noted is noted about a pair that waits. -/
theorem Sound.waiting_of_pending (h : Sound s said initial e) (hk : k.2 ∈ k.1)
    (hget : e.pending.get? k = some f) : k.1 ∈ e.automaton.states ∧ Waiting s k f e := by
  by_cases hs : k.1 ∈ e.automaton.states
  · rcases (h.books k hk).1 hs with ⟨f', hw⟩ | hsch
    · obtain rfl := Option.some.inj (hget.symm.trans hw.pending_eq)
      exact ⟨hs, hw⟩
    · rw [hsch.pending_eq] at hget
      simp at hget
  · rw [((h.books k hk).2 hs).pending_eq] at hget
    simp at hget

/-- A pair is in its last phase exactly if all its answers are known. -/
theorem Sound.resolved_iff (h : Sound s said initial e) (hm : main ∈ source) :
    Resolved s e source main ↔
      source ∈ e.automaton.states ∧ Scheduled s (source, main) e := by
  constructor
  · intro hr
    refine ⟨hr.mem_states, ((h.books (source, main) hm).1 hr.mem_states).resolve_left ?_⟩
    rintro ⟨f, hw⟩
    have hsum := hw.remaining_add_knownAnswers hm
    have hpos := hw.remaining_pos
    rw [hr.knownAnswers_eq, h.length_necessityKinds hr.mem_states hm] at hsum
    omega
  · rintro ⟨hs, hsch⟩
    exact ⟨hs, hm, (hsch.knownAnswers_eq hm).trans (h.length_necessityKinds hs hm)⟩

/-- **Which pairs are not waited for**: nothing was asked about them, or all answers are known. -/
theorem Sound.pending_eq_none_iff (h : Sound s said initial e) (ht : Tracks s e.pending)
    (source : State) (main : Action) :
    e.pending.get? (source, main) = none ↔ source ∉ e.automaton.states ∨ main ∉ source ∨
      knownAnswers s e.log source main = 2 * (s.set.size - 1) := by
  constructor
  · intro hnone
    by_cases hs : source ∈ e.automaton.states
    · by_cases hm : main ∈ source
      · rcases (h.books (source, main) hm).1 hs with ⟨f, hw⟩ | hsch
        · rw [hw.pending_eq] at hnone
          simp at hnone
        · exact Or.inr (Or.inr ((h.resolved_iff hm).2 ⟨hs, hsch⟩).knownAnswers_eq)
      · exact Or.inr (Or.inl hm)
    · exact Or.inl hs
  · intro hcases
    cases hget : e.pending.get? (source, main) with
    | none => rfl
    | some f =>
      have hm : main ∈ source := (ht _ _ hget).1
      obtain ⟨hs, hw⟩ := h.waiting_of_pending hm hget
      rcases hcases with hs' | hm' | hknown
      · exact absurd hs hs'
      · exact absurd hm hm'
      · have hsch := ((h.resolved_iff hm).1 ⟨hs, hm, hknown⟩).2
        rw [hsch.pending_eq] at hget
        simp at hget

/-- A necessity query that waits is counted by its pair, and its answer was not noted. -/
theorem Sound.exists_pending (h : Sound s said initial e) {q : Query} (hq : q ∈ e.queue.items)
    {p : Polarity} {scope : Scope} {t : Action} (hkind : q.kind = .necessity p scope t) :
    ∃ f, e.pending.get? q.pair = some f ∧ 0 < f.remaining ∧ f.answer? p t = none := by
  obtain ⟨i, hi⟩ := List.mem_iff_getElem?.1 hq
  obtain ⟨hsource, hexplored⟩ := h.books.explored hi
  have hqueued := mem_queuedAt_of_getElem? hi
  obtain ⟨f, hw⟩ := hexplored.waiting hqueued (Query.isNecessity_eq_true_iff.2 ⟨p, scope, t, hkind⟩)
  have hopen := (hw.ledger.asked_iff q rfl).1 (Or.inl hqueued)
  have hnone := hw.ledger.unanswered q hqueued
  simp only [IsOpening, hkind] at hopen
  obtain ⟨rfl, ht⟩ := hopen
  refine ⟨f, hw.pending_eq, hw.remaining_pos, ?_⟩
  rw [hw.answer?_eq t ht (Query.tested_ne_main hkind)]
  rwa [answerTo?, hkind] at hnone

/-- **When candidates are asked about**: while some answer about a pair is due, no transition query of it
waits or has an answer, and then those to candidates do. -/
theorem Sound.asked_transition_iff (h : Sound s said initial e) {q : Query} {c : Completion}
    {target : State} (hkind : q.kind = .transition c target) :
    (q ∈ e.queue.items ∨ e.answerTo? q ≠ none) ↔
      Resolved s e q.source q.main ∧ IsStep s e.log q := by
  have hopen : ¬ IsOpening s q := by simp [IsOpening, hkind]
  have hqueued : q ∈ e.queuedAt q.pair ↔ q ∈ e.queue.items := by simp [mem_queuedAt]
  rw [h.resolved_iff q.main_mem_source, ← hqueued]
  constructor
  · intro hq
    have hs : q.source ∈ e.automaton.states := by
      rcases hq with hq | hq
      · exact (h.asked_of_mem_items (hqueued.1 hq)).1
      · exact (h.asked_of_answered hq).1
    rcases (h.books q.pair q.main_mem_source).1 hs with ⟨f, hw⟩ | hsch
    · exact absurd ((hw.ledger.asked_iff q rfl).1 hq) hopen
    · exact ⟨⟨hs, hsch⟩, ((hsch.ledger.asked_iff q rfl).1 hq).resolve_left hopen⟩
  · rintro ⟨⟨-, hsch⟩, hstep⟩
    exact (hsch.ledger.asked_iff q rfl).2 (Or.inr hstep)

end Sound

end Exploration

/-! ## The transition queries of a pair -/

/-- The transition queries about a main action in a state that were put into the queue so far: they were
asked or wait. -/
def Progress.transitionsOf (p : Progress) (source : State) (main : Action) : List Query :=
  (p.asked.toList ++ p.exploration.queue.items).filter fun q =>
    q.pair = (source, main) ∧ q.target? ≠ none

namespace Setup

variable {s : Setup} {said : Query → Verdict → Prop} {initial source : State} {main : Action}
  {p p' : Progress}

/-- These are the transition queries to the candidates of the pair, once all its answers are known. -/
theorem InOrder.mem_transitionsOf_iff (h : InOrder s said initial p) {q : Query} :
    q ∈ p.transitionsOf source main ↔ q.pair = (source, main) ∧
      Resolved s.toSetting p.exploration source main ∧ IsStep s.toSetting p.exploration.log q := by
  simp only [Progress.transitionsOf, List.mem_filter, decide_eq_true_iff]
  rw [and_comm, and_assoc]
  refine and_congr_right fun hpair => ?_
  obtain ⟨rfl, rfl⟩ := Prod.mk.inj hpair
  rcases hkind : q.kind with c | ⟨c, target⟩ | ⟨polarity, scope, t⟩
  · simp [Query.target?, IsStep, hkind]
  · rw [← h.sound.asked_transition_iff hkind]
    obtain ⟨reused, htally⟩ := h.tallied
    -- a transition query takes no answer from the global table
    have hnot : q ∉ reused := by
      intro hq
      obtain ⟨_, _, hkind', -⟩ := htally.reused_yes q hq
      rw [hkind] at hkind'
      simp at hkind'
    rw [← htally.mem_iff q]
    simp [Query.target?, hkind, hnot, or_comm]
  · simp [Query.target?, IsStep, hkind]

theorem InOrder.nodup_transitionsOf (h : InOrder s said initial p) (source : State) (main : Action) :
    (p.transitionsOf source main).Nodup := h.nodup_queries.filter _

/-- Each candidate is asked about once. -/
theorem InOrder.asksEachTarget (h : InOrder s said initial p)
    (hr : Resolved s.toSetting p.exploration source main) :
    AsksEachTarget s.set source main (factsOf s.toSetting p.exploration.log source main)
      (p.transitionsOf source main) := by
  have hasks := asksEachTarget_stepQueries s.toSetting hr.mem_source
    (factsOf s.toSetting p.exploration.log source main)
  refine hasks.of_perm ((List.perm_ext_iff_of_nodup hasks.nodup
    (h.nodup_transitionsOf source main)).2 fun q => ?_)
  rw [hasks.mem_iff, h.mem_transitionsOf_iff, Query.pair, Prod.mk.injEq, and_assoc]
  refine and_congr_right fun hs => and_congr_right fun hm => ?_
  subst hs hm
  rw [and_iff_right hr, isStep_iff]
  simp only [targetsIn, mem_agreeingTargets_iff, and_comm]

/-! ## What one question changes -/

theorem Reaches.tracks (hinitial : ∀ a ∈ initial, a ∈ s.set.actions) (h : s.Reaches initial p) :
    Tracks s.toSetting p.exploration.pending := by
  have hgives : s.Gives fun _ _ => True := fun _ _ _ _ _ => trivial
  refine h.induction (P := fun p => Tracks s.toSetting p.exploration.pending) (fun p hp => ?_)
    fun p p' hreaches ih hstep => ?_
  · obtain ⟨e, he, hexploration, -⟩ := exists_explore_of_begin hp
    rw [hexploration]
    show Tracks s.toSetting e.pending
    refine Tracks.explore he fun k f hget => ?_
    simp [start] at hget
  · obtain ⟨i, q, run, hq, hsettle, -⟩ := hstep.exists_settle
    refine Tracks.settle hsettle (fun _ _ t hkind => ?_) ih
    have hover := (hreaches.inOrder hgives hinitial).sound.isOver hq
    exact hover.mem_of_tested t (by simp [Query.tested?, hkind])

/-- A question leaves the answers that are known as they are. -/
theorem Proceeds.answerTo?_eq (hstep : s.Proceeds p p')
    (h : InOrder s (fun _ _ => True) initial p) {q : Query} (hq : p.exploration.answerTo? q ≠ none) :
    p'.exploration.answerTo? q = p.exploration.answerTo? q := by
  obtain ⟨i, q', run, hq', hsettle, -⟩ := hstep.exists_settle
  rcases @settle_spec _ _ _ _ i q' run h.sound hq' h.balanced trivial with
    ⟨fault, hf, -⟩ | ⟨e', he', -, -, queries, hreused⟩
  · simp [hsettle] at hf
  · obtain rfl := Except.ok.inj (he'.symm.trans hsettle)
    have hne : q ≠ q' := by
      rintro rfl
      exact hq (h.sound.asked_of_mem_items (List.mem_of_getElem? hq')).2.2
    have hsame : (p.exploration.noted i q' run).answerTo? q = p.exploration.answerTo? q := by
      rw [answerTo?_noted, if_neg hne]
    rw [hreused.answerTo?_eq q fun hmem => hq (hsame ▸ hreused.unanswered q hmem), hsame]

/-- A question takes no state away. -/
theorem Proceeds.mem_states (hstep : s.Proceeds p p') {state : State}
    (hs : state ∈ p.exploration.automaton.states) : state ∈ p'.exploration.automaton.states := by
  obtain ⟨i, q, run, -, hsettle, -⟩ := hstep.exists_settle
  rcases settle_cases hsettle with ⟨-, hsame | ⟨t, -, -, hadd⟩⟩ | ⟨c, target, existence, -, -, -, hadd, -⟩
  · rwa [hsame]
  · rw [hadd, Automaton.mem_states_addTransition]
    exact Or.inr (Or.inr hs)
  · rw [hadd, Automaton.mem_states_addTransition]
    exact Or.inr (Or.inr hs)

/-- What is known about a pair stays known. -/
theorem Proceeds.resolved (hstep : s.Proceeds p p') (h : InOrder s (fun _ _ => True) initial p)
    (hr : Resolved s.toSetting p.exploration source main) :
    Resolved s.toSetting p'.exploration source main ∧ ∀ t ∈ s.set.actions, t ≠ main → ∀ polarity,
      necessityAnswer? p'.exploration.log source main polarity t =
        necessityAnswer? p.exploration.log source main polarity t := by
  have hall : ∀ x ∈ necessityKinds s.toSetting main,
      (necessityAnswer? p.exploration.log source main x.2 x.1).isSome = true :=
    List.countP_eq_length.1 (hr.knownAnswers_eq.trans
      (h.sound.length_necessityKinds hr.mem_states hr.mem_source).symm)
  have hsame : ∀ t ∈ s.set.actions, t ≠ main → ∀ polarity,
      necessityAnswer? p'.exploration.log source main polarity t =
        necessityAnswer? p.exploration.log source main polarity t := by
    intro t ht hne polarity
    have hknown := hall (t, polarity) (mem_necessityKinds.2 ⟨ht, hne⟩)
    exact hstep.answerTo?_eq h (q := ⟨source, main, _, faultless_necessity hr.mem_source hne polarity⟩)
      (Option.isSome_iff_ne_none.1 hknown)
  refine ⟨⟨hstep.mem_states hr.mem_states, hr.mem_source, ?_⟩, hsame⟩
  rw [← hr.knownAnswers_eq]
  refine List.countP_congr fun x hx => ?_
  obtain ⟨ht, hne⟩ := mem_necessityKinds.1 hx
  rw [hsame x.1 ht hne]

/-- **A question adds no transition query of a pair whose answers are known.** -/
theorem Proceeds.perm_transitionsOf (hstep : s.Proceeds p p')
    (h : InOrder s (fun _ _ => True) initial p) (h' : InOrder s (fun _ _ => True) initial p')
    (hr : Resolved s.toSetting p.exploration source main) :
    (p'.transitionsOf source main).Perm (p.transitionsOf source main) := by
  obtain ⟨hr', hsame⟩ := hstep.resolved h hr
  refine (List.perm_ext_iff_of_nodup (h'.nodup_transitionsOf source main)
    (h.nodup_transitionsOf source main)).2 fun q => ?_
  rw [h'.mem_transitionsOf_iff, h.mem_transitionsOf_iff]
  refine and_congr_right fun hpair => ?_
  obtain ⟨rfl, rfl⟩ := Prod.mk.inj hpair
  rw [and_iff_right hr', and_iff_right hr]
  exact isStep_congr hsame

/-- Nor do any number of questions. -/
theorem Reaches.perm_transitionsOf (hinitial : ∀ a ∈ initial, a ∈ s.set.actions)
    (h : s.Reaches initial p) (hr : Resolved s.toSetting p.exploration source main)
    (hrun : Relation.ReflTransGen s.Proceeds p p') :
    Resolved s.toSetting p'.exploration source main ∧
      (p'.transitionsOf source main).Perm (p.transitionsOf source main) := by
  have hgives : s.Gives fun _ _ => True := fun _ _ _ _ _ => trivial
  induction hrun with
  | refl => exact ⟨hr, .refl _⟩
  | tail hrun hstep ih =>
    have hinOrder := (h.trans hrun).inOrder hgives hinitial
    have hinOrder' := (h.trans (hrun.tail hstep)).inOrder hgives hinitial
    exact ⟨(hstep.resolved hinOrder ih.1).1,
      (hstep.perm_transitionsOf hinOrder hinOrder' ih.1).trans ih.2⟩

end Setup

/-- **The counts of due answers are exact.**  Whatever a construction reaches, in whatever order it asks
its queries, with `n` actions in the class,

* a pair that is waited for has at least one answer due, as many as necessity queries of it wait, and
  these and the answers that are noted make `2 * (n - 1)`;
* a pair is not waited for exactly if its state was not explored, does not have the action, or all
  `2 * (n - 1)` answers are known;
* before that, no transition query of the pair waits or has an answer;
* so a count is never lowered below zero: the pair of a necessity query that waits has an answer due, and
  this answer was not noted before;
* and the transition queries of a pair are put into the queue once: none before all answers are known,
  then one by a return and one by an exception for each candidate, and none in all that follows. -/
theorem due_answers_exact {s : Setup} {initial : State} {p : Progress}
    (hinitial : ∀ a ∈ initial, a ∈ s.set.actions) (h : s.Reaches initial p) :
    (∀ source main f, p.exploration.pending.get? (source, main) = some f →
      1 ≤ f.remaining ∧
      f.remaining = p.exploration.queue.items.countP
        (fun q => q.isNecessity && q.pair = (source, main)) ∧
      f.remaining + (f.enabled.size + f.disabled.size) = 2 * (s.set.size - 1)) ∧
    (∀ source main, p.exploration.pending.get? (source, main) = none ↔
      source ∉ p.exploration.automaton.states ∨ main ∉ source ∨
        knownAnswers s.toSetting p.exploration.log source main = 2 * (s.set.size - 1)) ∧
    (∀ q c target, q.kind = .transition c target →
      q ∈ p.exploration.queue.items ∨ p.exploration.answerTo? q ≠ none →
        Resolved s.toSetting p.exploration q.source q.main) ∧
    (∀ q ∈ p.exploration.queue.items, ∀ polarity scope tested,
      q.kind = .necessity polarity scope tested → ∃ f, p.exploration.pending.get? q.pair = some f ∧
        f.remaining - 1 + 1 = f.remaining ∧ f.answer? polarity tested = none) ∧
    ∀ source main,
      (¬ Resolved s.toSetting p.exploration source main → p.transitionsOf source main = []) ∧
      (Resolved s.toSetting p.exploration source main →
        AsksEachTarget s.set source main (factsOf s.toSetting p.exploration.log source main)
          (p.transitionsOf source main) ∧
        ∀ p', Relation.ReflTransGen s.Proceeds p p' →
          (p'.transitionsOf source main).Perm (p.transitionsOf source main)) := by
  have hgives : s.Gives fun _ _ => True := fun _ _ _ _ _ => trivial
  have hinOrder := h.inOrder hgives hinitial
  have hsound := hinOrder.sound
  have htracks := h.tracks hinitial
  refine ⟨fun source main f hget => ?_, hsound.pending_eq_none_iff htracks,
    fun q c target hkind hq => ?_, fun q hq polarity scope tested hkind => ?_,
    fun source main => ⟨fun hr => ?_, fun hr => ⟨hinOrder.asksEachTarget hr, fun p' hrun => ?_⟩⟩⟩
  · obtain ⟨hm, hfacts⟩ := htracks _ _ hget
    obtain ⟨hs, hw⟩ := hsound.waiting_of_pending hm hget
    refine ⟨hw.remaining_pos, hw.remaining_eq.trans (List.countP_filter ..), ?_⟩
    rw [hw.size_eq_knownAnswers hfacts, hw.remaining_add_knownAnswers hm]
    exact hsound.length_necessityKinds hs hm
  · exact ((hsound.asked_transition_iff hkind).1 hq).1
  · obtain ⟨f, hget, hpos, hnone⟩ := hsound.exists_pending hq hkind
    exact ⟨f, hget, Nat.sub_add_cancel hpos, hnone⟩
  · refine List.eq_nil_iff_forall_not_mem.2 fun q hq => hr ?_
    exact (hinOrder.mem_transitionsOf_iff.1 hq).2.1
  · exact (h.perm_transitionsOf hinitial hr hrun).2

/-! ## A door that stands ajar -/

/-- The door under a verifier that proves all necessities and gives up on all else. -/
def doorProven : Setup := { lampProven with set := doorActions }

/-- A door that can be opened and closed. -/
def doorAjar : State := .ofList [doorAction "open", doorAction "close"]

/-- After five questions about the door ajar, one of the four necessity answers about closing it is due,
and no target is asked about.  After one more there are sixteen transition queries, of which there will
never be more. -/
theorem due_answers_exact_door : ∃ p p', doorProven.Reaches doorAjar p ∧
    Relation.ReflTransGen doorProven.Proceeds p p' ∧
    (∃ f, p.exploration.pending.get? (doorAjar, doorAction "close") = some f ∧ f.remaining = 1 ∧
      f.enabled.size + f.disabled.size = 3) ∧
    p.transitionsOf doorAjar (doorAction "close") = [] ∧
    p'.exploration.pending.get? (doorAjar, doorAction "close") = none ∧
    ∀ p'', Relation.ReflTransGen doorProven.Proceeds p' p'' →
      (p''.transitionsOf doorAjar (doorAction "close")).length = 16 := by
  have hinitial : ∀ a ∈ doorAjar, a ∈ doorProven.set.actions := by decide
  have heval : ((doorProven.begin doorAjar).toOption.any fun p₀ => (doorProven.askOldest 5 p₀).any
      fun p => (p.exploration.pending.get? (doorAjar, doorAction "close")).any (·.remaining == 1) &&
        (doorProven.askOldest 1 p).any fun p' =>
          !p'.exploration.pending.contains (doorAjar, doorAction "close") &&
            doorAjar ∈ p'.exploration.automaton.states &&
            (factsOf doorProven.toSetting p'.exploration.log doorAjar (doorAction "close")).branching
              doorActions (doorAction "close") == 3) = true := by
    decide +kernel
  obtain ⟨p₀, hbegin, heval⟩ := Setup.exists_begin_of_any heval
  obtain ⟨p, hask, heval⟩ := (Option.any_eq_true _ _).1 heval
  rw [Bool.and_eq_true] at heval
  obtain ⟨f, hget, hone⟩ := (Option.any_eq_true _ _).1 heval.1
  obtain ⟨p', hask', heval'⟩ := (Option.any_eq_true _ _).1 heval.2
  simp only [Bool.and_eq_true, Bool.not_eq_true', decide_eq_true_eq, beq_iff_eq] at heval' hone
  obtain ⟨⟨hdropped, hstate⟩, hopen⟩ := heval'
  have hnone : p'.exploration.pending.get? (doorAjar, doorAction "close") = none := by
    simpa [Table.contains] using hdropped
  have hreaches : doorProven.Reaches doorAjar p := ⟨p₀, hbegin, Setup.proceeds_of_askOldest hask⟩
  have hrun := Setup.proceeds_of_askOldest hask'
  obtain ⟨hdue, htracked, -, -, honce⟩ := due_answers_exact hinitial hreaches
  obtain ⟨-, htracked', -, -, honce'⟩ := due_answers_exact hinitial (hreaches.trans hrun)
  obtain ⟨-, -, hsum⟩ := hdue _ _ f hget
  have hsize : doorProven.set.size = 3 := by decide
  have hmem : doorAction "close" ∈ doorAjar := by decide
  refine ⟨p, p', hreaches, hrun, ⟨f, hget, hone, by omega⟩, (honce _ _).1 fun hr => ?_, hnone,
    fun p'' hrun' => ?_⟩
  · have hnot := (htracked _ _).2 (Or.inr (Or.inr hr.knownAnswers_eq))
    rw [hget] at hnot
    simp at hnot
  · have hknown := (((htracked' _ _).1 hnone).resolve_left (not_not.2 hstate)).resolve_left
      (not_not.2 hmem)
    obtain ⟨hasks, hforever⟩ := (honce' _ _).2 ⟨hstate, hmem, hknown⟩
    rw [(hforever p'' hrun').length_eq, hasks.length_eq]
    exact congrArg (fun n => 2 * 2 ^ n) hopen

end Enabledness
