import Mathlib.Algebra.Group.Action.Defs
import Mathlib.Algebra.Order.BigOperators.Group.List
import Mathlib.Algebra.Order.Ring.Nat
import Enabledness.Proofs.AnyOrder
import Enabledness.Proofs.LeastFixpoint
import Enabledness.Proofs.Questions

/-!
# Constructions end

Whatever the verifier replies and in whatever order queries are asked, a construction ends.  The states
that it registers are sets of actions of the class, of which there are finitely many, and no query about
them is put into the queue twice.

* `Exploration.Sound.mem_questions` : all queries that were answered or wait are about registered states.
* `Setup.InOrder.nodup_queries` : no query was asked twice, or waits twice, or waits after it was asked.
* `Setup.InOrder.mem_queries_iff` : the states that were explored are the registered ones.
* `Setup.InOrder.length_queries_le` : how many queries there can be.
* `Setup.construction_ends` : no order of questions goes on for ever, and a schedule goes on until it is
  stopped, the queue is closed and empty, or a question fails.
-/

namespace Enabledness

open Exploration

namespace Exploration

variable {s : Setting} {said : Query → Verdict → Prop} {initial : State} {e : Exploration} {q : Query}

/-- A query that has an answer was asked about a registered state. -/
theorem Sound.asked_of_answered (h : Sound s said initial e) (hq : e.answerTo? q ≠ none) :
    q.source ∈ e.automaton.states ∧ (IsOpening s q ∨ IsStep s e.log q) := by
  by_cases hs : q.source ∈ e.automaton.states
  · refine ⟨hs, ?_⟩
    rcases (h.books q.pair q.main_mem_source).1 hs with ⟨f, hw⟩ | hsch
    · exact Or.inl ((hw.ledger.asked_iff q rfl).1 (Or.inr hq))
    · exact (hsch.ledger.asked_iff q rfl).1 (Or.inr hq)
  · have hu := (h.books q.pair q.main_mem_source).2 hs
    exact absurd (hu.ledger.answerTo?_of_not_asked rfl id) hq

/-- So was a query that waits, and it has no answer. -/
theorem Sound.asked_of_mem_items (h : Sound s said initial e) (hq : q ∈ e.queue.items) :
    q.source ∈ e.automaton.states ∧ (IsOpening s q ∨ IsStep s e.log q) ∧ e.answerTo? q = none := by
  obtain ⟨i, hi⟩ := List.mem_iff_getElem?.1 hq
  obtain ⟨hsource, hexplored⟩ := h.books.explored hi
  exact ⟨hsource, hexplored.asked (mem_queuedAt_of_getElem? hi)⟩

/-- No query waits twice. -/
theorem Sound.nodup_items (h : Sound s said initial e) : e.queue.items.Nodup := by
  rw [List.nodup_iff_count_le_one]
  intro q
  have hcount : (e.queuedAt q.pair).count q = e.queue.items.count q := by
    unfold queuedAt
    exact List.count_filter (by simp)
  have hnodup : (e.queuedAt q.pair).Nodup := by
    by_cases hs : q.source ∈ e.automaton.states
    · rcases (h.books q.pair q.main_mem_source).1 hs with ⟨f, hw⟩ | hsch
      · exact hw.ledger.nodup
      · exact hsch.ledger.nodup
    · exact ((h.books q.pair q.main_mem_source).2 hs).ledger.nodup
  rw [← hcount]
  exact List.nodup_iff_count_le_one.1 hnodup q

/-- All queries are about registered states and, if they name a target, about a set of actions of the
class. -/
theorem Sound.mem_questions (h : Sound s said initial e)
    (hq : e.answerTo? q ≠ none ∨ q ∈ e.queue.items) :
    q.question ∈ questions s e.automaton.states.toList fun _ _ => s.set.actions.subsets := by
  have hasked : q.source ∈ e.automaton.states ∧ (IsOpening s q ∨ IsStep s e.log q) := by
    rcases hq with hq | hq
    · exact h.asked_of_answered hq
    · obtain ⟨hsource, hopen, -⟩ := h.asked_of_mem_items hq
      exact ⟨hsource, hopen⟩
  refine Exploration.mem_questions.2 ⟨hasked.1, q.main_mem_source, mem_questionKinds.2 ?_⟩
  rcases hasked.2 with hopen | hstep
  · exact Or.inl hopen
  · obtain ⟨c, target, ht, hkind⟩ := isStep_iff.1 hstep
    have htarget := (mem_agreeingTargets_iff.1 ht).mem_actions
    exact Or.inr ⟨c, target, SortedSet.mem_subsets_iff.2 htarget, hkind⟩

/-- There are no more registered states than sets of actions of the class. -/
theorem Charted.length_states_le {a : Automaton} {l : ResultLog} (h : Charted s initial a l) :
    a.states.toList.length ≤ 2 ^ s.set.size := by
  have hsubset : a.states.toList ⊆ s.set.actions.subsets := by
    intro state hs
    exact SortedSet.mem_subsets_iff.2 (h.mem_actions state hs)
  have hlength : s.set.actions.subsets.length = 2 ^ s.set.size := SortedSet.length_subsets _
  rw [← hlength]
  exact a.states.nodup.length_le_of_subset hsubset

/-- The questions about sets of actions of the class, if every set may be a target. -/
theorem length_questions_le {states : List State}
    (h : ∀ source ∈ states, ∀ a ∈ source, a ∈ s.set.actions) :
    (questions s states fun _ _ => s.set.actions.subsets).length ≤
      states.length * (s.set.size * (2 * s.set.size + 2 * 2 ^ s.set.size)) := by
  have hsubsets : s.set.actions.subsets.length = 2 ^ s.set.size := SortedSet.length_subsets _
  rw [length_questions h, hsubsets]
  -- each state has at most all actions
  have hstate : ∀ source ∈ states, (source.toList.map fun _ =>
      2 + 2 * (s.set.size - 1) + 2 * 2 ^ s.set.size).sum ≤
        s.set.size * (2 * s.set.size + 2 * 2 ^ s.set.size) := by
    intro source hs
    have hsize : source.toList.length ≤ s.set.size :=
      (SortedSet.sublist_of_subset source.increasing s.set.actions.increasing (h source hs)).length_le
    rw [List.map_const', List.sum_replicate, smul_eq_mul]
    cases hlength : source.toList.length with
    | zero =>
      rw [Nat.zero_mul]
      exact Nat.zero_le _
    | succ k =>
      rw [← hlength]
      refine Nat.mul_le_mul hsize ?_
      omega
  have hsum := List.sum_le_card_nsmul (states.map fun source => (source.toList.map fun _ =>
      2 + 2 * (s.set.size - 1) + 2 * 2 ^ s.set.size).sum)
    (s.set.size * (2 * s.set.size + 2 * 2 ^ s.set.size)) fun x hx => by
      obtain ⟨source, hs, rfl⟩ := List.mem_map.1 hx
      exact hstate source hs
  rwa [List.length_map, smul_eq_mul] at hsum

end Exploration

namespace Setup

variable {s : Setup} {said : Query → Verdict → Prop} {initial : State} {p : Progress}

/-- No query was asked twice, waits twice, or waits after it was asked. -/
theorem InOrder.nodup_queries (h : InOrder s said initial p) :
    (p.asked.toList ++ p.exploration.queue.items).Nodup := by
  obtain ⟨reused, htally⟩ := h.tallied
  have hasked : p.asked.toList.Nodup := (List.nodup_append.1 htally.nodup).1
  refine List.nodup_append.2 ⟨hasked, h.sound.nodup_items, ?_⟩
  rintro q hq q' hq' rfl
  exact (htally.mem_iff q).1 (List.mem_append_left _ hq) (h.sound.asked_of_mem_items hq').2.2

/-- The invariant queries that were asked or wait are those about registered states: every registered
state was explored, and no other. -/
theorem InOrder.mem_queries_iff (h : InOrder s said initial p) {q : Query} {c : Completion}
    (hkind : q.kind = .invariant c) :
    q ∈ p.asked.toList ++ p.exploration.queue.items ↔
      q.source ∈ p.exploration.automaton.states := by
  obtain ⟨reused, htally⟩ := h.tallied
  constructor
  · intro hq
    rcases List.mem_append.1 hq with hq | hq
    · exact (h.sound.asked_of_answered ((htally.mem_iff q).1 (List.mem_append_left _ hq))).1
    · exact (h.sound.asked_of_mem_items hq).1
  · intro hs
    have hopen : IsOpening s.toSetting q := by simp [IsOpening, hkind]
    have hasked : q ∈ p.exploration.queuedAt q.pair ∨ p.exploration.answerTo? q ≠ none := by
      rcases (h.sound.books q.pair q.main_mem_source).1 hs with ⟨f, hw⟩ | hsch
      · exact (hw.ledger.asked_iff q rfl).2 hopen
      · exact (hsch.ledger.asked_iff q rfl).2 (Or.inl hopen)
    rcases hasked with hq | hq
    · exact List.mem_append_right _ (mem_queuedAt.1 hq).1
    · -- an invariant query takes no answer from the global table
      rcases List.mem_append.1 ((htally.mem_iff q).2 hq) with hq | hq
      · exact List.mem_append_left _ hq
      · obtain ⟨p', t, hkind', -⟩ := htally.reused_yes q hq
        rw [hkind] at hkind'
        simp at hkind'

/-- **How many queries there can be**, asked or waiting. -/
theorem InOrder.length_queries_le (h : InOrder s said initial p) :
    p.asked.size + p.exploration.queue.items.length ≤
      2 ^ s.set.size * (s.set.size * (2 * s.set.size + 2 * 2 ^ s.set.size)) := by
  obtain ⟨reused, htally⟩ := h.tallied
  have hlength := length_le_of_questions h.nodup_queries fun q hq => by
    refine h.sound.mem_questions ?_
    rcases List.mem_append.1 hq with hq | hq
    · exact Or.inl ((htally.mem_iff q).1 (List.mem_append_left _ hq))
    · exact Or.inr hq
  rw [List.length_append, Array.length_toList] at hlength
  calc p.asked.size + p.exploration.queue.items.length
    _ ≤ _ := hlength
    _ ≤ _ := length_questions_le h.sound.charted.mem_actions
    _ ≤ _ := Nat.mul_le_mul_right _ h.sound.charted.length_states_le

/-- **Constructions end.**  Whatever the verifier replies and in whatever order queries are asked,

* one question after the other does not go on for ever;
* all that is reached has registered sets of actions of the class only, at most `2 ^ n` of them; it has
  put the invariant queries about these into the queue, and no query twice;
* the run of a schedule goes on until the construction is stopped, the queue is closed and empty, or a
  question fails. -/
theorem construction_ends (s : Setup) {initial : State}
    (hinitial : ∀ a ∈ initial, a ∈ s.set.actions) :
    (WellFounded fun p' p => s.Proceeds p p') ∧
    (∀ p, s.Reaches initial p →
      (∀ state ∈ p.exploration.automaton.states, ∀ a ∈ state, a ∈ s.set.actions) ∧
      p.exploration.automaton.states.toList.length ≤ 2 ^ s.set.size ∧
      (p.asked.toList ++ p.exploration.queue.items).Nodup ∧
      (∀ q c, q.kind = .invariant c → (q ∈ p.asked.toList ++ p.exploration.queue.items ↔
        q.source ∈ p.exploration.automaton.states)) ∧
      p.asked.size + p.exploration.queue.items.length ≤
        2 ^ s.set.size * (s.set.size * (2 * s.set.size + 2 * 2 ^ s.set.size))) ∧
    ∀ schedule p₀, s.begin initial = .ok p₀ →
      (∃ p, s.drain schedule p₀ = .ok p ∧ s.Reaches initial p ∧ (s.isStopped p.asked.size = true ∨
        p.exploration.queue.items = [] ∧ p.exploration.queue.closed = true)) ∨
      ∃ p i failure, s.drain schedule p₀ = .error failure ∧ s.Reaches initial p ∧
        s.askAt i p = some (.error failure) := by
  have hgives : s.Gives fun _ _ => True := fun _ _ _ _ _ => trivial
  refine ⟨s.wellFounded_proceeds, fun p hp => ?_, fun schedule p₀ hp₀ => ?_⟩
  · have hinOrder := hp.inOrder hgives hinitial
    exact ⟨hinOrder.sound.charted.mem_actions, hinOrder.sound.charted.length_states_le,
      hinOrder.nodup_queries, fun q c hkind => hinOrder.mem_queries_iff hkind,
      hinOrder.length_queries_le⟩
  · have hstart : s.Reaches initial p₀ := ⟨p₀, hp₀, .refl⟩
    rcases s.drain_reaches schedule p₀ with ⟨p, hp, hrun, hend⟩ | ⟨p, i, failure, hf, hrun, hfails⟩
    · refine Or.inl ⟨p, hp, hstart.trans hrun, hend.imp_right fun hitems => ⟨hitems, ?_⟩⟩
      exact ((hstart.trans hrun).inOrder hgives hinitial).balanced.closed_iff.2 hitems
    · exact Or.inr ⟨p, i, failure, hf, hstart.trans hrun, hfails⟩

/-- Even a verifier that always gives up is asked about the lamp at most 96 times. -/
theorem construction_ends_lamp : (∀ a ∈ lampActions.actions, a ∈ lampSetup.set.actions) ∧
    ∀ p, lampSetup.Reaches lampActions.actions p →
      p.exploration.automaton.states.toList.length ≤ 4 ∧ p.asked.size ≤ 96 := by
  have hinitial : ∀ a ∈ lampActions.actions, a ∈ lampSetup.set.actions := fun a ha => ha
  refine ⟨hinitial, fun p hp => ?_⟩
  obtain ⟨-, hreached, -⟩ := construction_ends lampSetup hinitial
  obtain ⟨-, hstates, -, -, hqueries⟩ := hreached p hp
  have hsize : lampSetup.set.size = 2 := by decide
  rw [hsize] at hstates hqueries
  exact ⟨hstates, by omega⟩

end Setup

end Enabledness
