import Mathlib.Algebra.GroupWithZero.Nat
import Enabledness.Proofs.Exploring

/-!
# What there is to ask

The questions about a set of states, listed: for each action of each state both invariant questions,
both necessity questions about every other action of the class, and both transition questions to each of
its targets.  A list of queries is as long as the list of questions that it puts.

* `mem_questions`, `nodup_questions`, `length_questions` : what is listed, each question once, and how
  many there are.
* `length_le_of_questions`, `length_eq_of_questions` : queries that put some or all of the questions.
* `mem_questions_targetsIn` : if the targets are those that agree with the answers in a log, the questions
  are those that an exploration asks in the end.
-/

namespace Enabledness

open Exploration

/-- A query without the proof that it makes sense. -/
def Query.question (q : Query) : State × Action × QueryKind := (q.source, q.main, q.kind)

theorem Query.question_injective : Function.Injective Query.question := by
  intro q q' h
  simp only [question, Prod.mk.injEq] at h
  exact ext_of h.1 h.2.1 h.2.2

namespace Exploration

variable {s : Setting} {source : State} {main : Action} {targets : List State}

/-! ## The questions about one action -/

/-- The kinds of the questions about a main action. -/
def questionKinds (s : Setting) (source : State) (main : Action) (targets : List State) :
    List QueryKind :=
  [.invariant .normal, .invariant .exceptional] ++
    (necessityKinds s main).map (fun x => .necessity x.2 (scopeOf source) x.1) ++
    targets.flatMap fun target => [.transition .normal target, .transition .exceptional target]

/-- These are the questions that open a pair, and the transition questions to the targets. -/
theorem mem_questionKinds {q : Query} :
    q.kind ∈ questionKinds s q.source q.main targets ↔
      IsOpening s q ∨ ∃ c, ∃ target ∈ targets, q.kind = .transition c target := by
  unfold questionKinds IsOpening
  rcases hkind : q.kind with c | ⟨c, target⟩ | ⟨p, scope, t⟩
  · cases c
    all_goals simp
  · cases c
    all_goals simp
  · have hne := Query.tested_ne_main hkind
    simp only [List.mem_append, List.mem_map, List.mem_flatMap, List.mem_cons, List.not_mem_nil,
      reduceCtorEq, or_false, false_or, and_false, exists_false, QueryKind.necessity.injEq]
    constructor
    · rintro ⟨x, hx, rfl, rfl, rfl⟩
      exact ⟨rfl, (mem_necessityKinds.1 hx).1⟩
    · rintro ⟨rfl, ht⟩
      exact ⟨(t, p), mem_necessityKinds.2 ⟨ht, hne⟩, rfl, rfl, rfl⟩

theorem nodup_questionKinds (h : targets.Nodup) : (questionKinds s source main targets).Nodup := by
  have hnecessity : ((necessityKinds s main).map fun x =>
      QueryKind.necessity x.2 (scopeOf source) x.1).Nodup := by
    refine (nodup_necessityKinds s main).map fun x y hxy => ?_
    obtain ⟨hp, -, ht⟩ := QueryKind.necessity.inj hxy
    exact Prod.ext ht hp
  have htransition : (targets.flatMap fun target =>
      [QueryKind.transition .normal target, .transition .exceptional target]).Nodup := by
    refine List.nodup_flatMap.2 ⟨fun target _ => by simp, h.imp fun {t t'} hne => ?_⟩
    simp [List.disjoint_left, Function.onFun, hne]
  refine List.Nodup.append (List.Nodup.append (by simp) hnecessity ?_) htransition ?_
  · simp [List.disjoint_left]
  · simp only [List.disjoint_left, List.mem_append, List.mem_map, List.mem_flatMap]
    rintro kind (hkind | ⟨x, -, rfl⟩) ⟨target, -, htarget⟩
    · rcases List.mem_cons.1 hkind with rfl | hkind
      · simp at htarget
      · obtain rfl := List.mem_singleton.1 hkind
        simp at htarget
    · simp at htarget

theorem length_flatMap_pair {α β : Type} (f g : α → β) (l : List α) :
    (l.flatMap fun a => [f a, g a]).length = 2 * l.length := by
  induction l with
  | nil => rfl
  | cons a l ih =>
    simp only [List.flatMap_cons, List.length_append, ih, List.length_cons, List.length_nil]
    omega

theorem length_necessityKinds (h : main ∈ s.set.actions) :
    (necessityKinds s main).length = 2 * (s.set.size - 1) := by
  have hothers : (s.set.actions.toList.filter fun t => t ≠ main).length = s.set.size - 1 := by
    have hfilter : (s.set.actions.toList.filter fun t => t ≠ main) =
        s.set.actions.toList.filter (· != main) :=
      List.filter_congr fun t _ => Bool.eq_iff_iff.2 (by simp)
    rw [hfilter, ← s.set.actions.nodup_toList.erase_eq_filter, List.length_erase_of_mem h]
    rfl
  rw [necessityKinds, length_flatMap_pair, hothers]

theorem length_questionKinds (h : main ∈ s.set.actions) :
    (questionKinds s source main targets).length =
      2 + 2 * (s.set.size - 1) + 2 * targets.length := by
  rw [questionKinds, List.length_append, List.length_append, List.length_map,
    length_necessityKinds h, length_flatMap_pair]
  rfl

/-! ## The questions about some states -/

variable {states : List State} {targetsOf : State → Action → List State}

/-- The questions about all actions of some states, given the targets of each. -/
def questions (s : Setting) (states : List State) (targetsOf : State → Action → List State) :
    List (State × Action × QueryKind) :=
  states.flatMap fun source => source.toList.flatMap fun main =>
    (questionKinds s source main (targetsOf source main)).map fun kind => (source, main, kind)

theorem mem_questions {x : State × Action × QueryKind} :
    x ∈ questions s states targetsOf ↔
      x.1 ∈ states ∧ x.2.1 ∈ x.1 ∧ x.2.2 ∈ questionKinds s x.1 x.2.1 (targetsOf x.1 x.2.1) := by
  obtain ⟨source, main, kind⟩ := x
  simp only [questions, List.mem_flatMap, List.mem_map, Prod.mk.injEq]
  constructor
  · rintro ⟨source', hs, main', hm, kind', hk, rfl, rfl, rfl⟩
    exact ⟨hs, hm, hk⟩
  · rintro ⟨hs, hm, hk⟩
    exact ⟨source, hs, main, hm, kind, hk, rfl, rfl, rfl⟩

theorem nodup_questions (hstates : states.Nodup)
    (htargets : ∀ source main, (targetsOf source main).Nodup) :
    (questions s states targetsOf).Nodup := by
  refine List.nodup_flatMap.2 ⟨fun source _ => ?_, hstates.imp fun {source source'} hne => ?_⟩
  · refine List.nodup_flatMap.2 ⟨fun main _ => ?_, source.nodup_toList.imp fun {main main'} hne => ?_⟩
    · refine (nodup_questionKinds (htargets source main)).map fun kind kind' h => ?_
      exact (Prod.mk.inj (Prod.mk.inj h).2).2
    · simp only [Function.onFun, List.disjoint_left, List.mem_map]
      rintro x ⟨kind, -, rfl⟩ ⟨kind', -, h⟩
      exact hne (Prod.mk.inj (Prod.mk.inj h).2).1.symm
  · simp only [Function.onFun, List.disjoint_left, List.mem_flatMap, List.mem_map]
    rintro x ⟨main, -, kind, -, rfl⟩ ⟨main', -, kind', -, h⟩
    exact hne (Prod.mk.inj h).1.symm

/-- **How much there is to ask.** -/
theorem length_questions (h : ∀ source ∈ states, ∀ a ∈ source, a ∈ s.set.actions) :
    (questions s states targetsOf).length = (states.map fun source => (source.toList.map fun main =>
      2 + 2 * (s.set.size - 1) + 2 * (targetsOf source main).length).sum).sum := by
  simp only [questions, List.length_flatMap, List.length_map]
  refine congrArg List.sum (List.map_congr_left fun source hs => ?_)
  refine congrArg List.sum (List.map_congr_left fun main hm => ?_)
  exact length_questionKinds (h source hs main hm)

/-- Queries that put some of the questions, each once, are not more than these. -/
theorem length_le_of_questions {l : List Query} (hl : l.Nodup)
    (h : ∀ q ∈ l, q.question ∈ questions s states targetsOf) :
    l.length ≤ (questions s states targetsOf).length := by
  rw [← List.length_map (f := Query.question)]
  refine (hl.map Query.question_injective).length_le_of_subset fun x hx => ?_
  obtain ⟨q, hq, rfl⟩ := List.mem_map.1 hx
  exact h q hq

/-- Every question can be put. -/
theorem exists_query_of_mem_questions {x : State × Action × QueryKind}
    (hx : x ∈ questions s states targetsOf) : ∃ q : Query, q.question = x := by
  obtain ⟨source, main, kind⟩ := x
  obtain ⟨-, hm, hk⟩ := mem_questions.1 hx
  have hfaultless : queryFault? source main kind = none := by
    simp only [questionKinds, List.mem_append, List.mem_map, List.mem_flatMap, List.mem_cons,
      List.not_mem_nil, or_false] at hk
    rcases hk with ((rfl | rfl) | ⟨y, hy, rfl⟩) | ⟨target, -, rfl | rfl⟩
    · exact faultless_invariant hm _
    · exact faultless_invariant hm _
    · exact faultless_necessity hm (mem_necessityKinds.1 hy).2 _
    · exact faultless_transition hm _ _
    · exact faultless_transition hm _ _
  exact ⟨⟨source, main, kind, hfaultless⟩, rfl⟩

/-- Queries that put all of the questions, each once, are as many as these. -/
theorem length_eq_of_questions {l : List Query} (hl : l.Nodup)
    (hquestions : (questions s states targetsOf).Nodup)
    (h : ∀ q : Query, q ∈ l ↔ q.question ∈ questions s states targetsOf) :
    l.length = (questions s states targetsOf).length := by
  refine Nat.le_antisymm (length_le_of_questions hl fun q hq => (h q).1 hq) ?_
  have hlength : (l.map Query.question).length = l.length := List.length_map Query.question
  rw [← hlength]
  refine hquestions.length_le_of_subset fun x hx => ?_
  obtain ⟨q, rfl⟩ := exists_query_of_mem_questions hx
  exact List.mem_map_of_mem ((h q).2 hx)

end Exploration

/-! ## Targets that agree with a log -/

namespace Facts

/-- The answers to some necessity questions, as facts. -/
def ofAnswers (answer? : Polarity → Action → Option Answer) : List (Action × Polarity) → Facts
  | [] => {}
  | (t, p) :: rest =>
    match answer? p t with
    | some answer => (ofAnswers answer? rest).insert t answer p
    | none => ofAnswers answer? rest

theorem answer?_ofAnswers (answer? : Polarity → Action → Option Answer)
    (l : List (Action × Polarity)) (p : Polarity) (t : Action) :
    (ofAnswers answer? l).answer? p t = if (t, p) ∈ l then answer? p t else none := by
  induction l with
  | nil => exact answer?_empty p t
  | cons x l ih =>
    obtain ⟨t', p'⟩ := x
    simp only [ofAnswers, List.mem_cons, Prod.mk.injEq]
    cases ha : answer? p' t' with
    | none =>
      by_cases heq : t = t' ∧ p = p'
      · obtain ⟨rfl, rfl⟩ := heq
        simp [ih, ha]
      · simp [ih, heq]
    | some answer =>
      simp only [answer?_insert]
      by_cases heq : t = t' ∧ p = p'
      · obtain ⟨rfl, rfl⟩ := heq
        simp [ha]
      · rw [if_neg fun h => heq h.symm, ih]
        simp [heq]

end Facts

namespace Exploration

variable {s : Setting} {source : State} {main : Action} {states : List State}

/-- The necessity answers about a pair that a log has, as facts. -/
def factsOf (s : Setting) (l : ResultLog) (source : State) (main : Action) : Facts :=
  .ofAnswers (necessityAnswer? l source main) (necessityKinds s main)

theorem answer?_factsOf {l : ResultLog} {t : Action} (ht : t ∈ s.set.actions) (hne : t ≠ main)
    (p : Polarity) :
    (factsOf s l source main).answer? p t = necessityAnswer? l source main p t := by
  rw [factsOf, Facts.answer?_ofAnswers, if_pos (mem_necessityKinds.2 ⟨ht, hne⟩)]

/-- The targets of a pair that agree with the answers in a log. -/
def targetsIn (s : Setting) (l : ResultLog) (source : State) (main : Action) : List State :=
  agreeingTargets s main (factsOf s l source main)

/-- These are the targets that are asked about in the end. -/
theorem isStep_iff {l : ResultLog} {q : Query} :
    IsStep s l q ↔ ∃ c, ∃ target ∈ targetsIn s l q.source q.main, q.kind = .transition c target := by
  have hfacts : ∀ t ∈ s.set.actions, t ≠ q.main → ∀ p,
      (factsOf s l q.source q.main).answer? p t = necessityAnswer? l q.source q.main p t :=
    fun t ht hne p => answer?_factsOf ht hne p
  unfold IsStep
  rcases hkind : q.kind with c | ⟨c, target⟩ | ⟨p, scope, t⟩
  · simp
  · simp only [targetsIn, mem_agreeingTargets_iff, QueryKind.transition.injEq]
    constructor
    · exact fun h => ⟨c, target, h.congr hfacts, rfl, rfl⟩
    · rintro ⟨_, _, h, -, rfl⟩
      exact h.congr fun t ht hne p => (hfacts t ht hne p).symm
  · simp

/-- **What is asked about some states**, once all necessity answers are in the log. -/
theorem mem_questions_targetsIn {l : ResultLog} {q : Query} :
    q.question ∈ questions s states (targetsIn s l) ↔
      q.source ∈ states ∧ (IsOpening s q ∨ IsStep s l q) := by
  rw [mem_questions, isStep_iff]
  show q.source ∈ states ∧ q.main ∈ q.source ∧
    q.kind ∈ questionKinds s q.source q.main (targetsIn s l q.source q.main) ↔ _
  rw [and_iff_right q.main_mem_source, mem_questionKinds]

/-- There is one target for each choice of the actions that are branched over. -/
theorem length_agreeingTargets (s : Setting) (main : Action) (facts : Facts) :
    (agreeingTargets s main facts).length = 2 ^ (freeActions s main facts).size := by
  rw [agreeingTargets, List.length_map, SortedSet.length_subsets]
  rfl

/-- **How many queries are asked about some states**, once all necessity answers are in the log. -/
theorem length_eq_of_asked {l : ResultLog} {queries : List Query} (hstates : states.Nodup)
    (hactions : ∀ source ∈ states, ∀ a ∈ source, a ∈ s.set.actions) (hqueries : queries.Nodup)
    (hmem : ∀ q, q ∈ queries ↔ q.source ∈ states ∧ (IsOpening s q ∨ IsStep s l q)) :
    queries.length = (states.map fun source => (source.toList.map fun main =>
      2 + 2 * (s.set.size - 1) +
        2 * 2 ^ (freeActions s main (factsOf s l source main)).size).sum).sum := by
  have hnodup : (questions s states (targetsIn s l)).Nodup :=
    nodup_questions hstates fun source main => nodup_agreeingTargets s main _
  have hlength := length_eq_of_questions hqueries hnodup fun q =>
    (hmem q).trans mem_questions_targetsIn.symm
  rw [hlength, length_questions hactions]
  simp only [targetsIn, length_agreeingTargets]

end Exploration

end Enabledness
