import Mathlib.Data.List.Sublists
import Enabledness.Exploration

/-!
# Candidate targets

Which targets a main action may still have, given what its necessity answers say about the other
actions (`IsCandidate`).  The enumeration lists these targets and nothing else
(`mem_agreeingTargets_iff`), each once (`nodup_agreeingTargets`).  An exploration uses it unless there
are too many actions to branch over (`candidates_eq`).
-/

namespace Enabledness

open Std

/-! ## Sorted sets and their subsets -/

namespace SortedSet

variable {α : Type} [Ord α] [TransOrd α] [LawfulEqOrd α]

/-- Sets with the same members are the same set. -/
theorem ext_mem {s t : SortedSet α} (h : ∀ a, a ∈ s ↔ a ∈ t) : s = t := by
  apply ext
  exact (sublist_of_subset s.increasing t.increasing fun a ha => (h a).1 ha).antisymm
    (sublist_of_subset t.increasing s.increasing fun a ha => (h a).2 ha)

omit [LawfulEqOrd α] in
/-- No member is listed twice. -/
theorem nodup_toList (s : SortedSet α) : s.toList.Nodup := by
  refine s.increasing.imp fun {a b} h hab => ?_
  subst hab
  simp at h

omit [LawfulEqOrd α] in
/-- No subset is listed twice. -/
theorem nodup_subsets (s : SortedSet α) : s.subsets.Nodup := by
  have heq : ∀ l : List α, Enabledness.subsets l = l.sublists := by
    intro l
    induction l with
    | nil => rfl
    | cons a l ih => rw [Enabledness.subsets, ih, List.sublists_cons]; rfl
  have h : (s.subsets.map toList).Nodup := by
    rw [map_toList_subsets, heq]
    exact List.nodup_sublists.2 s.nodup_toList
  exact h.of_map

end SortedSet

/-! ## Answers about a main action -/

namespace Facts

/-- The answers of a polarity. -/
def answers (f : Facts) : Polarity → Table Action Answer
  | .enabled => f.enabled
  | .disabled => f.disabled

/-- The answer about a tested action. -/
def answer? (f : Facts) (p : Polarity) (tested : Action) : Option Answer := (f.answers p).get? tested

theorem answer?_empty (p : Polarity) (t : Action) : ({} : Facts).answer? p t = none := by
  cases p <;> exact Table.get?_empty t

/-- Noting an answer changes nothing else. -/
theorem answer?_insert (f : Facts) (tested : Action) (answer : Answer) (p p' : Polarity)
    (t : Action) :
    (f.insert tested answer p).answer? p' t =
      if p' = p ∧ t = tested then some answer else f.answer? p' t := by
  cases p <;> cases p' <;> simp [insert, answer?, answers, Table.get?_insert]

theorem fixed?_eq_some_true_iff {f : Facts} {a : Action} :
    f.fixed? a = some true ↔
      f.answer? .enabled a = some .yes ∧ f.answer? .disabled a ≠ some .yes := by
  unfold fixed? answer? answers
  cases he : f.enabled.get? a == some .yes <;> cases hd : f.disabled.get? a == some .yes <;>
    simp_all

theorem fixed?_eq_some_false_iff {f : Facts} {a : Action} :
    f.fixed? a = some false ↔
      f.answer? .disabled a = some .yes ∧ f.answer? .enabled a ≠ some .yes := by
  unfold fixed? answer? answers
  cases he : f.enabled.get? a == some .yes <;> cases hd : f.disabled.get? a == some .yes <;>
    simp_all

end Facts

/-- A target is made of actions of the class and agrees with the answers about a main action: it has
every other action that is proven enabled only, and none that is proven disabled only. -/
structure IsCandidate (c : ActionSet) (answer? : Polarity → Action → Option Answer) (main : Action)
    (target : State) : Prop where
  /-- The target is made of actions of the class. -/
  mem_actions : ∀ t ∈ target, t ∈ c.actions
  /-- What is proven enabled only is enabled. -/
  mem_of_enabled : ∀ t ∈ c.actions, t ≠ main → answer? .enabled t = some .yes →
    answer? .disabled t ≠ some .yes → t ∈ target
  /-- What is proven disabled only is not enabled. -/
  not_mem_of_disabled : ∀ t ∈ c.actions, t ≠ main → answer? .disabled t = some .yes →
    answer? .enabled t ≠ some .yes → ¬ t ∈ target

/-- Whether a target is a candidate depends on the answers about the other actions of the class. -/
theorem IsCandidate.congr {c : ActionSet} {answer? answer?' : Polarity → Action → Option Answer}
    {main : Action} {target : State} (h : IsCandidate c answer? main target)
    (heq : ∀ t ∈ c.actions, t ≠ main → ∀ p, answer?' p t = answer? p t) :
    IsCandidate c answer?' main target where
  mem_actions := h.mem_actions
  mem_of_enabled t ht hne he hd := by
    rw [heq t ht hne] at he hd
    exact h.mem_of_enabled t ht hne he hd
  not_mem_of_disabled t ht hne hd he := by
    rw [heq t ht hne] at he hd
    exact h.not_mem_of_disabled t ht hne hd he

/-! ## The enumeration of an exploration -/

namespace Exploration

variable {s : Setting} {main : Action} {facts : Facts} {targets : List State}

/-- The targets that agree with the facts, however many there are. -/
def agreeingTargets (s : Setting) (main : Action) (facts : Facts) : List State :=
  (freeActions s main facts).subsets.map (fixedActions s main facts).union

/-- Candidates are refused only if there are too many actions to branch over. -/
theorem candidates_eq (s : Setting) (main : Action) (facts : Facts) :
    candidates s main facts =
      if SortedSet.subsetBound s.bound < (freeActions s main facts).size then
        .error ⟨(freeActions s main facts).size, SortedSet.subsetBound s.bound⟩
      else .ok (agreeingTargets s main facts) := by
  unfold candidates SortedSet.boundedSubsets
  split <;> rfl

theorem eq_agreeingTargets (h : candidates s main facts = .ok targets) :
    targets = agreeingTargets s main facts := by
  rw [candidates_eq] at h
  split at h
  · simp at h
  · exact (Except.ok.inj h).symm

/-- A class within the bound never has too many candidates. -/
theorem exists_candidates (hbound : s.set.size ≤ SortedSet.subsetBound s.bound) (main : Action)
    (facts : Facts) : ∃ targets, candidates s main facts = .ok targets := by
  have hle : (freeActions s main facts).size ≤ s.set.size := List.length_filter_le _ _
  rw [candidates_eq, if_neg (by omega)]
  exact ⟨_, rfl⟩

theorem mem_freeActions {a : Action} :
    a ∈ freeActions s main facts ↔ a ∈ s.set.actions ∧ (a = main ∨ facts.fixed? a = none) := by
  simp [freeActions]

theorem mem_fixedActions {a : Action} :
    a ∈ fixedActions s main facts ↔
      a ∈ s.set.actions ∧ a ≠ main ∧ facts.fixed? a = some true := by
  simp [fixedActions]

/-- **The targets that agree with the facts are the candidates.** -/
theorem mem_agreeingTargets_iff {t : State} :
    t ∈ agreeingTargets s main facts ↔ IsCandidate s.set facts.answer? main t := by
  rw [agreeingTargets, List.mem_map]
  constructor
  · -- a choice of free actions cannot bring in what is fixed out
    rintro ⟨choice, hc, rfl⟩
    have hfree : ∀ a ∈ choice, a ∈ freeActions s main facts := SortedSet.mem_subsets_iff.1 hc
    refine ⟨fun a ha => ?_, fun a ha hne he hd => ?_, fun a ha hne hd he hmem => ?_⟩
    · rcases SortedSet.mem_union.1 ha with ha | ha
      · exact (mem_fixedActions.1 ha).1
      · exact (mem_freeActions.1 (hfree a ha)).1
    · refine SortedSet.mem_union.2 (Or.inl (mem_fixedActions.2 ⟨ha, hne, ?_⟩))
      exact Facts.fixed?_eq_some_true_iff.2 ⟨he, hd⟩
    · have hfix : facts.fixed? a = some false := Facts.fixed?_eq_some_false_iff.2 ⟨hd, he⟩
      rcases SortedSet.mem_union.1 hmem with hm | hm
      · rw [(mem_fixedActions.1 hm).2.2] at hfix
        simp at hfix
      · rcases (mem_freeActions.1 (hfree a hm)).2 with hm | hm
        · exact hne hm
        · rw [hm] at hfix
          simp at hfix
  · intro hcand
    refine ⟨t.filter fun a => a ∈ freeActions s main facts, ?_, ?_⟩
    · exact SortedSet.mem_subsets_iff.2 fun a ha => of_decide_eq_true (SortedSet.mem_filter.1 ha).2
    · -- a member of the target that is not free is fixed in
      apply SortedSet.ext_mem
      intro a
      rw [SortedSet.mem_union, SortedSet.mem_filter, decide_eq_true_iff]
      constructor
      · rintro (ha | ha)
        · obtain ⟨hc, hne, hfix⟩ := mem_fixedActions.1 ha
          obtain ⟨he, hd⟩ := Facts.fixed?_eq_some_true_iff.1 hfix
          exact hcand.mem_of_enabled a hc hne he hd
        · exact ha.1
      · intro ha
        have hc := hcand.mem_actions a ha
        by_cases hm : a = main
        · exact Or.inr ⟨ha, mem_freeActions.2 ⟨hc, Or.inl hm⟩⟩
        · rcases hfix : facts.fixed? a with _ | _ | _
          · exact Or.inr ⟨ha, mem_freeActions.2 ⟨hc, Or.inr hfix⟩⟩
          · obtain ⟨hd, he⟩ := Facts.fixed?_eq_some_false_iff.1 hfix
            exact absurd ha (hcand.not_mem_of_disabled a hc hm hd he)
          · exact Or.inl (mem_fixedActions.2 ⟨hc, hm, hfix⟩)

/-- **No candidate is listed twice.**  Fixed actions are not branched over, so different choices
give different targets. -/
theorem nodup_agreeingTargets (s : Setting) (main : Action) (facts : Facts) :
    (agreeingTargets s main facts).Nodup := by
  refine List.Nodup.map_on ?_ (SortedSet.nodup_subsets _)
  have hsub : ∀ c ∈ (freeActions s main facts).subsets, ∀ a ∈ c,
      ¬ a ∈ fixedActions s main facts := by
    intro c hc a ha hfix
    obtain ⟨-, hne, htrue⟩ := mem_fixedActions.1 hfix
    rcases (mem_freeActions.1 (SortedSet.mem_subsets_iff.1 hc a ha)).2 with hm | hm
    · exact hne hm
    · rw [hm] at htrue
      simp at htrue
  -- so a choice can be read off its target
  have hle : ∀ c ∈ (freeActions s main facts).subsets, ∀ c' ∈ (freeActions s main facts).subsets,
      (fixedActions s main facts).union c = (fixedActions s main facts).union c' →
        ∀ a ∈ c, a ∈ c' := by
    intro c hc c' _ heq a ha
    have hmem : a ∈ (fixedActions s main facts).union c' := by
      rw [← heq]
      exact SortedSet.mem_union.2 (Or.inr ha)
    rcases SortedSet.mem_union.1 hmem with hm | hm
    · exact absurd hm (hsub c hc a ha)
    · exact hm
  intro c hc c' hc' heq
  exact SortedSet.ext_mem fun a => ⟨hle c hc c' hc' heq a, hle c' hc' c hc heq.symm a⟩

theorem mem_candidates_iff (h : candidates s main facts = .ok targets) {t : State} :
    t ∈ targets ↔ IsCandidate s.set facts.answer? main t := by
  rw [eq_agreeingTargets h, mem_agreeingTargets_iff]

theorem nodup_candidates (h : candidates s main facts = .ok targets) : targets.Nodup := by
  rw [eq_agreeingTargets h]
  exact nodup_agreeingTargets s main facts

end Exploration

end Enabledness
