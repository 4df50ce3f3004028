import Mathlib.Algebra.GroupWithZero.Nat
import Enabledness.Proofs.Chores
import Enabledness.Proofs.Questions

/-!
# Scheduling the targets of a pair

When the necessity answers of a main action are in, every target that agrees with them is asked about,
or none is.

* `Facts.IsOpen`, `Facts.branching` : the actions that a target may have or not have, and their number.
* `AsksEachTarget` : queries that ask about each candidate once by a return and once by an exception.
* `Leaves` : where chores leave the exploration, be it that they end or that one of them fails.
* `schedule_all_or_none` : scheduling a pair puts such queries into the queue, or it fails and leaves the
  queue as it was; there are too many candidates exactly if too many actions are open.
-/

namespace Enabledness

open Exploration

/-! ## Open actions -/

namespace Facts

/-- A target may have the action or not: it is the main action, or it is proven both enabled and disabled,
or neither. -/
def IsOpen (f : Facts) (main a : Action) : Prop :=
  a = main ∨ (f.answer? .enabled a = some .yes ↔ f.answer? .disabled a = some .yes)

instance (f : Facts) (main a : Action) : Decidable (f.IsOpen main a) :=
  inferInstanceAs (Decidable (_ ∨ _))

/-- The number of open actions of a class. -/
def branching (f : Facts) (set : ActionSet) (main : Action) : Nat :=
  (set.actions.toList.filter fun a => f.IsOpen main a).length

theorem fixed?_eq_none_iff {f : Facts} {a : Action} :
    f.fixed? a = none ↔ (f.answer? .enabled a = some .yes ↔ f.answer? .disabled a = some .yes) := by
  have hin := f.fixed?_eq_some_true_iff (a := a)
  have hout := f.fixed?_eq_some_false_iff (a := a)
  rcases hfixed : f.fixed? a with _ | _ | _
  · simp only [hfixed, reduceCtorEq, false_iff, not_and, not_not] at hin hout
    exact iff_of_true rfl ⟨hin, hout⟩
  · obtain ⟨hd, he⟩ := hout.1 hfixed
    exact iff_of_false (by simp) fun h => he (h.2 hd)
  · obtain ⟨he, hd⟩ := hin.1 hfixed
    exact iff_of_false (by simp) fun h => hd (h.1 he)

end Facts

namespace Exploration

variable {s : Setting} {source : State} {main : Action} {facts : Facts}

/-- The actions that are branched over are the open ones. -/
theorem size_freeActions (s : Setting) (main : Action) (facts : Facts) :
    (freeActions s main facts).size = facts.branching s.set main := by
  unfold SortedSet.size freeActions SortedSet.filter Facts.branching
  congr 1
  refine List.filter_congr fun a _ => Bool.eq_iff_iff.2 ?_
  rw [decide_eq_true_iff, Facts.IsOpen, ← Facts.fixed?_eq_none_iff]
  simp

/-! ## The queries of a pair -/

/-- The queries ask about each target that agrees with the facts, once by a return and once by an
exception, and about nothing else. -/
structure AsksEachTarget (set : ActionSet) (source : State) (main : Action) (facts : Facts)
    (queries : List Query) : Prop where
  mem_iff : ∀ q, q ∈ queries ↔ q.source = source ∧ q.main = main ∧ ∃ completion target,
    q.kind = .transition completion target ∧ IsCandidate set facts.answer? main target
  nodup : queries.Nodup
  targets_nodup : ∀ completion,
    ((queries.filter fun q => q.completion? = some completion).map Query.target?).Nodup
  length_eq : queries.length = 2 * 2 ^ facts.branching set main

/-- Different queries that ask about one completion have different targets. -/
theorem nodup_targets_of_nodup {queries : List Query} (hnodup : queries.Nodup)
    (hall : ∀ q ∈ queries, q.source = source ∧ q.main = main ∧
      ∃ completion target, q.kind = .transition completion target) (completion : Completion) :
    ((queries.filter fun q => q.completion? = some completion).map Query.target?).Nodup := by
  refine List.Nodup.map_on (fun q hq q' hq' htarget => ?_) (hnodup.filter _)
  obtain ⟨hq, hc⟩ := List.mem_filter.1 hq
  obtain ⟨hq', hc'⟩ := List.mem_filter.1 hq'
  obtain ⟨hs, hm, c, t, hk⟩ := hall q hq
  obtain ⟨hs', hm', c', t', hk'⟩ := hall q' hq'
  have hcompletion : c = c' := by
    simp only [Query.completion?, hk, hk', decide_eq_true_iff, Option.some.injEq] at hc hc'
    rw [hc, hc']
  have htarget : t = t' := by
    simpa [Query.target?, hk, hk'] using htarget
  refine Query.ext_of (hs.trans hs'.symm) (hm.trans hm'.symm) ?_
  rw [hk, hk', hcompletion, htarget]

/-- **Each candidate is asked about once.** -/
theorem asksEachTarget_stepQueries (s : Setting) (h : main ∈ source) (facts : Facts) :
    AsksEachTarget s.set source main facts (stepQueries h (agreeingTargets s main facts)) := by
  have hmem : ∀ q, q ∈ stepQueries h (agreeingTargets s main facts) ↔
      q.source = source ∧ q.main = main ∧ ∃ completion target,
        q.kind = .transition completion target ∧ IsCandidate s.set facts.answer? main target := by
    intro q
    rw [mem_stepQueries, Query.pair, Prod.mk.injEq, and_assoc]
    refine and_congr_right fun _ => and_congr_right fun _ => exists_congr fun c => ?_
    refine exists_congr fun target => ?_
    rw [mem_agreeingTargets_iff, and_comm]
  have hnodup := nodup_stepQueries h (nodup_agreeingTargets s main facts)
  have hall : ∀ q ∈ stepQueries h (agreeingTargets s main facts), q.source = source ∧ q.main = main ∧
      ∃ completion target, q.kind = .transition completion target := by
    intro q hq
    obtain ⟨hs, hm, c, target, hk, -⟩ := (hmem q).1 hq
    exact ⟨hs, hm, c, target, hk⟩
  refine ⟨hmem, hnodup, nodup_targets_of_nodup hnodup hall, ?_⟩
  rw [stepQueries, length_flatMap_pair, length_agreeingTargets, size_freeActions]

/-- The order of the queries does not matter. -/
theorem AsksEachTarget.of_perm {set : ActionSet} {queries queries' : List Query}
    (h : AsksEachTarget set source main facts queries) (hperm : queries.Perm queries') :
    AsksEachTarget set source main facts queries' where
  mem_iff q := by rw [← hperm.mem_iff, h.mem_iff]
  nodup := hperm.nodup_iff.1 h.nodup
  targets_nodup completion := ((hperm.filter _).map _).nodup_iff.1 (h.targets_nodup completion)
  length_eq := hperm.length_eq ▸ h.length_eq

/-- The transition queries of a pair, or the fault that comes instead. -/
def stepQueries? (s : Setting) (source : State) (main : Action) (facts : Facts) :
    Except ConstructionFault (List Query) :=
  match candidates s main facts with
  | .error refusal => .error (.candidates refusal)
  | .ok targets => (targets.mapM (transitionQueries source main)).map List.flatten

theorem schedule_eq_map (e : Exploration) :
    e.schedule s source main facts = (stepQueries? s source main facts).map e.enqueue := by
  unfold schedule stepQueries?
  cases candidates s main facts with
  | error refusal => rfl
  | ok targets =>
    show (targets.mapM (transitionQueries source main) >>= _) =
      Except.map _ (Except.map _ (targets.mapM (transitionQueries source main)))
    cases targets.mapM (transitionQueries source main) with
    | error fault => rfl
    | ok queries => rfl

theorem perform_schedule_eq_map (e : Exploration) :
    perform s e (.schedule source main facts) =
      (stepQueries? s source main facts).map fun queries => (e, queries.map .push) := by
  unfold stepQueries?
  simp only [perform]
  cases candidates s main facts with
  | error refusal => rfl
  | ok targets =>
    show (targets.mapM (transitionQueries source main) >>= _) =
      Except.map _ (Except.map _ (targets.mapM (transitionQueries source main)))
    cases targets.mapM (transitionQueries source main) with
    | error fault => rfl
    | ok queries => rfl

theorem stepQueries?_of_tooMany (h : SortedSet.subsetBound s.bound < facts.branching s.set main) :
    stepQueries? s source main facts =
      .error (.candidates ⟨facts.branching s.set main, SortedSet.subsetBound s.bound⟩) := by
  rw [stepQueries?, candidates_eq, size_freeActions, if_pos h]

theorem stepQueries?_of_mem (hbound : facts.branching s.set main ≤ SortedSet.subsetBound s.bound)
    (h : main ∈ source) :
    stepQueries? s source main facts = .ok (stepQueries h (agreeingTargets s main facts)) := by
  obtain ⟨queries, hq, hflat⟩ := exists_mapM_transitionQueries h (agreeingTargets s main facts)
  rw [stepQueries?, candidates_eq, size_freeActions, if_neg (by omega)]
  show Except.map _ (List.mapM _ _) = _
  rw [hq, ← hflat]
  rfl

theorem transitionQueries_of_not_mem (h : main ∉ source) (target : State) :
    transitionQueries source main target =
      .error (.integrity (.invalidQuery (.mainNotEnabled source main))) := by
  have hmake : ∀ kind, Query.make source main kind = .error (.mainNotEnabled source main) := by
    intro kind
    have hfault : queryFault? source main kind = some (.mainNotEnabled source main) := if_pos h
    unfold Query.make
    split
    · next hnone => simp [hfault] at hnone
    · next fault hsome =>
      rw [hfault] at hsome
      rw [Option.some.inj hsome]
  unfold transitionQueries
  rw [List.mapM_cons, askAbout, hmake]
  rfl

/-- A main action that is not enabled is refused with the first target. -/
theorem stepQueries?_of_not_mem (hbound : facts.branching s.set main ≤ SortedSet.subsetBound s.bound)
    (h : main ∉ source) : stepQueries? s source main facts =
      .error (.integrity (.invalidQuery (.mainNotEnabled source main))) := by
  have hpos : 0 < (agreeingTargets s main facts).length := by
    rw [length_agreeingTargets]
    exact Nat.pow_pos (by omega)
  rw [stepQueries?, candidates_eq, size_freeActions, if_neg (by omega)]
  cases htargets : agreeingTargets s main facts with
  | nil => simp [htargets] at hpos
  | cons target rest =>
    show Except.map _ ((target :: rest).mapM _) = _
    rw [List.mapM_cons, transitionQueries_of_not_mem h]
    rfl

end Exploration

/-! ## Where chores leave an exploration -/

/-- Chores are performed without a break, and this has become of the exploration when they are done, or
when one of them has failed. -/
inductive Leaves (s : Setting) :
    Exploration → List Chore → Exploration → Option ConstructionFault → Prop
  | done (e : Exploration) : Leaves s e [] e none
  | step {e e' e'' : Exploration} {chore : Chore} {more rest : List Chore}
      {fault? : Option ConstructionFault} :
      perform s e chore = .ok (e', more) → Leaves s e' (more ++ rest) e'' fault? →
      Leaves s e (chore :: rest) e'' fault?
  | fault {e : Exploration} {chore : Chore} {rest : List Chore} {fault : ConstructionFault} :
      perform s e chore = .error fault → Leaves s e (chore :: rest) e (some fault)

section Leaves

variable {s : Setting} {e e' : Exploration} {chore : Chore} {rest : List Chore}
  {fault? : Option ConstructionFault}

theorem leaves_iff_of_error {fault : ConstructionFault} (h : perform s e chore = .error fault) :
    Leaves s e (chore :: rest) e' fault? ↔ e' = e ∧ fault? = some fault := by
  constructor
  · intro hleaves
    cases hleaves with
    | step hp _ => simp [h] at hp
    | fault hp =>
      rw [h] at hp
      exact ⟨rfl, by rw [Except.error.inj hp]⟩
  · rintro ⟨rfl, rfl⟩
    exact .fault h

theorem leaves_iff_of_ok {e₁ : Exploration} {more : List Chore}
    (h : perform s e chore = .ok (e₁, more)) :
    Leaves s e (chore :: rest) e' fault? ↔ Leaves s e₁ (more ++ rest) e' fault? := by
  constructor
  · intro hleaves
    cases hleaves with
    | step hp hrest =>
      rw [h] at hp
      obtain ⟨rfl, rfl⟩ := Prod.mk.inj (Except.ok.inj hp)
      exact hrest
    | fault hp => simp [h] at hp
  · exact .step h

theorem leaves_nil_iff : Leaves s e [] e' fault? ↔ e' = e ∧ fault? = none := by
  constructor
  · intro h
    cases h
    exact ⟨rfl, rfl⟩
  · rintro ⟨rfl, rfl⟩
    exact .done _

/-- Queries are put into the queue one after the other, and this never fails. -/
theorem leaves_push_iff {queries : List Query} :
    Leaves s e (queries.map .push) e' fault? ↔ e' = e.enqueue queries ∧ fault? = none := by
  induction queries generalizing e with
  | nil =>
    have hnil : e.enqueue [] = e := by simp [enqueue, WorkQueue.pushAll]
    rw [hnil]
    exact leaves_nil_iff
  | cons q queries ih =>
    have hcons : e.enqueue (q :: queries) = (e.enqueue [q]).enqueue queries := by
      simp only [enqueue, WorkQueue.pushAll_eq_foldl, List.foldl_cons, List.foldl_nil]
    have hpush : perform s e (.push q) = .ok (e.enqueue [q], []) := rfl
    rw [List.map_cons, leaves_iff_of_ok hpush, List.nil_append, ih, hcons]

variable {source : State} {main : Action} {facts : Facts}

/-- Scheduling fails before the first query is put into the queue, or not at all. -/
theorem leaves_schedule_iff : Leaves s e [.schedule source main facts] e' fault? ↔
    (∃ fault, e.schedule s source main facts = .error fault ∧ e' = e ∧ fault? = some fault) ∨
      e.schedule s source main facts = .ok e' ∧ fault? = none := by
  have hperform : perform s e (.schedule source main facts) = _ := perform_schedule_eq_map e
  rw [schedule_eq_map]
  cases hqueries : stepQueries? s source main facts with
  | error fault =>
    rw [hqueries] at hperform
    rw [leaves_iff_of_error hperform]
    simp [Except.map]
  | ok queries =>
    rw [hqueries] at hperform
    rw [leaves_iff_of_ok hperform, List.append_nil, leaves_push_iff]
    simp [Except.map, eq_comm]

end Leaves

/-- **All candidates are scheduled, or nothing is changed.**  There are too many candidates exactly if more
actions are open than the bound allows, which is never more than 30.  Otherwise the two queries about each
candidate are put into the queue one after the other, unless the source does not enable the main action.
Done step by step, scheduling puts nothing into the queue before it fails. -/
theorem schedule_all_or_none (s : Setting) (e : Exploration) (source : State) (main : Action)
    (facts : Facts) :
    (∀ refusal, e.schedule s source main facts = .error (.candidates refusal) ↔
      min s.bound 30 < facts.branching s.set main ∧
        refusal = ⟨facts.branching s.set main, min s.bound 30⟩) ∧
    (facts.branching s.set main ≤ min s.bound 30 → main ∈ source → ∃ queries,
      AsksEachTarget s.set source main facts queries ∧
      e.schedule s source main facts = .ok { e with queue := queries.foldl .push e.queue } ∧
      (e.queue.closed = false →
        (queries.foldl .push e.queue).items = e.queue.items ++ queries)) ∧
    (facts.branching s.set main ≤ min s.bound 30 → main ∉ source →
      e.schedule s source main facts =
        .error (.integrity (.invalidQuery (.mainNotEnabled source main)))) ∧
    (∀ e' fault?, Leaves s e [.schedule source main facts] e' fault? ↔
      (∃ fault, e.schedule s source main facts = .error fault ∧ e' = e ∧ fault? = some fault) ∨
        e.schedule s source main facts = .ok e' ∧ fault? = none) := by
  refine ⟨fun refusal => ?_, fun hle hmain => ?_, fun hle hmain => ?_, fun e' fault? =>
    leaves_schedule_iff⟩
  · rw [schedule_eq_map, show min s.bound 30 = SortedSet.subsetBound s.bound from rfl]
    by_cases hmany : SortedSet.subsetBound s.bound < facts.branching s.set main
    · simp [stepQueries?_of_tooMany hmany, hmany, Except.map, eq_comm]
    · by_cases hmain : main ∈ source
      · simp [stepQueries?_of_mem (Nat.not_lt.1 hmany) hmain, hmany, Except.map]
      · simp [stepQueries?_of_not_mem (Nat.not_lt.1 hmany) hmain, hmany, Except.map]
  · refine ⟨_, asksEachTarget_stepQueries s hmain facts, ?_, fun hopen => ?_⟩
    · rw [schedule_eq_map, stepQueries?_of_mem hle hmain, ← WorkQueue.pushAll_eq_foldl]
      rfl
    · rw [← WorkQueue.pushAll_eq_foldl, WorkQueue.pushAll, hopen]
      rfl
  · rw [schedule_eq_map, stepQueries?_of_not_mem hle hmain]
    rfl

/-! ## A door -/

/-- An action of a door. -/
def doorAction (name : String) : Action where
  precondition := { qualifiedName := "Door#" ++ name ++ preconditionSuffix, returnType := some boolType }
  operation := { qualifiedName := "Door#" ++ name }

/-- A door that can be opened, closed and locked. -/
def doorActions : ActionSet where
  actions := .ofList [doorAction "open", doorAction "close", doorAction "lock"]
  invariant := { qualifiedName := "Door#inv", returnType := some boolType }

/-- A door that was opened can always be closed, and it is proven both that it can be locked and that it
cannot. -/
def doorFacts : Facts :=
  ((({} : Facts).insert (doorAction "close") .yes .enabled).insert (doorAction "lock") .yes .enabled).insert
    (doorAction "lock") .yes .disabled

/-- A door that can be opened only. -/
def doorClosed : State := .ofList [doorAction "open"]

/-- Opening the door leaves four targets, all of them with closing, so eight queries are put into the
queue; they are too many if only one action may be branched over. -/
theorem schedule_all_or_none_door : ∃ queries : List Query,
    (Exploration.start doorClosed).schedule { set := doorActions } doorClosed (doorAction "open")
      doorFacts = .ok { Exploration.start doorClosed with queue := queries.foldl .push {} } ∧
    queries.length = 8 ∧
    (Exploration.start doorClosed).schedule { set := doorActions, bound := 1 } doorClosed
      (doorAction "open") doorFacts = .error (.candidates ⟨2, 1⟩) := by
  have hopen : doorFacts.branching doorActions (doorAction "open") = 2 := by decide +kernel
  obtain ⟨-, hall, -, -⟩ := schedule_all_or_none { set := doorActions } (.start doorClosed) doorClosed
    (doorAction "open") doorFacts
  obtain ⟨hmany, -, -, -⟩ := schedule_all_or_none { set := doorActions, bound := 1 } (.start doorClosed)
    doorClosed (doorAction "open") doorFacts
  obtain ⟨queries, hasks, hschedule, -⟩ := hall (by rw [hopen]; decide) (by decide)
  refine ⟨queries, hschedule, ?_, (hmany _).2 ⟨?_, ?_⟩⟩
  · rw [hasks.length_eq, hopen]
    rfl
  · rw [hopen]
    decide
  · rw [hopen]
    rfl

end Enabledness
