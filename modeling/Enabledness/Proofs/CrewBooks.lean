import Mathlib.Algebra.GroupWithZero.Nat
import Enabledness.Proofs.CrewCount
import Enabledness.Proofs.CrewTurns

/-!
# The books of a crew

Discovering a state, exploring it and gathering its necessity answers take many steps, and other
workers see the exploration between any two of them.  What keeps the books in order nevertheless:

* `Chore.Proper` : a worker has chores about visited states only, with main actions that they enable,
  and what a proper chore leaves to do is proper again (`Chore.Proper.leaves`).
* `Tidy` : a pair of a state and a main action is examined at most once; while it waits, no more
  answers are due than it waits for, and it is released at most once, when no answer is left to come.

Both hold of an exploration and all chores that anybody has left to do (`Orderly`), and every step of a
crew keeps them.
-/

namespace Enabledness

open Exploration

/-! ## Chores that make sense -/

/-- A visited state of the class. -/
structure Visited (s : Setting) (l : ResultLog) (state : State) : Prop where
  mem_visited : state ∈ l.visited
  mem_actions : ∀ a ∈ state, a ∈ s.set.actions

/-- A necessity query of the class about a pair. -/
structure Query.IsDueAt (s : Setting) (k : State × Action) (q : Query) : Prop where
  pair_eq : q.pair = k
  isNecessity_eq : q.isNecessity = true
  isOver : q.IsOver s.set

namespace Chore

/-- A chore is about visited states and their actions. -/
def Proper (s : Setting) (l : ResultLog) : Chore → Prop
  | push q => q.source ∈ l.visited ∧ q.IsOver s.set
  | examine state main => Visited s l state ∧ main ∈ state
  | consult state main left _ toAsk => (Visited s l state ∧ main ∈ state) ∧
      (∀ x ∈ left, x.1 ∈ s.set.actions ∧ x.1 ≠ main) ∧ ∀ q ∈ toAsk, q.IsDueAt s (state, main)
  | await state main _ toAsk => (Visited s l state ∧ main ∈ state) ∧ toAsk ≠ [] ∧
      ∀ q ∈ toAsk, q.IsDueAt s (state, main)
  | note state main .. | release state main | schedule state main _ =>
      Visited s l state ∧ main ∈ state
  | add t | announce t => Visited s l t.source ∧ ∀ a ∈ t.target, a ∈ s.set.actions

variable {s : Setting} {l l' : ResultLog} {e e' : Exploration} {chore : Chore} {more : List Chore}

theorem Proper.mono (h : chore.Proper s l) (hsub : ∀ state ∈ l.visited, state ∈ l'.visited) :
    chore.Proper s l' := by
  have hvisited : ∀ {state}, Visited s l state → Visited s l' state := fun h =>
    ⟨hsub _ h.mem_visited, h.mem_actions⟩
  cases chore with
  | push q => exact ⟨hsub _ h.1, h.2⟩
  | examine | note | release | schedule | add | announce => exact ⟨hvisited h.1, h.2⟩
  | consult | await => exact ⟨⟨hvisited h.1.1, h.1.2⟩, h.2⟩

theorem proper_push_of_isDueAt {state : State} {main : Action} (hs : state ∈ l.visited) {q : Query}
    (h : q.IsDueAt s (state, main)) : (push q).Proper s l := by
  have hsource : q.source = state := congrArg Prod.fst h.pair_eq
  exact ⟨hsource ▸ hs, h.isOver⟩

/-! ### What a proper chore does -/

theorem perform_examine {state : State} {main : Action} (h : main ∈ state) :
    perform s e (.examine state main) = .ok (e, (openingInvariants h).map .push ++
      [.consult state main (necessityKinds s main) {} []]) := by
  simp only [perform, invariantQueries_eq h]
  rfl

theorem perform_consult_cons {state : State} {main tested : Action} (h : main ∈ state)
    (ht : tested ≠ main) (p : Polarity) (left : List (Action × Polarity)) (facts : Facts)
    (toAsk : List Query) :
    perform s e (.consult state main ((tested, p) :: left) facts toAsk) =
      let q : Query := ⟨state, main, _, faultless_necessity h ht p⟩
      match e.log.reuseGlobal q with
      | (some answer, log) =>
        .ok ({ e with log := log, cachedAnswers := e.cachedAnswers + 1 },
          [.consult state main left (facts.insert tested answer p) toAsk])
      | (none, _) => .ok (e, [.consult state main left facts (toAsk ++ [q])]) := by
  simp only [perform, askAbout_of_faultless (faultless_necessity h ht p)]
  rfl

theorem perform_schedule {state : State} {main : Action} (h : main ∈ state) (facts : Facts) :
    perform s e (.schedule state main facts) =
      match candidates s main facts with
      | .error refusal => .error (.candidates refusal)
      | .ok targets => .ok (e, (stepQueries h targets).map .push) := by
  simp only [perform]
  cases candidates s main facts with
  | error refusal => rfl
  | ok targets =>
    obtain ⟨queries, hq, hflat⟩ := exists_mapM_transitionQueries h targets
    show (targets.mapM (transitionQueries state main) >>= _) = .ok (e, _)
    rw [hq, ← hflat]
    rfl

/-- The global table answers a necessity question, or it is to be asked. -/
theorem Proper.leaves_consult {state : State} {main : Action} {x : Action × Polarity}
    {left : List (Action × Polarity)} {facts : Facts} {toAsk : List Query}
    (h : (consult state main (x :: left) facts toAsk).Proper s e.log) (hfiled : Filed e.log)
    (hp : perform s e (consult state main (x :: left) facts toAsk) = .ok (e', more)) :
    (∀ state ∈ e.log.visited, state ∈ e'.log.visited) ∧ Filed e'.log ∧
      ∀ x ∈ more, x.Proper s e'.log := by
  obtain ⟨⟨hv, hm⟩, hleft, hask⟩ := h
  obtain ⟨⟨htested, hne⟩, hleft⟩ := List.forall_mem_cons.1 hleft
  let q : Query := ⟨state, main, _, faultless_necessity hm hne x.2⟩
  rw [perform_consult_cons hm hne] at hp
  simp only at hp
  have hlog := ResultLog.reuseGlobal_snd e.log q
  split at hp
  · next answer log hreuse =>
    obtain ⟨rfl, rfl⟩ := Prod.mk.inj (Except.ok.inj hp)
    rw [show e.log.reuseGlobal q = (some answer, log) from hreuse] at hlog
    have hkept : (∀ state ∈ e.log.visited, state ∈ log.visited) ∧ Filed log := by
      rcases hlog with rfl | ⟨o, rfl⟩
      · exact ⟨fun _ => id, hfiled⟩
      · exact ⟨fun _ => (visited_store e.log q o).symm ▸ id, hfiled.store o hv.mem_visited⟩
    refine ⟨hkept.1, hkept.2, fun x hx => ?_⟩
    rw [List.mem_singleton.1 hx]
    exact ⟨⟨⟨hkept.1 _ hv.mem_visited, hv.mem_actions⟩, hm⟩, hleft, hask⟩
  · obtain ⟨rfl, rfl⟩ := Prod.mk.inj (Except.ok.inj hp)
    have hover : q.IsOver s.set := Query.isOver_of_necessity hv.mem_actions rfl htested
    have hdue : q.IsDueAt s (state, main) :=
      ⟨rfl, Query.isNecessity_eq_true_iff.2 ⟨_, _, _, rfl⟩, hover⟩
    refine ⟨fun _ => id, hfiled, fun x hx => ?_⟩
    rw [List.mem_singleton.1 hx]
    refine ⟨⟨hv, hm⟩, hleft, fun q' hq' => ?_⟩
    rcases List.mem_append.1 hq' with hq' | hq'
    · exact hask q' hq'
    · exact List.mem_singleton.1 hq' ▸ hdue

/-- **What a proper chore leaves** to do is proper, and the log stays filed. -/
theorem Proper.leaves (h : chore.Proper s e.log) (hfiled : Filed e.log)
    (hp : perform s e chore = .ok (e', more)) :
    (∀ state ∈ e.log.visited, state ∈ e'.log.visited) ∧ Filed e'.log ∧
      ∀ x ∈ more, x.Proper s e'.log := by
  cases chore with
  | push q =>
    obtain ⟨rfl, rfl⟩ := Prod.mk.inj (Except.ok.inj hp)
    exact ⟨fun _ => id, hfiled, by simp⟩
  | examine state main =>
    obtain ⟨hv, hm⟩ := h
    rw [perform_examine hm] at hp
    obtain ⟨rfl, rfl⟩ := Prod.mk.inj (Except.ok.inj hp)
    refine ⟨fun _ => id, hfiled, fun x hx => ?_⟩
    rcases List.mem_append.1 hx with hx | hx
    · obtain ⟨q, hq, rfl⟩ := List.mem_map.1 hx
      obtain ⟨hpair, c, hkind⟩ := (mem_openingInvariants hm).1 hq
      have hsource : q.source = state := congrArg Prod.fst hpair
      exact ⟨hsource ▸ hv.mem_visited, Query.isOver_of_invariant (hsource ▸ hv.mem_actions) hkind⟩
    · rw [List.mem_singleton.1 hx]
      exact ⟨⟨hv, hm⟩, fun x hx => mem_necessityKinds.1 hx, by simp⟩
  | consult state main left facts toAsk =>
    obtain ⟨⟨hv, hm⟩, hleft, hask⟩ := h
    cases left with
    | nil =>
      obtain ⟨rfl, rfl⟩ := Prod.mk.inj (Except.ok.inj hp)
      refine ⟨fun _ => id, hfiled, fun x hx => ?_⟩
      rw [List.mem_singleton.1 hx]
      split
      · exact ⟨hv, hm⟩
      · next hne => exact ⟨⟨hv, hm⟩, by simpa using hne, hask⟩
    | cons x left => exact leaves_consult ⟨⟨hv, hm⟩, hleft, hask⟩ hfiled hp
  | await state main facts toAsk =>
    obtain ⟨⟨hv, hm⟩, -, hask⟩ := h
    obtain ⟨rfl, rfl⟩ := Prod.mk.inj (Except.ok.inj hp)
    refine ⟨fun _ => id, hfiled, fun x hx => ?_⟩
    obtain ⟨q, hq, rfl⟩ := List.mem_map.1 hx
    exact proper_push_of_isDueAt hv.mem_visited (hask q hq)
  | note state main tested polarity answer =>
    simp only [perform] at hp
    split at hp
    · simp at hp
    · obtain ⟨rfl, rfl⟩ := Prod.mk.inj (Except.ok.inj hp)
      refine ⟨fun _ => id, hfiled, fun x hx => ?_⟩
      split at hx
      · exact List.mem_singleton.1 hx ▸ h
      · exact absurd hx List.not_mem_nil
  | release state main =>
    simp only [perform] at hp
    split at hp
    · obtain ⟨rfl, rfl⟩ := Prod.mk.inj (Except.ok.inj hp)
      exact ⟨fun _ => id, hfiled, by simp⟩
    · obtain ⟨rfl, rfl⟩ := Prod.mk.inj (Except.ok.inj hp)
      exact ⟨fun _ => id, hfiled, fun x hx => List.mem_singleton.1 hx ▸ h⟩
  | schedule state main facts =>
    obtain ⟨hv, hm⟩ := h
    rw [perform_schedule hm] at hp
    split at hp
    · simp at hp
    · next targets hc =>
      obtain ⟨rfl, rfl⟩ := Prod.mk.inj (Except.ok.inj hp)
      refine ⟨fun _ => id, hfiled, fun x hx => ?_⟩
      obtain ⟨q, hq, rfl⟩ := List.mem_map.1 hx
      obtain ⟨hpair, c, target, ht, hkind⟩ := (mem_stepQueries hm).1 hq
      have hsource : q.source = state := congrArg Prod.fst hpair
      exact ⟨hsource ▸ hv.mem_visited, Query.isOver_of_transition (hsource ▸ hv.mem_actions) hkind
        ((mem_candidates_iff hc).1 ht).mem_actions⟩
  | add t =>
    obtain ⟨rfl, rfl⟩ := Prod.mk.inj (Except.ok.inj hp)
    refine ⟨fun _ => id, hfiled, fun x hx => ?_⟩
    split at hx
    · exact List.mem_singleton.1 hx ▸ h
    · exact absurd hx List.not_mem_nil
  | announce t =>
    obtain ⟨hv, htarget⟩ := h
    obtain ⟨rfl, rfl⟩ := Prod.mk.inj (Except.ok.inj hp)
    have hmem : ∀ state, state = t.target ∨ state ∈ e.log.visited →
        state ∈ (e.log.recordEnqueued t).visited := fun state hs => Roster.mem_insert.2 hs
    refine ⟨fun state hs => hmem state (Or.inr hs), hfiled.recordEnqueued hv.mem_visited,
      fun x hx => ?_⟩
    obtain ⟨a, ha, rfl⟩ := List.mem_map.1 hx
    exact ⟨⟨hmem _ (Or.inl rfl), htarget⟩, ha⟩

/-- **Why a proper chore can fail**: an action has too many candidate targets, or a necessity answer
came that nobody waits for. -/
theorem Proper.fails {fault : ConstructionFault} (h : chore.Proper s e.log)
    (hp : perform s e chore = .error fault) :
    TooWide s fault ∨ ∃ state main tested polarity answer,
      chore = .note state main tested polarity answer ∧ e.pending.get? (state, main) = none := by
  cases chore with
  | push | await | add | announce => simp [perform] at hp
  | examine state main =>
    rw [perform_examine h.2] at hp
    simp at hp
  | consult state main left facts toAsk =>
    obtain ⟨⟨hv, hm⟩, hleft, -⟩ := h
    cases left with
    | nil => simp [perform] at hp
    | cons x left =>
      rw [perform_consult_cons hm (hleft x List.mem_cons_self).2] at hp
      simp only at hp
      split at hp <;> simp at hp
  | note state main tested polarity answer =>
    simp only [perform] at hp
    split at hp
    · next hnone => exact Or.inr ⟨state, main, tested, polarity, answer, rfl, hnone⟩
    · simp at hp
  | release state main =>
    simp only [perform] at hp
    split at hp <;> simp at hp
  | schedule state main facts =>
    rw [perform_schedule h.2] at hp
    split at hp
    · next refusal hc => exact Or.inl ⟨main, facts, refusal, hc, (Except.error.inj hp).symm⟩
    · simp at hp

end Chore

/-! ## The account of a pair -/

/-- The query is a necessity query about a pair. -/
def Query.isDueTo (k : State × Action) (q : Query) : Bool := q.isNecessity && q.pair = k

namespace Chore

variable (k : State × Action)

/-- The necessity answers about a pair that a chore is to bring. -/
def dues : Chore → Nat
  | push q => if q.isDueTo k then 1 else 0
  | note state main .. => if (state, main) = k then 1 else 0
  | _ => 0

/-- The times that a chore is to examine a pair. -/
def openings : Chore → Nat
  | examine state main | consult state main .. | await state main .. =>
    if (state, main) = k then 1 else 0
  | announce t => if t.target = k.1 ∧ k.2 ∈ t.target then 1 else 0
  | _ => 0

/-- The times that a chore is to release a pair. -/
def closings : Chore → Nat
  | release state main => if (state, main) = k then 1 else 0
  | _ => 0

/-- A sum over chores. -/
def total (f : Chore → Nat) (load : List Chore) : Nat := (load.map f).sum

@[simp]
theorem total_nil (f : Chore → Nat) : total f [] = 0 := rfl

@[simp]
theorem total_cons (f : Chore → Nat) (chore : Chore) (load : List Chore) :
    total f (chore :: load) = f chore + total f load := List.sum_cons

@[simp]
theorem total_append (f : Chore → Nat) (load more : List Chore) :
    total f (load ++ more) = total f load + total f more := by
  simp [total]

theorem total_perm {f : Chore → Nat} {load load' : List Chore} (h : load.Perm load') :
    total f load = total f load' := (h.map f).sum_nat

theorem total_le_of_sublist {f : Chore → Nat} {load load' : List Chore} (h : load'.Sublist load) :
    total f load' ≤ total f load := by
  induction h with
  | slnil => exact Nat.le_refl _
  | cons chore _ ih =>
    rw [total_cons]
    omega
  | cons_cons chore _ ih =>
    rw [total_cons, total_cons]
    omega

theorem total_dues_push (queries : List Query) :
    total (dues k) (queries.map push) = queries.countP (·.isDueTo k) := by
  induction queries with
  | nil => rfl
  | cons q queries ih =>
    rw [List.map_cons, total_cons, ih, List.countP_cons]
    exact Nat.add_comm _ _

theorem total_openings_push (queries : List Query) : total (openings k) (queries.map push) = 0 := by
  simp [total, List.sum_eq_zero_iff_forall_eq_nat, openings]

theorem total_closings_push (queries : List Query) : total (closings k) (queries.map push) = 0 := by
  simp [total, List.sum_eq_zero_iff_forall_eq_nat, closings]

/-- Exploring a state examines each of its pairs once. -/
theorem total_openings_opening (state : State) :
    total (openings k) (opening state) = if state = k.1 ∧ k.2 ∈ state then 1 else 0 := by
  have hcount : ∀ l : List Action, total (openings k) (l.map (examine state)) =
      if state = k.1 then l.count k.2 else 0 := by
    intro l
    induction l with
    | nil => simp
    | cons a l ih =>
      rw [List.map_cons, total_cons, ih, List.count_cons]
      by_cases hs : state = k.1
      · by_cases ha : a = k.2
        · simp [openings, hs, ha, Nat.add_comm]
        · have hne : (k.1, a) ≠ k := fun heq => ha (congrArg Prod.snd heq)
          simp [openings, hs, ha, hne]
      · have hne : (state, a) ≠ k := fun heq => hs (congrArg Prod.fst heq)
        simp [openings, hs, hne]
  have hnodup := List.nodup_iff_count.1 (SortedSet.nodup_toList state) k.2
  rw [opening, hcount]
  by_cases hs : state = k.1
  · by_cases hm : k.2 ∈ state
    · have hpos := List.count_pos_iff.2 (show k.2 ∈ state.toList from hm)
      rw [if_pos hs, if_pos ⟨hs, hm⟩]
      omega
    · rw [if_pos hs, if_neg fun h => hm h.2]
      exact List.count_eq_zero.2 hm
  · rw [if_neg hs, if_neg fun h => hs h.1]

theorem total_opening {f : Chore → Nat} (hf : ∀ state main, f (examine state main) = 0)
    (state : State) : total f (opening state) = 0 := by
  simp [total, List.sum_eq_zero_iff_forall_eq_nat, opening, hf]

end Chore

/-- The account of a pair: it is examined once at most, and only if its state is seen; no answer is due
and nobody is to release it unless it waits; and when it waits, nobody is to examine it, somebody
releases it only when no answer is left to come, and no more answers are due than are to come.  As long
as nothing goes wrong, they are as many. -/
structure Tidy (calm seen : Prop) (waiting : Option Facts) (due openings closings : Nat) : Prop where
  openings_le : openings ≤ 1
  unseen : ¬ seen → openings = 0 ∧ waiting = none
  idle : waiting = none → due = 0 ∧ closings = 0
  busy : ∀ f, waiting = some f → openings = 0 ∧ closings ≤ 1 ∧ (closings = 1 → f.remaining = 0) ∧
    due ≤ f.remaining
  exact : calm → ∀ f, waiting = some f → f.remaining = due ∧ (f.remaining = 0 → closings = 1)

namespace Tidy

variable {calm calm' seen seen' : Prop} {waiting : Option Facts} {f : Facts}
  {due due' openings openings' closings closings' : Nat}

/-- Answers and chores get lost, but then something has gone wrong. -/
theorem lose (h : Tidy calm seen waiting due openings closings) (hcalm : ¬ calm') (hdue : due' ≤ due)
    (hopenings : openings' ≤ openings) (hclosings : closings' ≤ closings) :
    Tidy calm' seen waiting due' openings' closings' where
  openings_le := hopenings.trans h.openings_le
  unseen hs := ⟨Nat.eq_zero_of_le_zero ((h.unseen hs).1 ▸ hopenings), (h.unseen hs).2⟩
  idle hw := by
    have := h.idle hw
    omega
  busy f hf := by
    obtain ⟨ho, hc, hzero, hle⟩ := h.busy f hf
    refine ⟨by omega, by omega, fun h1 => hzero (by omega), by omega⟩
  exact hc := absurd hc hcalm

/-- A pair whose answers are all known is not examined any further. -/
theorem skip (h : Tidy calm seen waiting due (openings' + openings) closings) :
    Tidy calm seen waiting due openings closings where
  openings_le := by
    have := h.openings_le
    omega
  unseen hs := by
    obtain ⟨ho, hw⟩ := h.unseen hs
    exact ⟨by omega, hw⟩
  idle := h.idle
  busy f hf := by
    obtain ⟨ho, hrest⟩ := h.busy f hf
    exact ⟨by omega, hrest⟩
  exact := h.exact

/-- A pair starts to wait. -/
theorem await (h : Tidy calm seen waiting due (1 + openings) closings) (f : Facts)
    (hpos : 0 < f.remaining) : Tidy calm seen (some f) (due + f.remaining) openings closings := by
  have hle := h.openings_le
  have hnone : waiting = none := by
    cases hw : waiting with
    | none => rfl
    | some g =>
      have := (h.busy g hw).1
      omega
  obtain ⟨hdue, hclosings⟩ := h.idle hnone
  refine ⟨by omega, fun hs => ?_, by simp, fun g hg => ?_, fun _ g hg => ?_⟩
  · have := (h.unseen hs).1
    omega
  · obtain rfl := Option.some.inj hg
    refine ⟨by omega, by omega, fun h1 => by omega, by omega⟩
  · obtain rfl := Option.some.inj hg
    exact ⟨by omega, fun hzero => by omega⟩

/-- An answer arrives; the last one has the pair released. -/
theorem note (h : Tidy calm seen (some f) (1 + due) openings closings) (f' : Facts)
    (hf : f'.remaining = f.remaining - 1) :
    Tidy calm seen (some f') due openings ((if f'.remaining = 0 then 1 else 0) + closings) := by
  obtain ⟨ho, hc, hzero, hle⟩ := h.busy f rfl
  have hclosings : closings = 0 := by
    by_contra hne
    have := hzero (by omega)
    omega
  refine ⟨h.openings_le, fun hs => ?_, by simp, fun g hg => ?_, fun hcalm g hg => ?_⟩
  · have := (h.unseen hs).2
    simp at this
  · obtain rfl := Option.some.inj hg
    refine ⟨ho, ?_, fun h1 => ?_, by omega⟩
    · split <;> omega
    · split at h1
      · assumption
      · omega
  · obtain rfl := Option.some.inj hg
    have := (h.exact hcalm f rfl).1
    refine ⟨by omega, fun hz => ?_⟩
    rw [if_pos hz, hclosings]

/-- A pair is released. -/
theorem release (h : Tidy calm seen (some f) due openings (1 + closings)) :
    Tidy calm seen none due openings closings := by
  obtain ⟨ho, hc, hzero, hle⟩ := h.busy f rfl
  have hremaining := hzero (by omega)
  refine ⟨h.openings_le, fun hs => ⟨(h.unseen hs).1, rfl⟩, fun _ => ⟨by omega, by omega⟩, by simp,
    by simp⟩

/-- A state is seen. -/
theorem see (h : Tidy calm seen waiting due openings closings) (hs : seen → seen') :
    Tidy calm seen' waiting due openings closings :=
  { h with unseen := fun hn => h.unseen fun hseen => hn (hs hseen) }

/-- A state is seen for the first time, so that its pairs are to be examined. -/
theorem discover (h : Tidy calm seen waiting due openings closings) (hnew : ¬ seen)
    (hseen : seen') : Tidy calm seen' waiting due (1 + openings) closings := by
  obtain ⟨ho, hw⟩ := h.unseen hnew
  refine ⟨by omega, absurd hseen, h.idle, fun f hf => ?_, h.exact⟩
  rw [hw] at hf
  simp at hf

end Tidy

/-! ## The chores of all -/

open Chore

/-- The answers about a pair that wait in the queue or are to be brought by chores. -/
def Exploration.dueAt (e : Exploration) (load : List Chore) (k : State × Action) : Nat :=
  e.queue.items.countP (·.isDueTo k) + total (dues k) load

/-- The account of a pair is in order, given the chores that are left to do. -/
abbrev Exploration.TidyAt (e : Exploration) (calm : Prop) (load : List Chore) (k : State × Action) :
    Prop :=
  Tidy calm (k.1 ∈ e.automaton.states) (e.pending.get? k) (e.dueAt load k) (total (openings k) load)
    (total (closings k) load)

/-- An exploration is in order together with all chores that are left to do. -/
structure Orderly (s : Setting) (calm : Prop) (e : Exploration) (load : List Chore) : Prop where
  filed : Filed e.log
  queued : ∀ q ∈ e.queue.items, (push q).Proper s e.log
  proper : ∀ chore ∈ load, chore.Proper s e.log
  tidy : ∀ k, e.TidyAt calm load k

/-! ## What a chore does to an account -/

namespace Exploration.TidyAt

variable {calm : Prop} {e : Exploration} {load : List Chore} {k : State × Action} {state : State}
  {main : Action} {facts : Facts}

/-- A query that is put into the queue stays due. -/
theorem pushed {q : Query} (h : e.TidyAt calm (push q :: load) k)
    (hopen : calm → e.queue.closed = false) : (e.enqueue [q]).TidyAt calm load k := by
  simp only [TidyAt, dueAt, total_cons, dues, openings, closings, Nat.zero_add] at h ⊢
  by_cases hclosed : e.queue.closed = true
  · -- a closed queue takes nothing, but then something has gone wrong
    have hsame : e.enqueue [q] = e := by simp [enqueue, WorkQueue.pushAll, hclosed]
    rw [hsame]
    refine h.lose (fun hcalm => ?_) (by omega) (Nat.le_refl _) (Nat.le_refl _)
    rw [hopen hcalm] at hclosed
    simp at hclosed
  · have hcount : (e.enqueue [q]).queue.items.countP (·.isDueTo k) =
        e.queue.items.countP (·.isDueTo k) + if q.isDueTo k then 1 else 0 := by
      rw [items_enqueue (by simpa using hclosed), List.countP_append, List.countP_singleton]
    rw [hcount, Nat.add_assoc]
    exact h

/-- A pair that starts to wait has all its answers due. -/
theorem awaited {toAsk : List Query} (h : e.TidyAt calm (await state main facts toAsk :: load) k)
    (hne : toAsk ≠ []) (hask : ∀ q ∈ toAsk, q.pair = (state, main) ∧ q.isNecessity = true) :
    ({ e with pending := e.pending.insert (state, main) { facts with remaining := toAsk.length } } :
      Exploration).TidyAt calm (toAsk.map push ++ load) k := by
  simp only [TidyAt, dueAt, total_cons, total_append, total_dues_push, total_openings_push,
    total_closings_push, dues, openings, closings, Nat.zero_add, Table.get?_insert] at h ⊢
  by_cases hk : k = (state, main)
  · have hall : toAsk.countP (·.isDueTo k) = toAsk.length := by
      rw [List.countP_eq_length]
      intro q hq
      obtain ⟨hpair, hnec⟩ := hask q hq
      simp [Query.isDueTo, hnec, hpair, hk]
    rw [if_pos hk.symm] at h
    rw [if_pos hk, hall, Nat.add_comm toAsk.length, ← Nat.add_assoc]
    exact h.await { facts with remaining := toAsk.length } (List.length_pos_iff.2 hne)
  · have hnone : toAsk.countP (·.isDueTo k) = 0 := by
      rw [List.countP_eq_zero]
      intro q hq
      simp [Query.isDueTo, (hask q hq).1, Ne.symm hk]
    rw [if_neg (Ne.symm hk), Nat.zero_add] at h
    rw [if_neg hk, hnone, Nat.zero_add]
    exact h

/-- A pair is released once it has noted its last answer. -/
theorem noted {tested : Action} {polarity : Polarity} {answer : Answer} {facts' : Facts}
    (h : e.TidyAt calm (note state main tested polarity answer :: load) k)
    (hf : e.pending.get? (state, main) = some facts)
    (hremaining : facts'.remaining = facts.remaining - 1) :
    ({ e with pending := e.pending.insert (state, main) facts' } : Exploration).TidyAt calm
      ((if facts'.remaining = 0 then [Chore.release state main] else []) ++ load) k := by
  have hless : ∀ w : Chore → Nat, total w (if facts'.remaining = 0 then [Chore.release state main] else [])
      = if facts'.remaining = 0 then w (.release state main) else 0 := by
    intro w
    split
    · simp
    · rfl
  simp only [TidyAt, dueAt, total_cons, total_append, hless, dues, openings, closings, ite_self,
    Nat.zero_add, Table.get?_insert] at h ⊢
  by_cases hk : k = (state, main)
  · subst hk
    simp only [hf, if_true] at h ⊢
    rw [Nat.add_left_comm] at h
    exact h.note facts' hremaining
  · rw [if_neg (Ne.symm hk), Nat.zero_add] at h
    rw [if_neg hk, if_neg (Ne.symm hk), ite_self, Nat.zero_add]
    exact h

/-- A pair that waits no longer has nothing due. -/
theorem released (h : e.TidyAt calm (release state main :: load) k)
    (hf : e.pending.get? (state, main) = some facts) :
    ({ e with pending := e.pending.erase (state, main) } : Exploration).TidyAt calm
      ([Chore.schedule state main facts] ++ load) k := by
  simp only [TidyAt, dueAt, total_cons, total_append, total_nil, dues, openings, closings,
    Nat.zero_add, Nat.add_zero, Table.get?_erase] at h ⊢
  by_cases hk : k = (state, main)
  · subst hk
    rw [if_pos rfl, hf] at h
    rw [if_pos rfl]
    exact h.release
  · rw [if_neg (Ne.symm hk), Nat.zero_add] at h
    rw [if_neg hk]
    exact h

/-- The pairs of a discovered state are to be opened. -/
theorem added {t : Transition} (h : e.TidyAt calm (add t :: load) k) :
    ({ e with automaton := e.automaton.addTransition t } : Exploration).TidyAt calm
      ((if e.automaton.isDiscovery t then [announce t] else []) ++ load) k := by
  have hgrows : k.1 ∈ e.automaton.states → k.1 ∈ (e.automaton.addTransition t).states := fun hs =>
    Automaton.mem_states_addTransition.2 (Or.inr (Or.inr hs))
  simp only [TidyAt, dueAt, total_cons, total_append, dues, openings, closings, Nat.zero_add] at h ⊢
  by_cases hd : e.automaton.isDiscovery t = true
  · simp only [if_pos hd, total_cons, total_nil, dues, openings, closings, Nat.zero_add,
      Nat.add_zero]
    by_cases hk : t.target = k.1 ∧ k.2 ∈ t.target
    · have hnew : k.1 ∉ e.automaton.states := by
        have hnew := of_decide_eq_true hd
        rw [Roster.mem_insert, not_or] at hnew
        exact hk.1 ▸ hnew.2
      rw [if_pos hk]
      exact h.discover hnew (Automaton.mem_states_addTransition.2 (Or.inl hk.1.symm))
    · rw [if_neg hk, Nat.zero_add]
      exact h.see hgrows
  · simp only [if_neg hd, total_nil, Nat.zero_add]
    exact h.see hgrows

end Exploration.TidyAt

/-! ## Explorations with their chores -/

namespace Orderly

variable {s : Setting} {calm calm' : Prop} {e e' : Exploration} {load load' more : List Chore}
  {chore : Chore} {k : State × Action}

theorem perm (h : Orderly s calm e load) (hperm : load.Perm load') : Orderly s calm e load' where
  filed := h.filed
  queued := h.queued
  proper chore hc := h.proper chore (hperm.mem_iff.2 hc)
  tidy k := by
    have htidy := h.tidy k
    rwa [TidyAt, dueAt, total_perm hperm, total_perm hperm, total_perm hperm] at htidy

theorem not_mem_due {queries : List Query} (h : ∀ q ∈ queries, q.isNecessity = false) :
    queries.countP (·.isDueTo k) = 0 := by
  rw [List.countP_eq_zero]
  intro q hq
  simp [Query.isDueTo, h q hq]

/-- A chore keeps the account of every pair. -/
theorem tidy_perform (h : Orderly s calm e (chore :: load))
    (hopen : calm → e.queue.closed = false) (hp : perform s e chore = .ok (e', more))
    (k : State × Action) : e'.TidyAt calm (more ++ load) k := by
  have ht := h.tidy k
  have hproper := h.proper chore List.mem_cons_self
  cases chore with
  | push q =>
    obtain ⟨rfl, rfl⟩ := Prod.mk.inj (Except.ok.inj hp)
    exact ht.pushed hopen
  | examine state main =>
    rw [perform_examine hproper.2] at hp
    obtain ⟨rfl, rfl⟩ := Prod.mk.inj (Except.ok.inj hp)
    have hnone : (openingInvariants hproper.2).countP (·.isDueTo k) = 0 :=
      not_mem_due (by simp [openingInvariants, Query.isNecessity, Query.tested?])
    simpa only [TidyAt, dueAt, total_append, total_dues_push, total_openings_push,
      total_closings_push, hnone, total_cons, total_nil, dues, openings, closings, Nat.zero_add,
      Nat.add_zero] using ht
  | consult state main left facts toAsk =>
    obtain ⟨⟨hv, hm⟩, hleft, -⟩ := hproper
    simp only [TidyAt, dueAt, total_cons, dues, openings, closings, Nat.zero_add] at ht
    cases left with
    | nil =>
      obtain ⟨rfl, rfl⟩ := Prod.mk.inj (Except.ok.inj hp)
      by_cases hempty : toAsk.isEmpty = true
      · simpa only [TidyAt, dueAt, if_pos hempty, total_append, total_cons, total_nil, dues, openings,
          closings, Nat.zero_add] using ht.skip
      · simpa only [TidyAt, dueAt, if_neg hempty, total_append, total_cons, total_nil, dues, openings,
          closings, Nat.zero_add, Nat.add_zero] using ht
    | cons x left =>
      rw [perform_consult_cons hm (hleft x List.mem_cons_self).2] at hp
      simp only at hp
      split at hp
      all_goals
        obtain ⟨rfl, rfl⟩ := Prod.mk.inj (Except.ok.inj hp)
        simpa only [TidyAt, dueAt, total_append, total_cons, total_nil, dues, openings, closings,
          Nat.zero_add, Nat.add_zero] using ht
  | await state main facts toAsk =>
    obtain ⟨-, hne, hask⟩ := hproper
    obtain ⟨rfl, rfl⟩ := Prod.mk.inj (Except.ok.inj hp)
    exact ht.awaited hne fun q hq => ⟨(hask q hq).pair_eq, (hask q hq).isNecessity_eq⟩
  | note state main tested polarity answer =>
    simp only [perform] at hp
    split at hp
    · simp at hp
    · next facts hf =>
      obtain ⟨rfl, rfl⟩ := Prod.mk.inj (Except.ok.inj hp)
      exact ht.noted hf rfl
  | release state main =>
    simp only [perform] at hp
    split at hp
    · -- a pair that does not wait is not to be released
      next hnone =>
      have hclosings := ((h.tidy (state, main)).idle hnone).2
      simp [total_cons, closings] at hclosings
    · next facts hf =>
      obtain ⟨rfl, rfl⟩ := Prod.mk.inj (Except.ok.inj hp)
      exact ht.released hf
  | schedule state main facts =>
    rw [perform_schedule hproper.2] at hp
    split at hp
    · simp at hp
    · next targets hc =>
      obtain ⟨rfl, rfl⟩ := Prod.mk.inj (Except.ok.inj hp)
      have hnone : (stepQueries hproper.2 targets).countP (·.isDueTo k) = 0 := by
        refine not_mem_due fun q hq => ?_
        obtain ⟨-, c, target, -, hkind⟩ := (mem_stepQueries hproper.2).1 hq
        simp [Query.isNecessity, Query.tested?, hkind]
      simpa only [TidyAt, dueAt, total_append, total_cons, total_dues_push, total_openings_push,
        total_closings_push, hnone, dues, openings, closings, Nat.zero_add] using ht
  | add t =>
    obtain ⟨rfl, rfl⟩ := Prod.mk.inj (Except.ok.inj hp)
    exact ht.added
  | announce t =>
    obtain ⟨rfl, rfl⟩ := Prod.mk.inj (Except.ok.inj hp)
    have hdues : total (dues k) (opening t.target) = 0 := total_opening (fun _ _ => rfl) t.target
    have hclosings : total (closings k) (opening t.target) = 0 :=
      total_opening (fun _ _ => rfl) t.target
    simpa only [TidyAt, dueAt, total_append, total_cons, hdues, hclosings, total_openings_opening,
      dues, openings, closings, Nat.zero_add] using ht

/-- **Performing a chore** keeps the exploration in order. -/
theorem perform (h : Orderly s calm e (chore :: load)) (hopen : calm → e.queue.closed = false)
    (hp : perform s e chore = .ok (e', more)) : Orderly s calm e' (more ++ load) := by
  have hproper := h.proper chore List.mem_cons_self
  obtain ⟨hsub, hfiled, hmore⟩ := hproper.leaves h.filed hp
  refine ⟨hfiled, fun q hq => ?_, fun x hx => ?_, h.tidy_perform hopen hp⟩
  · rcases (perform_changes hp).1 with ⟨q', rfl, hqueue⟩ | ⟨hqueue, -⟩
    · have hpush : ∀ q ∈ (e.queue.push q').items, q ∈ e.queue.items ∨ q = q' := by
        intro q hq
        unfold WorkQueue.push at hq
        split at hq
        · exact Or.inl hq
        · exact (List.mem_append.1 hq).imp_right List.mem_singleton.1
      rcases hpush q (hqueue ▸ hq) with hq | rfl
      · exact (h.queued q hq).mono hsub
      · exact hproper.mono hsub
    · exact (h.queued q (hqueue ▸ hq)).mono hsub
  · rcases List.mem_append.1 hx with hx | hx
    · exact hmore x hx
    · exact (h.proper x (List.mem_cons_of_mem _ hx)).mono hsub

/-- A chore can fail only because an action has too many candidate targets: where a necessity answer
is noted, one is due. -/
theorem fails (h : Orderly s calm e (chore :: load)) {fault : ConstructionFault}
    (hp : Enabledness.perform s e chore = .error fault) : TooWide s fault := by
  rcases (h.proper chore List.mem_cons_self).fails hp with
    hwide | ⟨state, main, tested, polarity, answer, rfl, hnone⟩
  · exact hwide
  · have hdue := ((h.tidy (state, main)).idle hnone).1
    simp [dueAt, dues] at hdue

/-- When something goes wrong, chores may get lost. -/
theorem lose (h : Orderly s calm e load) (hcalm : ¬ calm') (hsub : load'.Sublist load) :
    Orderly s calm' e load' where
  filed := h.filed
  queued := h.queued
  proper chore hc := h.proper chore (hsub.subset hc)
  tidy k := (h.tidy k).lose hcalm (Nat.add_le_add_left (total_le_of_sublist hsub) _)
    (total_le_of_sublist hsub) (total_le_of_sublist hsub)

theorem mono (h : Orderly s calm e load) (hcalm : calm' → calm) : Orderly s calm' e load :=
  { h with tidy := fun k => { h.tidy k with exact := fun hc => (h.tidy k).exact (hcalm hc) } }

/-- The items of the queue are all that matters about it. -/
theorem setQueue (h : Orderly s calm e load) {queue : WorkQueue Query}
    (hitems : queue.items = e.queue.items) : Orderly s calm { e with queue := queue } load where
  filed := h.filed
  queued q hq := h.queued q (hitems ▸ hq)
  proper := h.proper
  tidy k := by
    have htidy := h.tidy k
    rw [TidyAt, dueAt, ← hitems] at htidy
    exact htidy

/-- When something goes wrong, the queue may be emptied. -/
theorem abort (h : Orderly s calm e load) (hcalm : ¬ calm') :
    Orderly s calm' { e with queue := e.queue.abort } load where
  filed := h.filed
  queued q hq := absurd hq List.not_mem_nil
  proper := h.proper
  tidy k := by
    refine (h.tidy k).lose hcalm (Nat.add_le_add_right ?_ _) (Nat.le_refl _) (Nat.le_refl _)
    exact Nat.zero_le _

/-- A query that is taken is in the hands of a worker, as if it was to be pushed again. -/
theorem take (h : Orderly s calm e load) {i : Nat} {q : Query} (hq : e.queue.items[i]? = some q) :
    Orderly s calm { e with queue := { e.queue with items := e.queue.items.eraseIdx i } }
      (push q :: load) where
  filed := h.filed
  queued q' hq' := h.queued q' ((List.eraseIdx_sublist _ _).subset hq')
  proper chore hc := by
    rcases List.mem_cons.1 hc with rfl | hc
    · exact h.queued q (List.mem_of_getElem? hq)
    · exact h.proper chore hc
  tidy k := by
    have htidy := h.tidy k
    have hcount := countP_eraseIdx (·.isDueTo k) hq
    simp only [TidyAt, dueAt, total_cons, openings, closings, Nat.zero_add] at htidy ⊢
    rw [← hcount, Nat.add_assoc] at htidy
    exact htidy

/-- A verdict is recorded, and the worker that took the query reacts to it. -/
theorem record (h : Orderly s calm e (push q :: load)) (run : VerifierRun) :
    Orderly s calm { e with log := e.log.record q run }
      (reaction q (q.answer run.verdict) ++ load) := by
  obtain ⟨hsource, hover⟩ := h.proper (push q) List.mem_cons_self
  have hvisited : ∀ state ∈ e.log.visited, state ∈ (e.log.record q run).visited := fun state hs =>
    (visited_store e.log q _).symm ▸ hs
  refine ⟨h.filed.store _ hsource, fun q' hq' => (h.queued q' hq').mono hvisited, fun x hx => ?_,
    fun k => ?_⟩
  · rcases List.mem_append.1 hx with hx | hx
    · have hstate : Visited s (e.log.record q run) q.source :=
        ⟨hvisited _ hsource, hover.mem_of_source⟩
      unfold reaction at hx
      split at hx
      · exact absurd hx List.not_mem_nil
      · next c target hkind =>
        split at hx
        · rw [List.mem_singleton.1 hx]
          exact ⟨hstate, hover.mem_of_target target (by simp [Query.target?, hkind])⟩
        · exact absurd hx List.not_mem_nil
      · rw [List.mem_singleton.1 hx]
        exact ⟨hstate, q.main_mem_source⟩
    · exact (h.proper x (List.mem_cons_of_mem _ hx)).mono hvisited
  · -- the answer that was due is the one that is noted
    have hreact : total (dues k) (reaction q (q.answer run.verdict)) = (push q).dues k ∧
        total (openings k) (reaction q (q.answer run.verdict)) = 0 ∧
        total (closings k) (reaction q (q.answer run.verdict)) = 0 := by
      unfold reaction
      rcases hkind : q.kind with c | ⟨c, target⟩ | ⟨p, scope, tested⟩
      · simp [dues, Query.isDueTo, Query.isNecessity, Query.tested?, hkind]
      · simp only
        split <;> simp [dues, openings, closings, Query.isDueTo, Query.isNecessity, Query.tested?, hkind]
      · by_cases hk : (q.source, q.main) = k <;>
          simp [dues, openings, closings, Query.isDueTo, Query.isNecessity, Query.tested?, hkind,
            Query.pair, hk]
    have htidy := h.tidy k
    simp only [TidyAt, dueAt, total_cons, total_append, hreact] at htidy ⊢
    simpa only [openings, closings, Nat.zero_add] using htidy

end Orderly

/-! ## The crew -/

/-- The chores of a worker; a query in its hands counts as one that is to be pushed. -/
def Stage.load : Stage → List Chore
  | holding q | told q _ => [.push q]
  | reacting _ chores => chores
  | _ => []

/-- The chores of the lead. -/
def Lead.load : Lead → List Chore
  | exploring chores => chores
  | _ => []

/-- A move keeps the exploration in order with the chores of all. -/
theorem Worker.Move.orderly {s : Setup} {sh sh' : Shared} {w w' : Worker} {acts : List Act}
    (hmove : Worker.Move s sh w acts sh' w') {calm calm' : Prop} {rest : List Chore}
    (hback : calm' → calm) (hcalm : calm' → w'.stage.isCalm = true)
    (hopen : calm → w.stage.job? ≠ none → sh.exploration.queue.closed = false)
    (h : Orderly s.toSetting calm sh.exploration (w.stage.load ++ rest)) :
    Orderly s.toSetting calm' sh'.exploration (w'.stage.load ++ rest) := by
  have hlost : ∀ {chores : List Chore}, rest.Sublist (chores ++ rest) :=
    List.sublist_append_right _ _
  cases hmove with
  | leave | stay | wait | close | alarm => exact h.mono hback
  | take ht =>
    obtain ⟨hq, rfl⟩ := WorkQueue.takeAt_eq_item_iff.1 ht
    exact (h.take hq).mono hback
  | @ask program program' q n _ =>
    cases hv : s.verifier n program' q with
    | ran run => exact h.mono hback
    | failed fault =>
      rw [hv] at hcalm
      exact h.lose (fun hc => absurd (hcalm hc) Bool.false_ne_true) hlost
    | crashed =>
      rw [hv] at hcalm
      exact h.lose (fun hc => absurd (hcalm hc) Bool.false_ne_true) hlost
  | @record program q run => exact (h.record run).mono hback
  | @chore program q e chore more rest' hp =>
    have hperformed : Orderly s.toSetting calm e (more ++ (rest' ++ rest)) :=
      h.perform (fun hc => hopen hc (by simp [Stage.job?])) hp
    rw [← List.append_assoc] at hperformed
    exact hperformed.mono hback
  | fault hp => exact h.lose (fun hc => absurd (hcalm hc) Bool.false_ne_true) hlost
  | settle => exact (h.setQueue (WorkQueue.items_taskDone _)).mono hback
  | fail => exact (h.setQueue (WorkQueue.items_taskDone _)).mono hback
  | abort => exact h.abort fun hc => absurd (hcalm hc) Bool.false_ne_true

/-- The fault that a worker is busy with. -/
def Stage.fault? : Stage → Option ConstructionFault
  | failed _ fault | alarmed fault | aborting fault => some fault
  | ended fault? => fault?
  | _ => none

/-- The faults that are not to be: a query that makes no sense, a necessity answer that nobody waits
for, an outcome of a state that was never visited. -/
def ConstructionFault.IsInternal : ConstructionFault → Prop
  | integrity (.invalidQuery _) | integrity (.untrackedNecessity ..)
  | integrity (.unvisitedState _) => True
  | _ => False

theorem not_isInternal_of_tooWide {s : Setting} {fault : ConstructionFault} (h : TooWide s fault) :
    ¬ fault.IsInternal := by
  obtain ⟨main, facts, refusal, -, rfl⟩ := h
  exact id

theorem ConstructionFault.not_isInternal_ofVerifier (fault : VerifierFault) :
    ¬ (ofVerifier fault).IsInternal := by
  cases fault <;> exact id

/-- A worker gets into trouble only through the verifier or too many candidate targets. -/
theorem Worker.Move.not_isInternal {s : Setup} {sh sh' : Shared} {w w' : Worker} {acts : List Act}
    (hmove : Worker.Move s sh w acts sh' w') {calm : Prop} {rest : List Chore}
    (h : Orderly s.toSetting calm sh.exploration (w.stage.load ++ rest))
    (hw : ∀ fault, w.stage.fault? = some fault → ¬ fault.IsInternal) :
    ∀ fault, w'.stage.fault? = some fault → ¬ fault.IsInternal := by
  intro fault hf
  cases hmove with
  | leave | stay | take | wait | close | record | chore | settle => simp [Stage.fault?] at hf
  | @ask program program' q n _ =>
    cases hv : s.verifier n program' q with
    | ran run => simp [hv, Stage.ofReply, Stage.fault?] at hf
    | failed fault' =>
      simp only [hv, Stage.ofReply, Stage.fault?, Option.some.injEq] at hf
      exact hf ▸ ConstructionFault.not_isInternal_ofVerifier fault'
    | crashed => simp [hv, Stage.ofReply, Stage.fault?] at hf
  | fault hp =>
    obtain rfl := Option.some.inj hf
    exact not_isInternal_of_tooWide (h.fails hp)
  | fail | alarm | abort => exact hw fault hf

namespace Crew

variable {s : Setup} {c c' : Crew} {events more : List Event} {initial : State}

/-- All chores that anybody has left to do. -/
def load (c : Crew) : List Chore := c.lead.load ++ c.workers.flatMap fun w => w.stage.load

theorem load_perm (sh : Shared) (before after : List Worker) (w : Worker) (lead : Lead) :
    (load ⟨sh, before ++ w :: after, lead⟩).Perm
      (w.stage.load ++ (lead.load ++ (before ++ after).flatMap fun w => w.stage.load)) := by
  rw [load, List.flatMap_append, List.flatMap_cons, List.flatMap_append, ← List.append_assoc lead.load,
    ← List.append_assoc lead.load]
  exact List.perm_append_comm_assoc _ _ _

/-- Nothing is wrong with the books of a crew. -/
structure Safe (s : Setup) (c : Crew) : Prop where
  orderly : Orderly s.toSetting c.Calm c.exploration c.load
  worker : ∀ w ∈ c.workers, ∀ fault, w.stage.fault? = some fault → ¬ fault.IsInternal
  lead : ∀ fault, c.lead = .failed fault → ¬ fault.IsInternal

theorem safe_start (hinitial : ∀ a ∈ initial, a ∈ s.set.actions) (n : Nat) :
    Safe s (start s initial n) := by
  have hload : (start s initial n).load = opening initial := by
    have hnone : ((start s initial n).workers.flatMap fun w => w.stage.load) = [] := by
      rw [List.flatMap_eq_nil_iff]
      intro w hw
      rw [(List.mem_replicate.1 hw).2]
      rfl
    rw [load, hnone, List.append_nil]
    rfl
  refine ⟨?_, fun w hw fault hf => ?_, fun fault hf => ?_⟩
  · rw [hload]
    refine ⟨fun state hs => absurd hs List.not_mem_nil, fun q hq => absurd hq List.not_mem_nil,
      fun x hx => ?_, fun k => ?_⟩
    · obtain ⟨a, ha, rfl⟩ := List.mem_map.1 hx
      exact ⟨⟨Roster.mem_insert.2 (Or.inl rfl), hinitial⟩, ha⟩
    · have hdues : total (dues k) (opening initial) = 0 := total_opening (fun _ _ => rfl) initial
      have hclosings : total (closings k) (opening initial) = 0 :=
        total_opening (fun _ _ => rfl) initial
      have hpending : (start s initial n).exploration.pending.get? k = none := Table.get?_empty k
      rw [TidyAt, dueAt, hdues, hclosings, hpending, total_openings_opening]
      refine ⟨by split <;> omega, fun hs => ⟨if_neg fun hk => hs ?_, rfl⟩, fun _ => ⟨rfl, rfl⟩,
        by simp, by simp⟩
      rw [← hk.1]
      exact mem_states_start.2 rfl
  · rw [(List.mem_replicate.1 hw).2] at hf
    simp [Stage.fault?] at hf
  · simp [start] at hf

/-- **One step** keeps the books in order. -/
theorem Safe.step (h : Safe s c) (hcount : Counted events c) (hstep : Step s c more c') :
    Safe s c' := by
  obtain ⟨horderly, hworker, hlead⟩ := h
  cases hstep with
  | @explore sh workers e chore chores rest hp =>
    refine ⟨?_, hworker, by simp⟩
    have hperformed : Orderly s.toSetting _ e
        (chores ++ (rest ++ workers.flatMap fun w => w.stage.load)) :=
      horderly.perform (fun hc => hcount.open_of_exploring hc rfl) hp
    rw [← List.append_assoc] at hperformed
    exact hperformed.mono fun hc => ⟨by simp, hc.2⟩
  | @fault sh workers chore rest fault hp =>
    refine ⟨horderly.lose (fun hc => hc.1 fault rfl) (List.sublist_append_right _ _), hworker, ?_⟩
    rintro fault' ⟨⟩
    exact not_isInternal_of_tooWide (horderly.fails hp)
  | @hire sh workers =>
    have hitems := sh.exploration.queue.items_closeIfIdle
    exact ⟨(horderly.setQueue hitems).mono fun hc => ⟨by simp, hc.2⟩, hworker, by simp⟩
  | @work sh sh' before after w w' lead acts hhired hmove =>
    have hw : w ∈ before ++ w :: after := List.mem_append_right _ List.mem_cons_self
    have hw' : w' ∈ before ++ w' :: after := List.mem_append_right _ List.mem_cons_self
    -- what the others have left to do is a frame around the move
    have hperm := horderly.perm (load_perm sh before after w lead)
    refine ⟨?_, fun x hx => ?_, hlead⟩
    · refine Orderly.perm ?_ (load_perm sh' before after w' lead).symm
      exact hmove.orderly (fun hc => ⟨hc.1, hmove.all_calm hc.2⟩) (fun hc => hc.2 w' hw')
        (fun hc hjob => (hcount.open_of_job hc hw hjob).1) hperm
    · simp only [List.mem_append, List.mem_cons] at hx hworker
      rcases hx with hx | rfl | hx
      · exact hworker x (Or.inl hx)
      · exact hmove.not_isInternal hperm (hworker w (Or.inr (Or.inl rfl)))
      · exact hworker x (Or.inr (Or.inr hx))
  | stop => exact ⟨horderly, hworker, hlead⟩
  | join hw => exact ⟨horderly.mono fun hc => ⟨by simp, hc.2⟩, hworker, by simp⟩
  | bury hw => exact ⟨horderly.mono fun hc => ⟨by simp, hc.2⟩, hworker, by simp⟩
  | @abort sh workers n =>
    have hwrong := hcount.aborted (hcount.aborting n rfl)
    exact ⟨horderly.abort fun hc => hwrong hc.2, hworker, by simp⟩

/-- The books are in order after every run. -/
theorem Run.safe {n : Nat} (hinitial : ∀ a ∈ initial, a ∈ s.set.actions)
    (h : Run s (start s initial n) events c) : Safe s c := by
  induction h with
  | refl => exact safe_start hinitial n
  | snoc hrun hstep ih => exact ih.step hrun.counted hstep

/-- In order, a crew finds all states with outcomes visited. -/
theorem Safe.unvisited?_eq (h : Safe s c) : c.exploration.log.unvisited? = none := by
  rw [ResultLog.unvisited?, List.find?_eq_none]
  intro state hs
  simpa using h.orderly.filed state hs

theorem exists_of_firstFault? {fault : ConstructionFault} (h : c.firstFault? = some fault) :
    ∃ (i : Nat) (w : Worker), c.workers[i]? = some w ∧ w.fault? i = some fault := by
  obtain ⟨x, hx, hf⟩ := List.exists_of_findSome?_eq_some h
  exact ⟨x.2, x.1, List.mem_zipIdx_iff_getElem?.1 hx, hf⟩

/-- The fault of a crew is never internal. -/
theorem Safe.result (h : Safe s c) {fault : ConstructionFault} (hr : c.result = .error fault) :
    ¬ fault.IsInternal := by
  unfold Crew.result at hr
  rw [h.unvisited?_eq] at hr
  split at hr
  · next fault' hlead =>
    obtain rfl := Except.error.inj hr
    exact h.lead _ hlead
  · split at hr
    · next fault' hf =>
      obtain rfl := Except.error.inj hr
      obtain ⟨i, w, hw, hfault⟩ := exists_of_firstFault? hf
      have hmem := List.mem_of_getElem? hw
      unfold Worker.fault? at hfault
      split at hfault
      · next fault? hstage => exact h.worker w hmem _ (by rw [hstage]; exact hfault)
      · exact (Option.some.inj hfault) ▸ id
      · simp at hfault
    · split at hr
      · obtain rfl := Except.error.inj hr
        exact id
      · simp at hr

/-- **No internal fault.**  However many workers there are, however their steps interleave, and
whatever the verifier replies: exploring the initial state, the workers and the whole crew never fail
with a query that makes no sense, a necessity answer that nobody waits for or an outcome of a state that
was never visited.  All states that the log holds outcomes of are visited, at any moment. -/
theorem Run.no_internal_fault {n : Nat} (hinitial : ∀ a ∈ initial, a ∈ s.set.actions)
    (h : Run s (start s initial n) events c) :
    (∀ fault, c.lead = .failed fault → ¬ fault.IsInternal) ∧
    (∀ w ∈ c.workers, ∀ fault, w.stage.fault? = some fault → ¬ fault.IsInternal) ∧
    (∀ fault, c.result = .error fault → ¬ fault.IsInternal) ∧
    ∀ state ∈ c.exploration.log.perState.keys, state ∈ c.exploration.log.visited := by
  have hsafe := h.safe hinitial
  exact ⟨hsafe.lead, hsafe.worker, fun _ => hsafe.result, hsafe.orderly.filed⟩

/-- Two workers that take turns meet no internal fault on their way to the automaton of the lamp, and none
when the verifier fails on one of their queries. -/
theorem no_internal_fault_lamp :
    (∃ events c, Run lampSetup (start lampSetup lampOff 2) events c ∧
      [some 0, some 1, some 0, some 1].Sublist (askersIn events) ∧ c.result.isOk = true ∧
      (∀ w ∈ c.workers, ∀ fault, w.stage.fault? = some fault → ¬ fault.IsInternal) ∧
      ∀ state ∈ c.exploration.log.perState.keys, state ∈ c.exploration.log.visited) ∧
    ∃ events c, Run lampFault (start lampFault lampOff 2) events c ∧
      [some 0, some 1, some 0, some 1].Sublist (askersIn events) ∧ failuresIn events ≠ [] ∧
      ∀ fault, c.result = .error fault → ¬ fault.IsInternal := by
  constructor
  · obtain ⟨events, c, hrun, haskers, -, hok⟩ := exists_run_lamp
    obtain ⟨-, hworkers, -, hfiled⟩ := Run.no_internal_fault mem_actions_of_mem_lampOff hrun
    exact ⟨events, c, hrun, haskers, hok, hworkers, hfiled⟩
  · obtain ⟨events, c, hrun, haskers, -, -, hfails⟩ := exists_run_lampFault
    obtain ⟨-, -, hresult, -⟩ := Run.no_internal_fault mem_actions_of_mem_lampOff hrun
    exact ⟨events, c, hrun, haskers, hfails, hresult⟩

end Crew

end Enabledness
