import Mathlib.Logic.Relation
import Enabledness.Proofs.Run

/-!
# Questions in any order

A construction takes one query after the other from its queue, and nothing is said about which.  What
it can come to by one question (`Setup.Proceeds`) and by any number of them (`Setup.Reaches`) holds for
all orders at once.

* `Setup.exists_explore_of_begin`, `Setup.Proceeds.exists_settle` : what the beginning and one question
  consist of.
* `Setup.wellFounded_proceeds` : no order of the questions goes on for ever.
* `Setup.Reaches.inOrder` : whatever is reached is in order.
* `Setup.drain_reaches` : a schedule picks one of the orders, and stops only when it is told to, when
  nothing waits or when a question fails.
* `Setup.exists_reaches_of_constructBy` : the result of a construction is what was reached in the end.
* `Setup.askOldest` : the order of arrival, in a form that can be evaluated.
-/

namespace Enabledness

namespace Setup

/-- The reply to the query at a position of the queue, if there is one. -/
def askAt (s : Setup) (i : Nat) (p : Progress) : Option (Except Failure Progress) :=
  match p.exploration.queue.takeAt i with
  | (.item q, queue) =>
    some (s.ask { p with exploration := { p.exploration with queue := queue } } q)
  | _ => none

/-- One question: some query that waits is asked, and settled. -/
def Proceeds (s : Setup) (p p' : Progress) : Prop := ∃ i, s.askAt i p = some (.ok p')

/-- What a construction can come to, in whatever order its queries are asked. -/
def Reaches (s : Setup) (initial : State) (p : Progress) : Prop :=
  ∃ p₀, s.begin initial = .ok p₀ ∧ Relation.ReflTransGen s.Proceeds p₀ p

variable {s : Setup} {schedule : Schedule} {initial : State} {p p' : Progress}

theorem askAt_eq_some_iff {i : Nat} {r : Except Failure Progress} :
    s.askAt i p = some r ↔ ∃ q queue, p.exploration.queue.takeAt i = (.item q, queue) ∧
      s.ask { p with exploration := { p.exploration with queue := queue } } q = r := by
  unfold askAt
  constructor
  · intro h
    split at h
    · next q queue ht => exact ⟨q, queue, ht, Option.some.inj h⟩
    · simp at h
  · rintro ⟨q, queue, ht, rfl⟩
    rw [ht]

/-- A construction begins with the exploration of its initial state. -/
theorem exists_explore_of_begin (h : s.begin initial = .ok p) : ∃ e,
    (Exploration.start initial).explore s.toSetting initial = .ok e ∧
      p.exploration = { e with queue := e.queue.closeIfIdle } ∧ p.asked = #[] := by
  unfold begin at h
  split at h
  · simp at h
  · next e he =>
    split at h
    · simp at h
    · obtain rfl := Except.ok.inj h
      exact ⟨e, he, rfl, rfl⟩

/-- A query that is asked is noted. -/
theorem asked_of_ask {q : Query} (h : s.ask p q = .ok p') : p'.asked = p.asked.push q := by
  unfold ask at h
  simp only at h
  split at h
  · simp at h
  · simp at h
  · split at h
    · simp at h
    · exact Except.ok.inj h ▸ rfl

/-- A question takes a query out of the queue, notes it and settles it. -/
theorem Proceeds.exists_settle (h : s.Proceeds p p') : ∃ i q run,
    p.exploration.queue.items[i]? = some q ∧
      { p.exploration with queue := { p.exploration.queue with
        items := p.exploration.queue.items.eraseIdx i } }.settle s.toSetting q run =
          .ok p'.exploration ∧ p'.asked = p.asked.push q := by
  obtain ⟨i, hi⟩ := h
  obtain ⟨q, queue, ht, hask⟩ := askAt_eq_some_iff.1 hi
  obtain ⟨hq, rfl⟩ := WorkQueue.takeAt_eq_item_iff.1 ht
  obtain ⟨run, hsettle⟩ := settle_of_ask hask
  have hasked := asked_of_ask hask
  exact ⟨i, q, run, hq, hsettle, hasked⟩

/-- A question lowers the rank of the exploration. -/
theorem Proceeds.rankLt (h : s.Proceeds p p') :
    Exploration.RankLt (p'.exploration.rank s.toSetting) (p.exploration.rank s.toSetting) := by
  obtain ⟨i, hi⟩ := h
  obtain ⟨q, queue, ht, hask⟩ := askAt_eq_some_iff.1 hi
  obtain ⟨run, hsettle⟩ := settle_of_ask hask
  exact Exploration.rank_settle_lt ht hsettle

/-- **No construction goes on for ever**, whatever the order of its questions and wherever it stands. -/
theorem wellFounded_proceeds (s : Setup) : WellFounded fun p' p => s.Proceeds p p' := by
  have hrank : WellFounded Exploration.RankLt := WellFoundedRelation.wf
  exact Subrelation.wf Proceeds.rankLt
    (InvImage.wf (fun p : Progress => p.exploration.rank s.toSetting) hrank)

/-- What holds at the beginning and is kept by each question, holds of all that is reached. -/
theorem Reaches.induction {P : Progress → Prop} (hbegin : ∀ p, s.begin initial = .ok p → P p)
    (hproceeds : ∀ p p', s.Reaches initial p → P p → s.Proceeds p p' → P p')
    (h : s.Reaches initial p) : P p := by
  obtain ⟨p₀, hp₀, hrun⟩ := h
  induction hrun with
  | refl => exact hbegin p₀ hp₀
  | tail hrun hstep ih => exact hproceeds _ _ ⟨p₀, hp₀, hrun⟩ ih hstep

theorem Reaches.trans (h : s.Reaches initial p) (hrun : Relation.ReflTransGen s.Proceeds p p') :
    s.Reaches initial p' := by
  obtain ⟨p₀, hp₀, hrun₀⟩ := h
  exact ⟨p₀, hp₀, hrun₀.trans hrun⟩

/-- **Whatever is reached is in order.** -/
theorem Reaches.inOrder {said : Query → Verdict → Prop} (hgives : s.Gives said)
    (hinitial : ∀ a ∈ initial, a ∈ s.set.actions) (h : s.Reaches initial p) :
    InOrder s said initial p := by
  refine h.induction (fun p hp => ?_) fun p p' _ hinOrder hstep => ?_
  · rcases begin_spec (s := s) said hinitial with ⟨failure, hf, -⟩ | ⟨p', hp', hinOrder⟩
    · rw [hp] at hf
      simp at hf
    · obtain rfl := Except.ok.inj (hp'.symm.trans hp)
      exact hinOrder
  · obtain ⟨i, hi⟩ := hstep
    obtain ⟨q, queue, ht, hask⟩ := askAt_eq_some_iff.1 hi
    rcases ask_spec hgives hinOrder ht with ⟨failure, hf, -⟩ | ⟨p₁, hp₁, hinOrder'⟩
    · rw [hask] at hf
      simp at hf
    · obtain rfl := Except.ok.inj (hp₁.symm.trans hask)
      exact hinOrder'

/-- **A schedule picks an order.**  Draining a construction asks queries until it is stopped, none is
left or one fails, and gives what was reached, or the failure. -/
theorem drain_reaches (s : Setup) (schedule : Schedule) (p : Progress) :
    (∃ p', s.drain schedule p = .ok p' ∧ Relation.ReflTransGen s.Proceeds p p' ∧
      (s.isStopped p'.asked.size = true ∨ p'.exploration.queue.items = [])) ∨
    ∃ p' i failure, s.drain schedule p = .error failure ∧ Relation.ReflTransGen s.Proceeds p p' ∧
      s.askAt i p' = some (.error failure) := by
  -- the induction follows the run: it is stopped, asks and goes on, fails, or finds no query
  induction p using drain.induct s schedule with
  | case1 p hstop =>
    rw [drain, if_pos hstop]
    exact Or.inl ⟨p, rfl, .refl, Or.inl hstop⟩
  | case2 p hstop q queue ht p' hask ih =>
    have hstep : s.Proceeds p p' := ⟨_, askAt_eq_some_iff.2 ⟨q, queue, ht, hask⟩⟩
    rw [drain_of_item hstop ht, show s.ask _ q = .ok p' from hask]
    rcases ih with ⟨p₁, hp₁, hrun, hend⟩ | ⟨p₁, i, failure, hf, hrun, hfails⟩
    · exact Or.inl ⟨p₁, hp₁, .head hstep hrun, hend⟩
    · exact Or.inr ⟨p₁, i, failure, hf, .head hstep hrun, hfails⟩
  | case3 p hstop q queue ht failure hask =>
    rw [drain_of_item hstop ht, show s.ask _ q = .error failure from hask]
    exact Or.inr ⟨p, _, failure, rfl, .refl, askAt_eq_some_iff.2 ⟨q, queue, ht, hask⟩⟩
  | case4 p hstop hno =>
    refine Or.inl ⟨p, drain_of_no_item hstop hno, .refl, Or.inr ?_⟩
    apply items_eq_nil_of_position schedule
    cases hi : p.exploration.queue.items[position schedule p]? with
    | none => rfl
    | some q => exact absurd (WorkQueue.takeAt_eq_item_iff.2 ⟨hi, rfl⟩) (hno q _)

/-- A construction that gives a result has reached its end. -/
theorem exists_reaches_of_constructBy {said : Query → Verdict → Prop} {r : Construction}
    (hgives : s.Gives said) (hinitial : ∀ a ∈ initial, a ∈ s.set.actions)
    (h : s.constructBy schedule initial = .ok r) :
    ∃ p, s.Reaches initial p ∧ Finished s said initial p r := by
  unfold constructBy at h
  cases hbegin : s.begin initial with
  | error failure => simp [hbegin, bind, Except.bind] at h
  | ok p₀ =>
    rw [hbegin] at h
    have h : (s.drain schedule p₀ >>= finish) = .ok r := h
    rcases s.drain_reaches schedule p₀ with ⟨p, hp, hrun, -⟩ | ⟨_, _, failure, hf, -, -⟩
    · have hreaches : s.Reaches initial p := ⟨p₀, hbegin, hrun⟩
      rw [hp] at h
      rcases finish_spec (hreaches.inOrder hgives hinitial) with ⟨failure, hf, -⟩ | ⟨r', hr', hfinished⟩
      · rw [show finish p = .ok r from h] at hf
        simp at hf
      · obtain rfl := Except.ok.inj (hr'.symm.trans h)
        exact ⟨p, hreaches, hfinished⟩
    · rw [hf] at h
      simp [bind, Except.bind] at h

/-! ## The oldest queries first -/

theorem exists_begin_of_any {f : Progress → Bool} (h : (s.begin initial).toOption.any f = true) :
    ∃ p, s.begin initial = .ok p ∧ f p = true := by
  cases hbegin : s.begin initial with
  | error failure => simp [hbegin, Except.toOption] at h
  | ok p =>
    rw [hbegin] at h
    exact ⟨p, rfl, h⟩

/-- Ask the oldest queries, one after the other. -/
def askOldest (s : Setup) : Nat → Progress → Option Progress
  | 0, p => some p
  | n + 1, p =>
    match s.askAt 0 p with
    | some (.ok p') => s.askOldest n p'
    | _ => none

theorem askOldest_succ {n : Nat} (h : s.askOldest (n + 1) p = some p') :
    ∃ p₁, s.askAt 0 p = some (.ok p₁) ∧ s.askOldest n p₁ = some p' := by
  rw [askOldest] at h
  split at h
  · next p₁ hask => exact ⟨p₁, hask, h⟩
  · simp at h

theorem proceeds_of_askOldest {n : Nat} (h : s.askOldest n p = some p') :
    Relation.ReflTransGen s.Proceeds p p' := by
  induction n generalizing p with
  | zero =>
    obtain rfl := Option.some.inj h
    exact .refl
  | succ n ih =>
    obtain ⟨p₁, hask, hrest⟩ := askOldest_succ h
    exact .head ⟨0, hask⟩ (ih hrest)

theorem drain_of_askOldest {n : Nat} (hstop : s.stopAfter = none) (h : s.askOldest n p = some p')
    (hitems : p'.exploration.queue.items = []) : s.drain .fifo p = .ok p' := by
  have hgoes : ∀ k, ¬ s.isStopped k = true := by simp [isStopped, hstop]
  induction n generalizing p with
  | zero =>
    obtain rfl := Option.some.inj h
    refine drain_of_no_item (hgoes _) fun q queue ht => ?_
    have hq := (WorkQueue.takeAt_eq_item_iff.1 ht).1
    simp [hitems] at hq
  | succ n ih =>
    obtain ⟨p₁, hask, hrest⟩ := askOldest_succ h
    obtain ⟨q, queue, ht, hreply⟩ := askAt_eq_some_iff.1 hask
    -- the oldest query is the one that comes next
    have hposition : position .fifo p = 0 := by
      have hq := (WorkQueue.takeAt_eq_item_iff.1 ht).1
      unfold position
      cases hl : p.exploration.queue.items with
      | nil => simp [hl] at hq
      | cons q' l => rfl
    rw [drain_of_item (hgoes _) (hposition ▸ ht), hreply]
    exact ih hrest

/-- If no query is left after some questions, the construction has come to its end. -/
theorem exists_constructBy_of_askOldest {said : Query → Verdict → Prop} {n : Nat}
    (hgives : s.Gives said) (hinitial : ∀ a ∈ initial, a ∈ s.set.actions) (hstop : s.stopAfter = none)
    (hbegin : s.begin initial = .ok p) (h : s.askOldest n p = some p')
    (hitems : p'.exploration.queue.items = []) :
    ∃ r, s.constructBy .fifo initial = .ok r ∧ Finished s said initial p' r := by
  have hreaches : s.Reaches initial p' := ⟨p, hbegin, proceeds_of_askOldest h⟩
  rcases finish_spec (hreaches.inOrder hgives hinitial) with ⟨_, -, hwaits⟩ | ⟨r, hr, hfinished⟩
  · exact absurd hitems hwaits
  · refine ⟨r, ?_, hfinished⟩
    show (s.begin initial >>= fun p => s.drain .fifo p >>= finish) = .ok r
    rw [hbegin]
    show (s.drain .fifo p >>= finish) = .ok r
    rw [drain_of_askOldest hstop h hitems]
    exact hr

end Setup

end Enabledness
