import Enabledness.ResultLog

/-!
# What a log holds for a question

A question is a source state, a main action and a kind.  `ResultLog.outcome?` reads the slot of a
question, whichever table it stands in.  Seen through it, a log is a partial map from questions to
outcomes:

* `outcome?_store` : storing the outcome of a query writes the slot of that query and no other;
* `outcome?_recordEnqueued`, `outcome?_register` : noting a discovery or a visit writes no slot;
* `reuseGlobal_of_isGlobal`, `reuseGlobal_of_atSource` : what is taken from the global table, and what
  the log holds afterwards.

Slots that no query has can be read too (`ResultLog.slot?`); storing writes one of all slots (`slot?_store`).
-/

namespace Enabledness

/-! ## Queries are told apart by their questions -/

/-- The kind is that of a global necessity query. -/
def QueryKind.isGlobal : QueryKind → Bool
  | .necessity _ .global _ => true
  | _ => false

namespace Query

theorem isGlobal_eq (q : Query) : q.isGlobal = q.kind.isGlobal := by
  unfold isGlobal QueryKind.isGlobal
  cases q.kind <;> rfl

/-- A query is determined by its source, its main action and its kind. -/
theorem ext_of {q q' : Query} (hs : q.source = q'.source) (hm : q.main = q'.main)
    (hk : q.kind = q'.kind) : q = q' := by
  obtain ⟨source, main, kind, h⟩ := q
  obtain ⟨source', main', kind', h'⟩ := q'
  subst hs hm hk
  rfl

/-- A global query starts from the state that enables its main action only. -/
theorem toList_source_of_isGlobal {q : Query} (h : q.isGlobal = true) :
    q.source.toList = [q.main] := by
  have hf := q.faultless
  rw [isGlobal_eq] at h
  unfold queryFault? at hf
  rw [if_neg (fun hm => hm q.main_mem_source)] at hf
  rcases hk : q.kind with c | ⟨c, t⟩ | ⟨p, scope, t⟩
  · simp [hk, QueryKind.isGlobal] at h
  · simp [hk, QueryKind.isGlobal] at h
  · rcases scope with _ | _
    · simp [hk, QueryKind.isGlobal] at h
    · by_cases ht : t = q.main
      · simp [hk, ht] at hf
      · have hs : q.source.single? = some q.main := by
          by_cases hs : q.source.single? = some q.main
          · exact hs
          · simp [hk, ht, hs] at hf
        unfold State.single? at hs
        rcases hl : q.source.toList with _ | ⟨a, _ | ⟨b, l⟩⟩
        · simp [hl] at hs
        · simpa [hl] using hs
        · simp [hl] at hs

/-- Global queries with the same main action start from the same state. -/
theorem source_eq_of_isGlobal {q q' : Query} (h : q.isGlobal = true) (h' : q'.isGlobal = true)
    (hm : q.main = q'.main) : q.source = q'.source := by
  apply SortedSet.ext
  rw [toList_source_of_isGlobal h, toList_source_of_isGlobal h', hm]

end Query

/-! ## The slots of a main action -/

namespace PairLog

/-- What is stored for a kind of question about one main action. -/
def outcome? (p : PairLog) : QueryKind → Option Outcome
  | .invariant completion => p.invariant? completion
  | .transition completion target => (p.transitions completion).get? target
  | .necessity polarity _ tested => (p.necessities polarity).get? tested

@[simp]
theorem outcome?_empty (kind : QueryKind) : ({} : PairLog).outcome? kind = none := by
  rcases kind with (_ | _) | ⟨_ | _, _⟩ | ⟨_ | _, _, _⟩ <;> rfl

/-- Storing an outcome writes the slot of its kind and no other. -/
theorem outcome?_store (p : PairLog) {kind kind' : QueryKind} (o : Outcome)
    (h : kind.isGlobal = kind'.isGlobal) :
    (p.store kind o).outcome? kind' = if kind' = kind then some o else p.outcome? kind' := by
  rcases kind with (_ | _) | ⟨_ | _, t⟩ | ⟨_ | _, _ | _, t⟩ <;>
    rcases kind' with (_ | _) | ⟨_ | _, t'⟩ | ⟨_ | _, _ | _, t'⟩ <;>
    simp_all [QueryKind.isGlobal, outcome?, store, setInvariant, setTransition, setNecessity,
      invariant?, transitions, necessities, Table.get?_insert]

end PairLog

/-! ## The slots of a log -/

namespace ResultLog

/-- What the log holds for a question. -/
def outcome? (l : ResultLog) (source : State) (main : Action) (kind : QueryKind) : Option Outcome :=
  if kind.isGlobal then (l.global.get? main).bind (·.outcome? kind)
  else (l.pair? source main).bind (·.outcome? kind)

/-- The answer that the log holds for a question. -/
def answer? (l : ResultLog) (source : State) (main : Action) (kind : QueryKind) : Option Answer :=
  (l.outcome? source main kind).map Outcome.answer

/-- The log holds nothing. -/
theorem outcome?_empty (source : State) (main : Action) (kind : QueryKind) :
    ({} : ResultLog).outcome? source main kind = none := by
  unfold outcome?
  split <;> rfl

/-- What is known about a main action after a change. -/
theorem pair?_alterPair (l : ResultLog) (s s' : State) (a a' : Action) (f : PairLog → PairLog) :
    (l.alterPair s a f).pair? s' a' =
      if s' = s ∧ a' = a then some (f ((l.pair? s a).getD {})) else l.pair? s' a' := by
  unfold pair? alterPair
  simp only [Table.get?_alter, bind, Option.bind]
  by_cases hs : s' = s
  · subst hs
    by_cases ha : a' = a
    · subst ha
      cases l.perState.get? s' <;> simp [Table.get?_alter]
    · cases l.perState.get? s' <;> simp [Table.get?_alter, ha]
  · simp [hs]

/-- **A store writes one slot.**  The slot of a global query is found without its source. -/
theorem outcome?_store (l : ResultLog) (q : Query) (o : Outcome) (source : State) (main : Action)
    (kind : QueryKind) :
    (l.store q o).outcome? source main kind =
      if kind = q.kind ∧ main = q.main ∧ (q.isGlobal = true ∨ source = q.source) then some o
      else l.outcome? source main kind := by
  -- a slot of the global table is never one of a state
  have apart : ∀ {b : Bool}, q.kind.isGlobal = b → kind.isGlobal = !b → kind ≠ q.kind := by
    intro b hq hk heq
    rw [heq, hq] at hk
    cases b <;> simp at hk
  unfold store outcome?
  rw [Query.isGlobal_eq]
  by_cases hq : q.kind.isGlobal = true
  · by_cases hk : kind.isGlobal = true
    · -- both in the global table
      simp only [hq, hk, if_true, Table.get?_alter, true_or, and_true]
      by_cases hm : main = q.main
      · subst hm
        simp only [if_true, Option.bind_some, and_true]
        rw [PairLog.outcome?_store _ _ (hq.trans hk.symm)]
        cases l.global.get? q.main <;> simp
      · simp [hm]
    · have hne := apart hq (by simpa using hk)
      simp [hq, hk, hne, pair?]
  · by_cases hk : kind.isGlobal = true
    · have hne := apart (Bool.eq_false_iff.2 hq) (by simpa using hk)
      simp [hq, hk, hne, alterPair]
    · -- both under a state and a main action
      simp only [hq, hk, Bool.false_eq_true, if_false, pair?_alterPair, false_or]
      by_cases hm : source = q.source ∧ main = q.main
      · obtain ⟨rfl, rfl⟩ := hm
        have hg : q.kind.isGlobal = kind.isGlobal := by
          rw [Bool.eq_false_iff.2 hq, Bool.eq_false_iff.2 hk]
        simp only [and_self, if_true, Option.bind_some, and_true]
        rw [PairLog.outcome?_store _ _ hg]
        cases l.pair? q.source q.main <;> simp
      · rw [if_neg hm, if_neg fun h => hm ⟨h.2.2, h.2.1⟩]

/-- Among queries, a store changes what is held for the query stored and for no other. -/
theorem outcome?_store_query (l : ResultLog) (q : Query) (o : Outcome) (q' : Query) :
    (l.store q o).outcome? q'.source q'.main q'.kind =
      if q' = q then some o else l.outcome? q'.source q'.main q'.kind := by
  rw [outcome?_store]
  by_cases h : q' = q
  · subst h
    simp
  · rw [if_neg h, if_neg]
    rintro ⟨hk, hm, hs⟩
    refine h (Query.ext_of ?_ hm hk)
    rcases hs with hg | hs
    · refine Query.source_eq_of_isGlobal ?_ hg hm
      rw [Query.isGlobal_eq, hk, ← Query.isGlobal_eq, hg]
    · exact hs

theorem answer?_store_query (l : ResultLog) (q : Query) (o : Outcome) (q' : Query) :
    (l.store q o).answer? q'.source q'.main q'.kind =
      if q' = q then some o.answer else l.answer? q'.source q'.main q'.kind := by
  unfold answer?
  rw [outcome?_store_query]
  split <;> rfl

/-- A discovery writes no slot. -/
theorem outcome?_recordEnqueued (l : ResultLog) (t : Transition) (source : State) (main : Action)
    (kind : QueryKind) :
    (l.recordEnqueued t).outcome? source main kind = l.outcome? source main kind := by
  have hpair : ∀ f : PairLog → PairLog, (∀ p k, (f p).outcome? k = p.outcome? k) →
      ((l.alterPair t.source t.action f).pair? source main).bind (·.outcome? kind) =
        (l.pair? source main).bind (·.outcome? kind) := by
    intro f hf
    rw [pair?_alterPair]
    by_cases h : source = t.source ∧ main = t.action
    · rw [if_pos h, Option.bind_some, hf, ← h.1, ← h.2]
      cases l.pair? source main <;> simp
    · rw [if_neg h]
  -- the target gets an empty table, which reads as no table
  have htouch : ∀ l' : ResultLog, ({ l' with
      perState := l'.perState.alter t.target .empty id } : ResultLog).pair? source main =
        l'.pair? source main := by
    intro l'
    unfold pair?
    simp only [Table.get?_alter]
    by_cases h : source = t.target
    · subst h
      cases l'.perState.get? t.target <;> simp
    · simp [h]
  unfold outcome? recordEnqueued
  by_cases hk : kind.isGlobal = true
  · simp [hk, alterPair, register]
  · simp only [hk, Bool.false_eq_true, if_false, htouch]
    exact hpair _ fun p k => by
      rcases k with (_ | _) | ⟨_ | _, _⟩ | ⟨_ | _, _, _⟩ <;> rfl

/-! ## Reuse of global answers -/

/-- The slot of a global question is that of the global table. -/
theorem outcome?_global (l : ResultLog) (source : State) (main tested : Action) (p : Polarity) :
    l.outcome? source main (.necessity p .global tested) = l.globalOutcome? main tested p := by
  unfold outcome? globalOutcome?
  simp only [QueryKind.isGlobal, if_true]
  cases l.global.get? main <;> rfl

/-- A global query takes what the log holds for it. -/
theorem reuseGlobal_of_isGlobal (l : ResultLog) {q : Query} (h : q.isGlobal = true) :
    l.reuseGlobal q = (l.answer? q.source q.main q.kind, l) := by
  rw [Query.isGlobal_eq] at h
  unfold reuseGlobal answer?
  rcases hk : q.kind with c | ⟨c, t⟩ | ⟨p, _ | _, t⟩
  · simp [hk, QueryKind.isGlobal] at h
  · simp [hk, QueryKind.isGlobal] at h
  · simp [hk, QueryKind.isGlobal] at h
  · rw [outcome?_global]
    cases ho : l.globalOutcome? q.main t p <;> simp [ho]

/-- A query about one state takes a global YES and copies its outcome; it takes nothing else. -/
theorem reuseGlobal_of_atSource (l : ResultLog) {q : Query} {p : Polarity} {t : Action}
    (hk : q.kind = .necessity p .atSource t) :
    (∃ o, l.globalOutcome? q.main t p = some o ∧ o.answer = .yes ∧
      l.reuseGlobal q = (some .yes, l.store q o)) ∨
    (l.globalAnswer? q.main t p ≠ some .yes ∧ l.reuseGlobal q = (none, l)) := by
  unfold reuseGlobal globalAnswer?
  simp only [hk]
  cases ho : l.globalOutcome? q.main t p with
  | none => exact Or.inr ⟨by simp, rfl⟩
  | some o =>
    by_cases hy : o.answer = .yes
    · exact Or.inl ⟨o, rfl, hy, by simp [hy]⟩
    · exact Or.inr ⟨by simpa using hy, by simp [hy]⟩

end ResultLog

/-! ## All slots -/

/-- The kind without its scope, which the slots of a main action do not tell apart. -/
def QueryKind.unscoped : QueryKind → QueryKind
  | .necessity polarity _ tested => .necessity polarity .atSource tested
  | kind => kind

theorem QueryKind.unscoped_of_not_isGlobal {kind : QueryKind} (h : kind.isGlobal = false) :
    kind.unscoped = kind := by
  rcases kind with c | ⟨c, t⟩ | ⟨p, _ | _, t⟩
  · rfl
  · rfl
  · rfl
  · simp [isGlobal] at h

theorem PairLog.outcome?_unscoped (p : PairLog) (kind : QueryKind) :
    p.outcome? kind.unscoped = p.outcome? kind := by
  cases kind with
  | _ => rfl

/-- Storing an outcome writes one slot. -/
theorem PairLog.outcome?_store_unscoped (p : PairLog) (kind kind' : QueryKind) (o : Outcome) :
    (p.store kind o).outcome? kind' =
      if kind'.unscoped = kind.unscoped then some o else p.outcome? kind' := by
  have hstore : p.store kind o = p.store kind.unscoped o := by
    cases kind with
    | _ => rfl
  have hglobal : ∀ k : QueryKind, k.unscoped.isGlobal = false := by
    intro k
    cases k with
    | _ => rfl
  rw [hstore, ← outcome?_unscoped _ kind', outcome?_store p o ((hglobal kind).trans (hglobal kind').symm),
    outcome?_unscoped]

/-- The state that the outcome of a query is filed under; none for the global table. -/
def Query.place? (q : Query) : Option State := if q.isGlobal then none else some q.source

namespace ResultLog

/-- What stands in a slot, of the global table or under a state. -/
def slot? (l : ResultLog) (place? : Option State) (main : Action) (kind : QueryKind) :
    Option Outcome :=
  match place? with
  | none => (l.global.get? main).bind (·.outcome? kind)
  | some source => (l.pair? source main).bind (·.outcome? kind)

theorem slot?_unscoped (l : ResultLog) (place? : Option State) (main : Action) (kind : QueryKind) :
    l.slot? place? main kind.unscoped = l.slot? place? main kind := by
  unfold slot?
  cases place? with
  | _ => simp only [PairLog.outcome?_unscoped]

/-- The slot of a query. -/
theorem slot?_place? (l : ResultLog) (q : Query) :
    l.slot? q.place? q.main q.kind = l.outcome? q.source q.main q.kind := by
  unfold Query.place? outcome? slot?
  rw [Query.isGlobal_eq]
  by_cases hq : q.kind.isGlobal = true
  · simp [hq]
  · simp [hq]

theorem slot?_eq_outcome? (l : ResultLog) {q : Query} {place? : Option State} {main : Action}
    {kind : QueryKind} (hplace : q.place? = place?) (hmain : q.main = main)
    (hkind : q.kind.unscoped = kind.unscoped) :
    l.slot? place? main kind = l.outcome? q.source q.main q.kind := by
  rw [← slot?_unscoped, ← hplace, ← hmain, ← hkind, slot?_unscoped, slot?_place?]

/-- The slots under a state are the slots of questions that are not global. -/
theorem slot?_some (l : ResultLog) (source : State) (main : Action) (kind : QueryKind) :
    l.slot? (some source) main kind = l.outcome? source main kind.unscoped := by
  have hglobal : kind.unscoped.isGlobal = false := by
    cases kind with
    | _ => rfl
  rw [← slot?_unscoped, slot?, outcome?, if_neg (by simp [hglobal])]

/-- **A store writes one slot of all.** -/
theorem slot?_store (l : ResultLog) (q : Query) (o : Outcome) (place? : Option State) (main : Action)
    (kind : QueryKind) :
    (l.store q o).slot? place? main kind =
      if place? = q.place? ∧ main = q.main ∧ kind.unscoped = q.kind.unscoped then some o
      else l.slot? place? main kind := by
  cases place? with
  | none =>
    unfold slot? store Query.place?
    by_cases hq : q.isGlobal = true
    · simp only [hq, if_true, Table.get?_alter, true_and]
      by_cases hm : main = q.main
      · subst hm
        simp only [if_true, Option.bind_some, true_and, PairLog.outcome?_store_unscoped]
        cases l.global.get? q.main with
        | _ => simp
      · simp [hm]
    · simp [hq, alterPair]
  | some source =>
    rw [slot?_some, slot?_some, outcome?_store]
    unfold Query.place?
    by_cases hq : q.isGlobal = true
    · -- a kind without scope is not that of a global query
      have hne : kind.unscoped ≠ q.kind := by
        intro heq
        rw [Query.isGlobal_eq, ← heq] at hq
        cases kind with
        | _ => simp [QueryKind.unscoped, QueryKind.isGlobal] at hq
      simp [hq, hne]
    · have hkind : q.kind.unscoped = q.kind := by
        apply QueryKind.unscoped_of_not_isGlobal
        rw [← Query.isGlobal_eq]
        simpa using hq
      have hswap : (kind.unscoped = q.kind ∧ main = q.main ∧ source = q.source) ↔
          source = q.source ∧ main = q.main ∧ kind.unscoped = q.kind := by
        constructor
        · rintro ⟨hk, hm, hs⟩
          exact ⟨hs, hm, hk⟩
        · rintro ⟨hs, hm, hk⟩
          exact ⟨hk, hm, hs⟩
      simp only [hq, hkind, hswap, Bool.false_eq_true, if_false, false_or, Option.some.injEq]

/-- A discovery writes no slot at all. -/
theorem slot?_recordEnqueued (l : ResultLog) (t : Transition) (place? : Option State) (main : Action)
    (kind : QueryKind) :
    (l.recordEnqueued t).slot? place? main kind = l.slot? place? main kind := by
  cases place? with
  | none => rfl
  | some source => rw [slot?_some, slot?_some, outcome?_recordEnqueued]

end ResultLog

end Enabledness
