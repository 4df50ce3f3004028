import Enabledness.Proofs.Exploring

/-!
# What the automaton and the log say

Three facts about an exploration that hold between any two questions, besides its books.

* `Truthful` : each answer in the log is what the verifier said about that query or, for a necessity
  query about one state, a YES that it said about the global one.
* `Filed` : the log has visited the states of the automaton, and holds nothing about other states.
* `Charted` : all states of the automaton are reached from the initial one along its transitions, and
  there is one transition for each transition query that was answered YES or MAYBE.

Copying global outcomes keeps all three.
-/

namespace Enabledness

open Std

/-! ## Truthful logs -/

/-- An answer is what the verifier said about a query, or a YES that it said about the global query
with the same main action, tested action and polarity. -/
def Backed (said : Query → Verdict → Prop) (q : Query) (answer : Answer) : Prop :=
  (∃ v, said q v ∧ answer = q.answer v) ∨
  ∃ (p : Polarity) (t : Action) (g : Query) (v : Verdict), q.kind = .necessity p .atSource t ∧
    answer = .yes ∧ g.main = q.main ∧ g.kind = .necessity p .global t ∧ said g v ∧ g.answer v = .yes

/-- All answers in a log are backed by the verifier. -/
def Truthful (said : Query → Verdict → Prop) (l : ResultLog) : Prop :=
  ∀ (q : Query) (answer : Answer), l.answer? q.source q.main q.kind = some answer →
    Backed said q answer

/-- A query that takes no global answer has the answer that the verifier gave. -/
theorem Backed.of_not_atSource {said : Query → Verdict → Prop} {q : Query} {answer : Answer}
    (h : Backed said q answer) (hq : ∀ p t, q.kind ≠ .necessity p .atSource t) :
    ∃ v, said q v ∧ answer = q.answer v := by
  rcases h with h | ⟨p, t, -, -, hk, -⟩
  · exact h
  · exact absurd hk (hq p t)

/-- The global query about a main and a tested action. -/
def globalQuery (main tested : Action) (p : Polarity) (h : tested ≠ main) : Query where
  source := SortedSet.empty.insert main
  main := main
  kind := .necessity p .global tested
  faultless := by
    have hmem : main ∈ (SortedSet.empty.insert main : State) := SortedSet.mem_insert.2 (Or.inl rfl)
    have hsingle : State.single? (SortedSet.empty.insert main) = some main := rfl
    simp [queryFault?, hmem, h, hsingle]

theorem Truthful.store {said : Query → Verdict → Prop} {l : ResultLog} (h : Truthful said l)
    {q : Query} {o : Outcome} (ho : Backed said q o.answer) : Truthful said (l.store q o) := by
  intro q' answer ha
  rw [ResultLog.answer?_store_query] at ha
  split at ha
  · next heq =>
    subst heq
    rwa [← Option.some.inj ha]
  · exact h q' answer ha

theorem Truthful.copied {said : Query → Verdict → Prop} {source : State} {l l' : ResultLog}
    (h : Truthful said l) (hc : Exploration.Copied source l l') : Truthful said l' := by
  induction hc with
  | refl l => exact h
  | @copy l l' q p t o hs hk hg hy _ ih =>
    refine ih (h.store (Or.inr ?_))
    -- the copied outcome answers the global query, which takes no copies itself
    let g := globalQuery q.main t p (Query.tested_ne_main hk)
    have hanswer : l.answer? g.source g.main g.kind = some .yes := by
      show (l.outcome? g.source q.main (.necessity p .global t)).map Outcome.answer = some .yes
      rw [ResultLog.outcome?_global, hg, ← hy]
      rfl
    obtain ⟨v, hv, hyes⟩ := (h g .yes hanswer).of_not_atSource fun p' t' => by
      simp [g, globalQuery]
    exact ⟨p, t, g, v, hk, hy, rfl, rfl, hv, hyes.symm⟩

/-! ## Filed logs -/

/-- All states that a log holds outcomes of were visited. -/
def Filed (l : ResultLog) : Prop := ∀ s ∈ l.perState.keys, s ∈ l.visited

theorem mem_keys_alter {κ β : Type} [Ord κ] [TransOrd κ] [LawfulEqOrd κ] [DecidableEq κ]
    {t : Table κ β} {k x : κ} {start : β} {f : β → β} :
    x ∈ (t.alter k start f).keys ↔ x = k ∨ x ∈ t.keys := by
  rw [Table.alter, Table.keys_insert]
  by_cases h : k ∈ t.keys
  · rw [if_pos h]
    exact ⟨Or.inr, fun hx => hx.elim (fun heq => heq ▸ h) id⟩
  · rw [if_neg h, List.mem_append, List.mem_singleton, or_comm]

theorem visited_store (l : ResultLog) (q : Query) (o : Outcome) :
    (l.store q o).visited = l.visited := by
  unfold ResultLog.store
  split <;> rfl

theorem Filed.store {l : ResultLog} (h : Filed l) {q : Query} (o : Outcome)
    (hq : q.source ∈ l.visited) : Filed (l.store q o) := by
  intro s hs
  rw [visited_store]
  unfold ResultLog.store at hs
  split at hs
  · exact h s hs
  · rcases mem_keys_alter.1 hs with rfl | hs
    · exact hq
    · exact h s hs

theorem Filed.recordEnqueued {l : ResultLog} (h : Filed l) {t : Transition}
    (ht : t.source ∈ l.visited) : Filed (l.recordEnqueued t) := by
  intro s hs
  show s ∈ l.visited.insert t.target
  rw [Roster.mem_insert]
  rcases mem_keys_alter.1 hs with hs | hs
  · exact Or.inl hs
  · rcases mem_keys_alter.1 hs with rfl | hs
    · exact Or.inr ht
    · exact Or.inr (h s hs)

/-- Copying outcomes to queries of a visited state visits nothing else. -/
theorem Filed.copied {source : State} {l l' : ResultLog} (h : Filed l)
    (hc : Exploration.Copied source l l') (hs : source ∈ l.visited) :
    Filed l' ∧ l'.visited = l.visited := by
  induction hc with
  | refl l => exact ⟨h, rfl⟩
  | @copy l l' q p t o hq hk hg hy _ ih =>
    have hvisited := visited_store l q o
    obtain ⟨hf, hv⟩ := ih (h.store o (hq ▸ hs)) (hvisited ▸ hs)
    exact ⟨hf, hv.trans hvisited⟩

/-! ## Charts -/

/-- The states that are reached from the initial one along the transitions. -/
inductive Automaton.Reaches (a : Automaton) : State → Prop
  /-- The initial state is reached. -/
  | initial : Reaches a a.initial
  /-- A transition leads on. -/
  | step {t : Transition} : t ∈ a.transitions → Reaches a t.source → Reaches a t.target

theorem Automaton.mem_transitions_addTransition {a : Automaton} {t t' : Transition} :
    t' ∈ (a.addTransition t).transitions ↔ t' = t ∨ t' ∈ a.transitions := by
  rw [transitions_addTransition, List.mem_append, List.mem_singleton, or_comm]

section AddTransition

variable {a : Automaton} {t : Transition} (hs : t.source ∈ a.states)

include hs

/-- A transition from a known state adds its target. -/
theorem Automaton.mem_states_addTransition_iff {state : State} :
    state ∈ (a.addTransition t).states ↔ state = t.target ∨ state ∈ a.states := by
  rw [mem_states_addTransition]
  constructor
  · rintro (hm | rfl | hm)
    · exact Or.inl hm
    · exact Or.inr hs
    · exact Or.inr hm
  · rintro (hm | hm)
    · exact Or.inl hm
    · exact Or.inr (Or.inr hm)

/-- A transition from a known state is a discovery if its target is not known. -/
theorem Automaton.isDiscovery_iff : a.isDiscovery t = true ↔ t.target ∉ a.states := by
  rw [isDiscovery, decide_eq_true_iff, Roster.mem_insert, not_or]
  exact ⟨And.right, fun hnew => ⟨fun heq => hnew (heq ▸ hs), hnew⟩⟩

end AddTransition

/-- What is reached stays reached. -/
theorem Automaton.Reaches.addTransition {a : Automaton} {s : State} (h : a.Reaches s)
    (t : Transition) : (a.addTransition t).Reaches s := by
  induction h with
  | initial => exact .initial
  | step ht _ ih => exact .step (mem_transitions_addTransition.2 (Or.inr ht)) ih

namespace Exploration

/-- What the log says about the existence of a transition, under a completion. -/
def existenceIn? (l : ResultLog) (c : Completion) (source : State) (main : Action)
    (target : State) : Option Existence :=
  (l.answer? source main (.transition c target)).bind existence?

/-- The automaton is what the log says: see the fields. -/
structure Charted (s : Setting) (initial : State) (a : Automaton) (l : ResultLog) : Prop where
  /-- The exploration started from the initial state. -/
  initial_eq : a.initial = initial
  /-- The initial state is among the states. -/
  initial_mem : initial ∈ a.states
  /-- All states are made of actions of the class. -/
  mem_actions : ∀ state ∈ a.states, ∀ action ∈ state, action ∈ s.set.actions
  /-- All transitions start from a state, with an action of that state. -/
  mem_source : ∀ t ∈ a.transitions, t.source ∈ a.states ∧ t.action ∈ t.source
  /-- All transitions lead to a state. -/
  mem_target : ∀ t ∈ a.transitions, t.target ∈ a.states
  /-- All states are reached. -/
  reaches : ∀ state ∈ a.states, a.Reaches state
  /-- There is one transition for each completion under which the log says that it exists. -/
  count_eq : ∀ t, a.transitions.count t =
    [Completion.normal, .exceptional].countP fun c =>
      existenceIn? l c t.source t.action t.target = some t.existence

/-- The chart does not depend on necessity and invariant answers. -/
theorem Charted.congr {s : Setting} {initial : State} {a : Automaton} {l l' : ResultLog}
    (h : Charted s initial a l)
    (hl : ∀ c source main target,
      existenceIn? l' c source main target = existenceIn? l c source main target) :
    Charted s initial a l' where
  __ := h
  count_eq t := by
    simp only [hl]
    exact h.count_eq t

/-- A store that is not about this transition query says nothing new about it. -/
theorem existenceIn?_store {l : ResultLog} {q : Query} (o : Outcome) {c : Completion}
    {source : State} {main : Action} {target : State}
    (h : ¬ (q.pair = (source, main) ∧ q.kind = .transition c target)) :
    existenceIn? (l.store q o) c source main target = existenceIn? l c source main target := by
  unfold existenceIn? ResultLog.answer?
  rw [ResultLog.outcome?_store, if_neg]
  rintro ⟨hk, hm, hg | hs⟩
  · rw [Query.isGlobal_eq, ← hk] at hg
    simp [QueryKind.isGlobal] at hg
  · exact h ⟨by rw [Query.pair, hs, hm], hk.symm⟩

theorem Copied.existenceIn?_eq {state : State} {l l' : ResultLog} (h : Copied state l l')
    (c : Completion) (source : State) (main : Action) (target : State) :
    existenceIn? l' c source main target = existenceIn? l c source main target := by
  induction h with
  | refl l => rfl
  | copy _ hk _ _ _ ih =>
    rw [ih]
    apply existenceIn?_store
    rintro ⟨-, hk'⟩
    rw [hk] at hk'
    simp at hk'

end Exploration

end Enabledness
