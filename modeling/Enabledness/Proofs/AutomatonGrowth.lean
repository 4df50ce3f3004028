import Mathlib.Data.List.Induction
import Enabledness.Automaton

/-!
# Automata only grow

An automaton over its whole life: any calls, one after the other, on one that starts with an initial
state only.

* `toList_states_after` : its states are those that the calls register, in order of first occurrence,
  behind the initial state.
* `transitions_after` : its transitions are those that the calls add.
* `only_grows` : what follows for every sequence of calls and for every part of it.
-/

namespace Enabledness

namespace Automaton

/-! ## Calls -/

/-- A call of an automaton. -/
inductive Call where
  /-- Register a state. -/
  | addState (state : State)
  /-- Add a transition. -/
  | addTransition (transition : Transition)
deriving DecidableEq

namespace Call

/-- The automaton after a call. -/
def apply : Call → Automaton → Automaton
  | addState s, a => a.addState s
  | addTransition t, a => a.addTransition t

/-- The states that a call registers, in order. -/
def registers : Call → List State
  | addState s => [s]
  | addTransition t => [t.source, t.target]

/-- The transition that a call adds. -/
def transition? : Call → Option Transition
  | addState _ => none
  | addTransition t => some t

theorem initial_apply (c : Call) (a : Automaton) : (c.apply a).initial = a.initial := by
  cases c with
  | _ => rfl

theorem transitions_apply (c : Call) (a : Automaton) :
    (c.apply a).transitions = a.transitions ++ c.transition?.toList := by
  cases c with
  | addState s => exact (List.append_nil _).symm
  | addTransition t => exact transitions_addTransition a t

/-- A call puts what it registers behind the states that were registered before. -/
theorem toList_states_apply (c : Call) {a : Automaton} {registered : List State}
    (h : a.states.toList = registered.eraseDups) :
    (c.apply a).states.toList = (registered ++ c.registers).eraseDups := by
  cases c with
  | addState s => exact Roster.toList_insert_of_eq_eraseDups h s
  | addTransition t => exact Roster.toList_insertAll_of_eq_eraseDups h [t.source, t.target]

end Call

/-! ## An automaton from its beginning -/

/-- The automaton that starts from a state, after some calls. -/
def after (initial : State) (calls : List Call) : Automaton :=
  calls.foldl (fun a c => c.apply a) (start initial)

/-- The states that some calls register, the initial one first. -/
def registered (initial : State) (calls : List Call) : List State :=
  initial :: calls.flatMap Call.registers

variable (initial : State) (calls : List Call)

theorem after_snoc (c : Call) :
    after initial (calls ++ [c]) = c.apply (after initial calls) := by
  rw [after, List.foldl_append, List.foldl_cons, List.foldl_nil, after]

theorem registered_append (more : List Call) :
    registered initial (calls ++ more) =
      registered initial calls ++ more.flatMap Call.registers := by
  rw [registered, List.flatMap_append, registered, List.cons_append]

theorem initial_after : (after initial calls).initial = initial := by
  induction calls using List.reverseRecOn with
  | nil => rfl
  | append_singleton calls c ih => rw [after_snoc, Call.initial_apply, ih]

/-- The states stand in the order in which the calls name them first. -/
theorem toList_states_after :
    (after initial calls).states.toList = (registered initial calls).eraseDups := by
  induction calls using List.reverseRecOn with
  | nil => exact Roster.toList_singleton initial
  | append_singleton calls c ih =>
    rw [after_snoc, registered_append, List.flatMap_singleton]
    exact c.toList_states_apply ih

/-- The transitions are those that the calls add. -/
theorem transitions_after : (after initial calls).transitions = calls.filterMap Call.transition? := by
  induction calls using List.reverseRecOn with
  | nil => rfl
  | append_singleton calls c ih =>
    rw [after_snoc, Call.transitions_apply, ih, List.filterMap_append]
    cases c with
    | _ => rfl

/-! ## What was there stays in its place -/

theorem mem_registered {s : State} : s ∈ registered initial calls ↔
    s = initial ∨ Call.addState s ∈ calls ∨
      ∃ t, Call.addTransition t ∈ calls ∧ (s = t.source ∨ s = t.target) := by
  rw [registered, List.mem_cons, List.mem_flatMap]
  refine or_congr_right ⟨?_, ?_⟩
  · rintro ⟨c, hc, hs⟩
    cases c with
    | addState s' => exact Or.inl (List.mem_singleton.1 hs ▸ hc)
    | addTransition t =>
      refine Or.inr ⟨t, hc, ?_⟩
      simpa [Call.registers] using hs
  · rintro (hc | ⟨t, hc, hs⟩)
    · exact ⟨_, hc, List.mem_singleton.2 rfl⟩
    · refine ⟨_, hc, ?_⟩
      simpa [Call.registers] using hs

theorem mem_states_after {s : State} :
    s ∈ (after initial calls).states ↔ s ∈ registered initial calls := by
  rw [← Roster.mem_toList, toList_states_after, List.mem_eraseDups]

theorem mem_transitions_after {t : Transition} :
    t ∈ (after initial calls).transitions ↔ Call.addTransition t ∈ calls := by
  rw [transitions_after, List.mem_filterMap]
  constructor
  · rintro ⟨c, hc, ht⟩
    cases c with
    | addState s => simp [Call.transition?] at ht
    | addTransition t' => exact Option.some.inj ht ▸ hc
  · intro hc
    exact ⟨_, hc, rfl⟩

/-- Both ends of a transition are states. -/
theorem ends_mem_states {t : Transition} (ht : t ∈ (after initial calls).transitions) :
    t.source ∈ (after initial calls).states ∧ t.target ∈ (after initial calls).states := by
  have hc := (mem_transitions_after initial calls).1 ht
  rw [mem_states_after, mem_states_after, mem_registered, mem_registered]
  exact ⟨Or.inr (Or.inr ⟨t, hc, Or.inl rfl⟩), Or.inr (Or.inr ⟨t, hc, Or.inr rfl⟩)⟩

theorem states_grow (more : List Call) :
    (after initial calls).states.toList <+: (after initial (calls ++ more)).states.toList := by
  rw [toList_states_after, toList_states_after, registered_append, List.eraseDups_append]
  exact List.prefix_append _ _

theorem transitions_grow (more : List Call) :
    (after initial calls).transitions <+: (after initial (calls ++ more)).transitions := by
  rw [transitions_after, transitions_after, List.filterMap_append]
  exact List.prefix_append _ _

/-- The initial state comes first. -/
theorem head?_states_after : (after initial calls).states.toList.head? = some initial := by
  rw [toList_states_after, registered, List.eraseDups_cons, List.head?_cons]

/-- A state has those of all transitions that leave it, each as often as it was added. -/
theorem count_transitionsFrom (a : Automaton) (s : State) (t : Transition) :
    (a.transitionsFrom s).count t = if t.source = s then a.transitions.count t else 0 := by
  unfold transitionsFrom
  split
  · next h => exact List.count_filter (decide_eq_true h)
  · next h =>
    refine List.count_eq_zero.2 fun hmem => h ?_
    exact of_decide_eq_true (List.mem_filter.1 hmem).2

/-- **Automata only grow and stay closed.**  After any calls on an automaton that has an initial state
only:

* the states are the initial one and those that the calls registered, each once, in the order in which
  they were named first;
* a state is there only if it is the initial one, was added, or is an end of a transition that was
  added, and all ends of transitions are there;
* the transitions are those that were added, in the order of the calls;
* more calls append to both lists;
* the transitions that leave a state are all those that have it as their source, in the same order. -/
theorem only_grows :
    (after initial calls).states.toList.Nodup ∧
    (after initial calls).states.toList.head? = some initial ∧
    (after initial calls).states.toList = (registered initial calls).eraseDups ∧
    (∀ s, s ∈ (after initial calls).states ↔ s = initial ∨ Call.addState s ∈ calls ∨
      ∃ t, Call.addTransition t ∈ calls ∧ (s = t.source ∨ s = t.target)) ∧
    (∀ t ∈ (after initial calls).transitions,
      t.source ∈ (after initial calls).states ∧ t.target ∈ (after initial calls).states) ∧
    (after initial calls).transitions = calls.filterMap Call.transition? ∧
    (∀ more,
      (after initial calls).states.toList <+: (after initial (calls ++ more)).states.toList ∧
      (after initial calls).transitions <+: (after initial (calls ++ more)).transitions) ∧
    ∀ s,
      ((after initial calls).transitionsFrom s).Sublist (after initial calls).transitions ∧
      ∀ t, ((after initial calls).transitionsFrom s).count t =
        if t.source = s then (after initial calls).transitions.count t else 0 := by
  refine ⟨Roster.nodup _, head?_states_after initial calls, toList_states_after initial calls, ?_, ?_,
    transitions_after initial calls, ?_, ?_⟩
  · intro s
    rw [mem_states_after, mem_registered]
  · intro t ht
    exact ends_mem_states initial calls ht
  · intro more
    exact ⟨states_grow initial calls more, transitions_grow initial calls more⟩
  · intro s
    exact ⟨List.filter_sublist, count_transitionsFrom _ s⟩

/-- The only action of a hatch that can be opened once. -/
def hatchOpen : Action where
  precondition := { qualifiedName := "Hatch#open_pre", returnType := some boolType }
  operation := { qualifiedName := "Hatch#open" }

/-- Opening the hatch leaves nothing to do. -/
def hatchTurn : Transition := ⟨.ofList [hatchOpen], .empty, hatchOpen, .confirmed⟩

/-- The hatch is opened twice, and the state in which nothing can be done is registered between. -/
def hatchCalls : List Call := [.addTransition hatchTurn, .addState .empty, .addTransition hatchTurn]

/-- The automaton of the hatch has two states and a transition that is there twice. -/
theorem only_grows_hatch :
    hatchTurn ∈ (after hatchTurn.source hatchCalls).transitions ∧
      hatchTurn.target ∈ (after hatchTurn.source hatchCalls).states ∧
      (after hatchTurn.source hatchCalls).states.toList = [hatchTurn.source, hatchTurn.target] ∧
      (after hatchTurn.source hatchCalls).transitions = [hatchTurn, hatchTurn] ∧
      ((after hatchTurn.source hatchCalls).transitionsFrom hatchTurn.source).count hatchTurn = 2 := by
  obtain ⟨-, -, hstates, -, hends, htransitions, -, hfrom⟩ :=
    only_grows hatchTurn.source hatchCalls
  have htransitions : (after hatchTurn.source hatchCalls).transitions = [hatchTurn, hatchTurn] :=
    htransitions
  have hmem : hatchTurn ∈ (after hatchTurn.source hatchCalls).transitions := by simp [htransitions]
  refine ⟨hmem, (hends _ hmem).2, hstates.trans (by decide), htransitions, ?_⟩
  rw [(hfrom hatchTurn.source).2 hatchTurn, if_pos rfl, htransitions]
  decide

end Automaton

end Enabledness
