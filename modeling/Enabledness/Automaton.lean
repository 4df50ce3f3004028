import Enabledness.State
import Enabledness.Collection.Roster

/-!
# Automata

The enabledness automaton of a class: abstract states in order of discovery, and transitions in
order of insertion.  It only grows.
-/

namespace Enabledness

/-- How sure a transition is. -/
inductive Existence where
  /-- There is a witness. -/
  | confirmed
  /-- It could not be ruled out. -/
  | possible
deriving DecidableEq

/-- The existence as text. -/
def Existence.text : Existence → String
  | confirmed => "confirmed"
  | possible => "possible"

/-- A transition between abstract states. -/
structure Transition where
  /-- The state in which the action is called. -/
  source : State
  /-- The state that the action leaves. -/
  target : State
  /-- The action that is called. -/
  action : Action
  /-- How sure the transition is. -/
  existence : Existence
deriving DecidableEq

namespace Transition

/-- The transition stays in its state. -/
def isSelfLoop (t : Transition) : Bool := t.source = t.target

/-- The transition as text. -/
def text (t : Transition) : String :=
  t.source.text ++ " --" ++ t.action.text ++ "--> " ++ t.target.text ++
    " (" ++ t.existence.text ++ ")"

end Transition

/-- A growing automaton. -/
structure Automaton where
  /-- The state the exploration started from. -/
  initial : State
  /-- The states in order of discovery. -/
  states : Roster State
  /-- The transitions, the last one to arrive first. -/
  arrivals : List Transition

namespace Automaton

/-- The transitions in order of insertion. -/
def transitions (a : Automaton) : List Transition := a.arrivals.reverse

/-- The automaton that has an initial state only. -/
def start (initial : State) : Automaton := ⟨initial, .singleton initial, []⟩

/-- Registering the state registers it for the first time. -/
def isNew (a : Automaton) (s : State) : Bool := s ∉ a.states

/-- Register a state. -/
def addState (a : Automaton) (s : State) : Automaton := { a with states := a.states.insert s }

/-- Append a transition and register both its ends. -/
def addTransition (a : Automaton) (t : Transition) : Automaton :=
  { a with
    states := (a.states.insert t.source).insert t.target
    arrivals := t :: a.arrivals }

/-- Adding the transition registers its target for the first time. -/
def isDiscovery (a : Automaton) (t : Transition) : Bool := t.target ∉ a.states.insert t.source

/-- The transitions that leave a state. -/
def transitionsFrom (a : Automaton) (s : State) : List Transition :=
  a.transitions.filter fun t => t.source = s

theorem transitions_addTransition (a : Automaton) (t : Transition) :
    (a.addTransition t).transitions = a.transitions ++ [t] := List.reverse_cons

theorem mem_states_addTransition {a : Automaton} {t : Transition} {s : State} :
    s ∈ (a.addTransition t).states ↔ s = t.target ∨ s = t.source ∨ s ∈ a.states := by
  simp [addTransition]

end Automaton

end Enabledness
