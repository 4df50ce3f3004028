import Enabledness.Construction
import Enabledness.Text.Duration

/-!
# What the commands print

The list of the actions of a class, and the summary of a finished construction.
-/

namespace Enabledness.CommandLine

/-- Lines, each with its line break. -/
def unlines (lines : List String) : String := String.join (lines.map (· ++ "\n"))

/-- One action with its precondition. -/
def actionLine (a : Action) : String := "    " ++ a.text ++ " [" ++ a.precondition.text ++ "]"

/-- The actions of a class. -/
def actionList (name : String) (set : ActionSet) (initial : State) : String :=
  unlines
    (["class " ++ name, "  invariant: " ++ set.invariant.text,
        "  " ++ Nat.repr set.size ++ " actions"] ++
      set.actions.toList.map actionLine ++ ["  initial state: " ++ initial.text])

/-- One transition; one that could not be ruled out is marked. -/
def transitionLine (t : Transition) : String :=
  "    " ++ t.source.text ++ " --" ++ t.action.text ++ "--> " ++ t.target.text ++
    if t.existence = .possible then " (possible)" else ""

/-- One inconsistency. -/
def inconsistencyLine (i : Inconsistency) : String :=
  "    " ++ i.tested.text ++ " after " ++ i.main.text ++
    match i.state with
    | some state => " in " ++ state.text
    | none => " (global)"

/-- The inconsistencies, if there are any. -/
def inconsistencyLines : List Inconsistency → List String
  | [] => []
  | l => ("  Inconsistent necessity answers: " ++ Nat.repr l.length) :: l.map inconsistencyLine

/-- The number of transitions that could not be ruled out. -/
def possibleCount (a : Automaton) : Nat :=
  a.transitions.countP fun t => t.existence = .possible

/-- The summary of a finished construction. -/
def summary (c : Construction) (workers : Nat) (elapsed : String) : String :=
  unlines
    (["", "Result: OK", "  States: " ++ Nat.repr c.automaton.states.toList.length,
        "  Transitions: " ++ Nat.repr c.automaton.transitions.length ++ " (" ++
          Nat.repr (possibleCount c.automaton) ++ " possible)",
        "  Queries: " ++ Nat.repr c.asked.length ++ " (" ++ Nat.repr c.cachedAnswers ++
          " answered from the global table)",
        "  Workers: " ++ Nat.repr workers, "  Time: " ++ elapsed, "  Automaton:"] ++
      c.automaton.transitions.map transitionLine ++ inconsistencyLines c.log.inconsistencies)

end Enabledness.CommandLine
