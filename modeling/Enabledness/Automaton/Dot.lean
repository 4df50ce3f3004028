import Enabledness.Automaton

/-!
# Automata as graph drawings

The automaton in the DOT language.  States are numbered in order of discovery, the initial state
has a double border, possible transitions are dashed, and transitions that would look the same are
drawn once.
-/

namespace Enabledness

open Std

namespace Dot

/-- Put a backslash before quotes and backslashes. -/
def escape : List Char → List Char
  | [] => []
  | c :: rest => if c = '"' ∨ c = '\\' then '\\' :: c :: escape rest else c :: escape rest

/-- A text as a quoted label. -/
def quoted (text : String) : String := "\"" ++ String.ofList (escape text.toList) ++ "\""

/-- An edge of the drawing: source number, target number, action and existence. -/
structure Edge where
  /-- The number of the source. -/
  source : Nat
  /-- The number of the target. -/
  target : Nat
  /-- The action on the edge. -/
  action : Action
  /-- Whether the edge is drawn solid or dashed. -/
  existence : Existence
deriving DecidableEq

namespace Edge

/-- Edges are ordered by their ends, then by action and existence. -/
instance : Ord Edge where
  compare := compareLex (compareOn source) (compareLex (compareOn target)
    (compareLex (compareOn action) (compareOn fun e => decide (e.existence = .possible))))

instance : TransOrd Edge :=
  inferInstanceAs (TransCmp (compareLex (compareOn source) (compareLex (compareOn target)
    (compareLex (compareOn action) (compareOn fun e => decide (e.existence = .possible))))))

instance : LawfulEqOrd Edge where
  eq_of_compare {a b} h := by
    have h : compareLex (compareOn source) (compareLex (compareOn target) (compareLex
        (compareOn action) (compareOn fun e => decide (e.existence = .possible)))) a b = .eq := h
    simp only [compareLex_eq_eq, compareOn, LawfulEqOrd.compare_eq_iff_eq] at h
    obtain ⟨s, t, x, e⟩ := a
    obtain ⟨s', t', x', e'⟩ := b
    cases e <;> cases e' <;> simp_all

end Edge

/-- The line of a node. -/
def nodeLine (number : Nat) (label : String) (isInitial : Bool) : String :=
  "    s" ++ Nat.repr number ++ " [label=" ++ quoted label ++ ", peripheries=" ++
    (if isInitial then "2" else "1") ++ "];\n"

/-- The line style of an existence. -/
def style : Existence → String
  | .confirmed => "solid"
  | .possible => "dashed"

/-- The line of an edge. -/
def Edge.line (e : Edge) : String :=
  "    s" ++ Nat.repr e.source ++ " -> s" ++ Nat.repr e.target ++ " [label=" ++
    quoted e.action.text ++ ", style=" ++ style e.existence ++ "];\n"

end Dot

namespace Automaton

/-- The edge that draws a transition; none if an end is not registered. -/
def edge? (a : Automaton) (t : Transition) : Option Dot.Edge := do
  let source ← a.states.toList.idxOf? t.source
  let target ← a.states.toList.idxOf? t.target
  return ⟨source, target, t.action, t.existence⟩

/-- The edges of the drawing in order of first occurrence, each once. -/
def edges (a : Automaton) : List Dot.Edge := (Roster.ofList (a.transitions.filterMap a.edge?)).toList

/-- The automaton in the DOT language. -/
def dot (a : Automaton) : String :=
  let nodes := a.states.toList.zipIdx.map fun (s, number) =>
    Dot.nodeLine number s.text (s = a.initial)
  "digraph epa \x7b\n    rankdir=LR;\n    node [shape=box];\n" ++ String.join nodes ++
    String.join (a.edges.map Dot.Edge.line) ++ "\x7d\n"

end Automaton

end Enabledness
