import Enabledness.Operation

/-!
# Actions

An action is an operation together with the predicate that guards it.  Actions are ordered by
their operation, then by their precondition.
-/

namespace Enabledness

open Std

/-- A guarded operation. -/
structure Action where
  /-- The predicate that says when the operation may be called. -/
  precondition : Operation
  /-- The operation that is guarded. -/
  operation : Operation
deriving DecidableEq, Inhabited

namespace Action

/-- Compare by operation, then by precondition. -/
instance : Ord Action where
  compare := compareLex (compareOn operation) (compareOn precondition)

instance : TransOrd Action :=
  inferInstanceAs (TransCmp (compareLex (compareOn operation) (compareOn precondition)))

instance : LawfulEqOrd Action where
  eq_of_compare {a b} h := by
    have h : compareLex (compareOn operation) (compareOn precondition) a b = .eq := h
    simp only [compareLex_eq_eq, compareOn, LawfulEqOrd.compare_eq_iff_eq] at h
    cases a
    cases b
    simp_all

/-- The name of the operation without the class. -/
def name (a : Action) : String := a.operation.simpleName

/-- The parameter types of the operation. -/
def parameterTypes (a : Action) : List String := a.operation.parameterTypes

/-- The action as text: that of its operation. -/
def text (a : Action) : String := a.operation.text

/-- The action as text that says what it is, `Action(m(int))`. -/
def inspect (a : Action) : String := "Action(" ++ a.text ++ ")"

end Action

end Enabledness
