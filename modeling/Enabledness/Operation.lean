/-!
# Operations

One entry of the member table of a class.  Operations are ordered by qualified name, then instance
before static, then parameter types, then result type (none first); the order tells operations
apart (`LawfulEqOrd`).
-/

namespace Enabledness

open Std

/-- The name of the boolean type. -/
def boolType : String := "bool"

/-- An operation of a class.  The receiver is not among the parameters. -/
structure Operation where
  /-- The name with the class in front, `Class#member`. -/
  qualifiedName : String
  /-- The operation has no receiver. -/
  isStatic : Bool := false
  /-- The types of the parameters in order. -/
  parameterTypes : List String := []
  /-- The type of the result, if there is one. -/
  returnType : Option String := none
deriving DecidableEq, Inhabited

namespace Operation

/-- Compare by qualified name, static flag, parameter types and result type, in this order. -/
instance : Ord Operation where
  compare := compareLex (compareOn qualifiedName)
    (compareLex (compareOn isStatic) (compareLex (compareOn parameterTypes) (compareOn returnType)))

instance : TransOrd Operation :=
  inferInstanceAs (TransCmp (compareLex (compareOn qualifiedName)
    (compareLex (compareOn isStatic) (compareLex (compareOn parameterTypes) (compareOn returnType)))))

instance : LawfulEqOrd Operation where
  eq_of_compare {a b} h := by
    have h : compareLex (compareOn qualifiedName) (compareLex (compareOn isStatic)
        (compareLex (compareOn parameterTypes) (compareOn returnType))) a b = .eq := h
    simp only [compareLex_eq_eq, compareOn, LawfulEqOrd.compare_eq_iff_eq] at h
    cases a
    cases b
    simp_all

/-- The part of a name after its last `#`; the whole name if there is none. -/
def afterHash (cs : List Char) : List Char := (cs.reverse.takeWhile (· ≠ '#')).reverse

/-- The name without the class. -/
def simpleName (op : Operation) : String := String.ofList (afterHash op.qualifiedName.toList)

/-- The result is a boolean. -/
def returnsBool (op : Operation) : Bool := op.returnType == some boolType

/-- The number of parameters. -/
def arity (op : Operation) : Nat := op.parameterTypes.length

/-- The operation as text, `name(type, type)`. -/
def text (op : Operation) : String :=
  op.simpleName ++ "(" ++ ", ".intercalate op.parameterTypes ++ ")"

end Operation

end Enabledness
