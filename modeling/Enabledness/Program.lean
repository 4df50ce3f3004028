import Enabledness.Collection.Table

/-!
# Verification programs

The program that a verifier reads: a base text and the procedures of the queries asked so far.  It
grows by whole procedures, and a procedure that is there already is not added again.
-/

namespace Enabledness

/-- A base text followed by named procedures in order of addition. -/
structure Program where
  /-- The text that comes before all procedures. -/
  base : String
  /-- The procedures under their names. -/
  procedures : Table String String

namespace Program

/-- The program without procedures. -/
def ofBase (base : String) : Program := ⟨base, .empty⟩

/-- The program has a procedure of a name. -/
def contains (p : Program) (name : String) : Bool := p.procedures.contains name

/-- A procedure of this name would be added. -/
def isNew (p : Program) (name : String) : Bool := !p.contains name

/-- Add a procedure, unless one of this name is there. -/
def append (p : Program) (name text : String) : Program :=
  if p.contains name then p else { p with procedures := p.procedures.insert name text }

/-- The texts of the program with the names of the procedures; the base has no name. -/
def fragments (p : Program) : List (Option String × String) :=
  (none, p.base) :: p.procedures.entries.map fun e => (some e.1, e.2)

/-- The number of procedures. -/
def size (p : Program) : Nat := p.procedures.size

/-- The whole text: each fragment after a line break. -/
def render (p : Program) : String := String.join (p.fragments.map fun f => "\n" ++ f.2)

/-- After an addition the program has the procedure of that name, and those it had before. -/
theorem contains_append (p : Program) (name text x : String) :
    (p.append name text).contains x = (decide (x = name) || p.contains x) := by
  unfold append
  by_cases h : p.contains name
  · by_cases hx : x = name <;> simp [h, hx]
  · rw [if_neg h]
    by_cases hx : x = name <;> simp [contains, Table.contains, Table.get?_insert, hx]

/-- A procedure whose name is taken changes nothing. -/
theorem append_of_contains {p : Program} {name : String} (h : p.contains name = true)
    (text : String) : p.append name text = p := if_pos h

end Program

end Enabledness
