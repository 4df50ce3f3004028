import Enabledness.Operation
import Enabledness.Collection.Table

/-!
# Class tables

The class under analysis as a table of its operations, and its code: the operations in the language of the
verifier.  Queries call the operations by the names of their procedures and say which globals may change.
-/

namespace Enabledness

/-- A class: its name and its operations in order of declaration. -/
structure ClassTable where
  /-- The name of the class. -/
  name : String
  /-- The operations in order of declaration. -/
  operations : List Operation
deriving DecidableEq, Inhabited

namespace ClassTable

/-- The qualified name of a member. -/
def qualify (c : ClassTable) (member : String) : String := c.name ++ "#" ++ member

/-- The first operation with a qualified name. -/
def find? (c : ClassTable) (qualifiedName : String) : Option Operation :=
  c.operations.find? fun op => op.qualifiedName = qualifiedName

/-- The instance operations under their qualified names, in order of first declaration; the
operations of one name are overloads of each other. -/
def instanceGroups (c : ClassTable) : Table String (List Operation) :=
  (c.operations.filter fun op => !op.isStatic).foldl
    (fun groups op => groups.alter op.qualifiedName [] (· ++ [op])) .empty

end ClassTable

/-! ## The code of a class -/

/-- A class in the language of the verifier. -/
structure ClassCode where
  /-- The text that comes before all procedures. -/
  preamble : String
  /-- The procedure that implements an operation. -/
  fragment : Operation → String
  /-- The name of the procedure that implements an operation. -/
  procedureName : Operation → String
  /-- The globals that the operations may modify. -/
  modified : List String

namespace ClassCode

/-- The default name of a procedure: the qualified name with `$` for each `#`. -/
def defaultProcedureName (op : Operation) : String :=
  String.ofList (op.qualifiedName.toList.map fun c => if c = '#' then '$' else c)

/-- The preamble, followed by the procedures of all operations of the class. -/
def baseText (code : ClassCode) (c : ClassTable) : String :=
  code.preamble ++ String.join (c.operations.map fun op => "\n" ++ code.fragment op)

end ClassCode

end Enabledness
