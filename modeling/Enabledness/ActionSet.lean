import Enabledness.ClassTable
import Enabledness.State
import Enabledness.Text.Character
import Enabledness.Text.Search

/-!
# The actions of a class

An instance operation `m` is an action of the class if there is an instance operation `m_pre`, its
precondition.  The class needs exactly one invariant `inv`.  `ClassTable.actionSet` finds the actions
and refuses a class that breaks the rules, naming the first offence (`ClassFault`).
-/

namespace Enabledness

/-- The unqualified name of the invariant. -/
def invariantName : String := "inv"

/-- What the name of a precondition adds to that of its operation. -/
def preconditionSuffix : String := "_pre"

/-- Why a class has no action set. -/
inductive ClassFault where
  /-- There is no invariant. -/
  | invariantMissing (expected : String)
  /-- There are several invariants. -/
  | invariantAmbiguous (name : String) (count : Nat)
  /-- The invariant returns no boolean. -/
  | invariantNotBoolean (name : String)
  /-- The invariant takes arguments. -/
  | invariantHasArguments (name : String) (arity : Nat)
  /-- An action or a precondition is declared more than once. -/
  | overloaded (name : String) (count : Nat)
  /-- A precondition returns no boolean. -/
  | preconditionNotBoolean (name : String)
  /-- A precondition and its operation take different arguments. -/
  | signatureMismatch (action precondition : String)
  /-- A precondition guards no operation. -/
  | orphanPrecondition (name action : String)
  /-- The name of an action is no identifier. -/
  | invalidName (name : String)
deriving DecidableEq

namespace ClassFault

/-- The operation to blame. -/
def method : ClassFault → String
  | invariantMissing expected => expected
  | invariantAmbiguous name _ => name
  | invariantNotBoolean name => name
  | invariantHasArguments name _ => name
  | overloaded name _ => name
  | preconditionNotBoolean name => name
  | signatureMismatch _ precondition => precondition
  | orphanPrecondition name _ => name
  | invalidName name => name

/-- The fault as text. -/
def message : ClassFault → String
  | invariantMissing expected =>
    "invariant method missing: it must be named '" ++ expected ++ "'"
  | invariantAmbiguous name count =>
    "exactly one invariant method is needed, found " ++ Nat.repr count ++ " named '" ++ name ++ "'"
  | invariantNotBoolean name => "invariant method '" ++ name ++ "' must return a boolean"
  | invariantHasArguments name arity =>
    "invariant method '" ++ name ++ "' must take no arguments, found " ++ Nat.repr arity
  | overloaded name count =>
    "overloading is not supported for action '" ++ name ++ "' (" ++ Nat.repr count ++
      " declarations)"
  | preconditionNotBoolean name => "precondition '" ++ name ++ "' must return a boolean"
  | signatureMismatch action precondition =>
    "precondition '" ++ precondition ++ "' must have the same arguments as its method '" ++
      action ++ "'"
  | orphanPrecondition name action =>
    "precondition '" ++ name ++ "' has no matching method '" ++ action ++ "'"
  | invalidName name => "action '" ++ name ++ "' is not a valid identifier"

end ClassFault

/-- The actions of a class and its invariant. -/
structure ActionSet where
  /-- The actions in action order. -/
  actions : SortedSet Action
  /-- The invariant. -/
  invariant : Operation
deriving DecidableEq

namespace ActionSet

/-- The number of actions. -/
def size (s : ActionSet) : Nat := s.actions.size

/-- The first action with an unqualified name. -/
def find? (s : ActionSet) (name : String) : Option Action :=
  s.actions.toList.find? fun a => a.name = name

/-- The actions with the given names, or the first name that no action has. -/
def findAll (s : ActionSet) (names : List String) : Except String (List Action) :=
  names.mapM fun name =>
    match s.find? name with
    | some a => .ok a
    | none => .error name

/-- The state that enables the actions with the given names, or the first unknown name. -/
def stateOf (s : ActionSet) (names : List String) : Except String State :=
  (s.findAll names).map SortedSet.ofList

end ActionSet

namespace ClassTable

/-- The invariant: the one instance operation `inv`, which must return a boolean and take no
arguments. -/
def findInvariant (c : ClassTable) : Except ClassFault Operation :=
  let name := c.qualify invariantName
  match c.instanceGroups.get? name with
  | none => .error (.invariantMissing name)
  | some [op] =>
    if op.returnsBool = false then .error (.invariantNotBoolean name)
    else if op.arity ≠ 0 then .error (.invariantHasArguments name op.arity)
    else .ok op
  | some ops => .error (.invariantAmbiguous name ops.length)

/-- The only declaration of a name. -/
def only (name : String) : List Operation → Except ClassFault Operation
  | [op] => .ok op
  | ops => .error (.overloaded name ops.length)

/-- A text without an ending, if it has that ending. -/
def withoutEnding? (text ending : String) : Option String :=
  if Text.endsIn text ending then
    some (String.ofList (text.toList.take (text.toList.length - ending.toList.length)))
  else none

/-- The action of a name, if there is a precondition of that name.  A precondition without an
operation is a fault, unless it is itself guarded. -/
def actionOf (groups : Table String (List Operation)) (name : String)
    (operations : List Operation) : Except ClassFault (Option Action) :=
  let preconditionName := name ++ preconditionSuffix
  match groups.get? preconditionName with
  | none =>
    match withoutEnding? name preconditionSuffix with
    | some base => if groups.contains base then .ok none else .error (.orphanPrecondition name base)
    | none => .ok none
  | some preconditions => do
    let operation ← only name operations
    let precondition ← only preconditionName preconditions
    if Text.isIdentifier operation.simpleName = false then .error (.invalidName name)
    else if precondition.returnsBool = false then .error (.preconditionNotBoolean preconditionName)
    else if operation.parameterTypes ≠ precondition.parameterTypes then
      .error (.signatureMismatch name preconditionName)
    else .ok (some ⟨precondition, operation⟩)

/-- The action set of a class, or its first fault: the invariant is looked at first, then the names
in order of declaration. -/
def actionSet (c : ClassTable) : Except ClassFault ActionSet := do
  let groups := c.instanceGroups
  let invariant ← c.findInvariant
  let found ← groups.entries.mapM fun group => actionOf groups group.1 group.2
  return ⟨SortedSet.ofList (found.filterMap id), invariant⟩

end ClassTable

end Enabledness
