import Enabledness.Verifier

/-!
# Concrete models

A class given by what its actions do to finitely many concrete values.  Since the values can be
searched, such a model has an exact verifier: `ConcreteModel.verdict` finds a counterexample to a
query exactly when there is one (`hasCounterexample`).
-/

namespace Enabledness

/-- What the body of an action does to a value. -/
inductive Effect where
  /-- It returns and leaves a value. -/
  | returns (value : Nat)
  /-- It throws and leaves a value. -/
  | throws (value : Nat)
deriving DecidableEq

/-- The value that an effect leaves if it completes as asked. -/
def Effect.value? : Effect → Completion → Option Nat
  | returns w, .normal => some w
  | throws w, .exceptional => some w
  | _, _ => none

/-- An action on concrete values. -/
structure Behaviour where
  /-- The values in which the action may be called. -/
  enabled : Nat → Bool
  /-- What a call does. -/
  body : Nat → Effect

/-- A class over concrete values. -/
structure ConcreteModel where
  /-- The values that are searched. -/
  values : List Nat
  /-- The invariant. -/
  invariant : Nat → Bool
  /-- The actions by name. -/
  actions : List (String × Behaviour)
  /-- The actions whose transitions the verifier gives up on. -/
  inconclusive : List String := []

namespace ConcreteModel

/-- The behaviour of an action name. -/
def behaviour? (m : ConcreteModel) (name : String) : Option Behaviour :=
  (m.actions.find? fun a => a.1 = name).map Prod.snd

/-- A value enables exactly the actions of a state. -/
def shows (m : ConcreteModel) (value : Nat) (s : State) : Bool :=
  m.actions.all (fun a => a.2.enabled value == (s.toList.map Action.name).contains a.1) &&
    (s.toList.map Action.name).all fun name => (m.behaviour? name).isSome

/-- A value is what the query starts from: the invariant holds, and the value enables the main
action, or shows the source state unless the query is global. -/
def isStart (m : ConcreteModel) (q : Query) (main : Behaviour) (value : Nat) : Bool :=
  m.invariant value && if q.isGlobal then main.enabled value else m.shows value q.source

/-- A value is what the query looks for after the call. -/
def isFinding (m : ConcreteModel) (q : Query) (tested : Option Behaviour) (value : Nat) : Bool :=
  match q.kind with
  | .invariant _ => !m.invariant value
  | .transition _ target => m.shows value target
  | .necessity polarity _ _ =>
    match tested with
    | some b => b.enabled value != (polarity == .enabled)
    | none => false

/-- Some value leads the query to what it looks for. -/
def hasCounterexample (m : ConcreteModel) (q : Query) (main : Behaviour)
    (tested : Option Behaviour) : Bool :=
  m.values.any fun v =>
    m.isStart q main v &&
      match (main.body v).value? q.completion with
      | some w => m.isFinding q tested w
      | none => false

/-- The verdict on a query, or the first of its action names that the model does not know. -/
def verdict (m : ConcreteModel) (q : Query) : Except String Verdict :=
  match m.behaviour? q.main.name, q.tested?.map fun t => (t.name, m.behaviour? t.name) with
  | none, _ => .error q.main.name
  | some _, some (name, none) => .error name
  | some main, tested =>
    if m.hasCounterexample q main (tested.bind Prod.snd) then
      if q.target?.isSome && m.inconclusive.contains q.main.name then .ok .inconclusive
      else if q.completion = .exceptional then .ok .exceptionalCounterexample
      else .ok .counterexample
    else .ok .noCounterexample

end ConcreteModel

end Enabledness
