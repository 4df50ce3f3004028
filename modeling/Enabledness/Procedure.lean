import Enabledness.ActionSet
import Enabledness.ClassTable
import Enabledness.Query.Name

/-!
# Procedures

The procedure that encodes a query for the verifier.  It assumes the invariant and the enabledness
pattern of the source state, calls the main action with the arguments its precondition accepted,
assumes how the call completes, and asserts the opposite of what the query looks for (or, for a
necessity query, what must always hold).  Actions are numbered in action order; `$preK` holds the
precondition of action `K` and `$aK_i` its argument `i`.
-/

namespace Enabledness

namespace Procedure

/-- A variable of a procedure. -/
inductive Var where
  /-- The value of the invariant. -/
  | inv
  /-- The value of the precondition of an action. -/
  | pre (action : Nat)
  /-- An argument of an action. -/
  | arg (action position : Nat)
  /-- The result of the main action. -/
  | ret
deriving DecidableEq

/-- The variable as text. -/
def Var.text : Var → String
  | inv => "$inv"
  | pre k => "$pre" ++ Nat.repr k
  | arg k i => "$a" ++ Nat.repr k ++ "_" ++ Nat.repr i
  | ret => "$ret"

/-- A variable or its negation. -/
structure Literal where
  /-- The variable stands without a negation. -/
  positive : Bool
  /-- The variable. -/
  var : Var
deriving DecidableEq

/-- The literal as text. -/
def Literal.text (l : Literal) : String := (if l.positive then "" else "!") ++ l.var.text

/-- A line of the body of a procedure. -/
inductive Line where
  /-- Declare a variable with its type. -/
  | declare (var : Var) (type : String)
  /-- An empty line. -/
  | blank
  /-- Assume that there is a receiver. -/
  | assumeReceiver
  /-- Call a procedure on the receiver with arguments, keeping its result. -/
  | call (result : Option Var) (procedure : String) (args : List Var)
  /-- Assume a literal. -/
  | assume (condition : Literal)
  /-- Assume that the last call returned. -/
  | assumeReturned
  /-- Assume that the last call threw. -/
  | assumeThrown
  /-- Forget the exception. -/
  | clearException
  /-- Give variables arbitrary new values. -/
  | havoc (vars : List Var)
  /-- Assert a literal. -/
  | assert (completion : Completion) (condition : Literal)
  /-- Assert that some literal is false. -/
  | assertNotAll (completion : Completion) (conditions : List Literal)
deriving DecidableEq

/-- The word that opens an assertion. -/
def assertWord : Completion → String
  | .normal => "assert"
  | .exceptional => "assert \x7b:exceptional_path\x7d"

/-- The line as text, without indentation. -/
def Line.text : Line → String
  | declare var type => "var " ++ var.text ++ ": " ++ type ++ ";"
  | blank => ""
  | assumeReceiver => "assume this != null;"
  | call result procedure args =>
    "call " ++ (match result with | some var => var.text ++ " := " | none => "") ++ procedure ++
      "(this" ++ String.join (args.map fun var => ", " ++ var.text) ++ ");"
  | assume condition => "assume " ++ condition.text ++ ";"
  | assumeReturned => "assume $Exception == null;"
  | assumeThrown => "assume $Exception != null;"
  | clearException => "$Exception := null;"
  | havoc vars => "havoc " ++ ", ".intercalate (vars.map Var.text) ++ ";"
  | assert completion condition => assertWord completion ++ " " ++ condition.text ++ ";"
  | assertNotAll completion conditions =>
    assertWord completion ++ " !(" ++
      (if conditions.isEmpty then "true" else " && ".intercalate (conditions.map Literal.text)) ++
      ");"

/-- The line with its indentation and line break; an empty line is not indented. -/
def Line.indented (l : Line) : String :=
  match l with
  | blank => "\n"
  | l => "  " ++ l.text ++ "\n"

/-- The argument variables of action number `k`. -/
def argVars (k : Nat) (a : Action) : List Var :=
  (List.range a.parameterTypes.length).map (Var.arg k)

/-- Declare the variables of action number `k`. -/
def declareAction (k : Nat) (a : Action) : List Line :=
  .declare (.pre k) boolType :: a.parameterTypes.zipIdx.map fun (type, i) => .declare (.arg k i) type

/-- Evaluate the precondition of action number `k`. -/
def callPrecondition (code : ClassCode) (k : Nat) (a : Action) : Line :=
  .call (some (.pre k)) (code.procedureName a.precondition) (argVars k a)

/-- Choose new arguments for action number `k`, if it has any. -/
def havocArgs (k : Nat) (a : Action) : List Line :=
  if a.parameterTypes.isEmpty then [] else [.havoc (argVars k a)]

/-- Evaluate the invariant. -/
def callInvariant (code : ClassCode) (set : ActionSet) : Line :=
  .call (some .inv) (code.procedureName set.invariant) []

end Procedure

namespace Query

open Procedure

variable (q : Query) (set : ActionSet) (code : ClassCode)

/-- The declarations of all variables. -/
def declarations : List Line :=
  .declare .inv boolType ::
    (set.actions.toList.zipIdx.flatMap fun (a, k) => declareAction k a) ++
    (match q.main.operation.returnType with
      | some type => [.declare .ret type]
      | none => [])

/-- What is assumed about the enabledness of action number `k` before the call. -/
def assumeEnabledness (k : Nat) (a : Action) : List Line :=
  [callPrecondition code k a, .assume ⟨a ∈ q.source, .pre k⟩]

/-- What is assumed before the call: the invariant, and the enabledness of every action, or of the
main action only if the query is global. -/
def assumptions : List Line :=
  [.assumeReceiver, callInvariant code set, .assume ⟨true, .inv⟩] ++
    set.actions.toList.zipIdx.flatMap fun (a, k) =>
      if q.isGlobal ∧ a ≠ q.main then [] else q.assumeEnabledness code k a

/-- The call of the main action, with the arguments of its precondition. -/
def mainCall : Line :=
  .call (q.main.operation.returnType.map fun _ => .ret) (code.procedureName q.main.operation)
    (match set.actions.toList.idxOf? q.main with
      | some k => argVars k q.main
      | none => [])

/-- How the call is assumed to complete. -/
def assumeCompletion : List Line :=
  match q.completion with
  | .normal => [.assumeReturned]
  | .exceptional => [.assumeThrown, .clearException]

/-- The assertion with the evaluations it needs. -/
def conclusion : List Line :=
  match q.kind with
  | .invariant completion => [callInvariant code set, .assert completion ⟨true, .inv⟩]
  | .transition completion target =>
    (set.actions.toList.zipIdx.flatMap fun (a, k) => havocArgs k a ++ [callPrecondition code k a]) ++
      [.assertNotAll completion
        (set.actions.toList.zipIdx.map fun (a, k) => ⟨a ∈ target, .pre k⟩)]
  | .necessity polarity _ tested =>
    match set.actions.toList.idxOf? tested with
    | some k =>
      havocArgs k tested ++
        [callPrecondition code k tested, .assert .normal ⟨polarity = .enabled, .pre k⟩]
    | none => []

/-- The lines of the body. -/
def bodyLines : List Line :=
  q.declarations set ++ [.blank] ++ q.assumptions set code ++ [.blank, q.mainCall set code] ++
    q.assumeCompletion ++ [.blank] ++ q.conclusion set code

/-- The procedure as text. -/
def procedureText : String :=
  "procedure " ++ q.name ++ "(this: Ref)\n" ++
    (if code.modified.isEmpty then ""
      else "  modifies " ++ ", ".intercalate code.modified ++ ";\n") ++
    "\x7b\n" ++ String.join ((q.bodyLines set code).map Line.indented) ++ "\x7d\n"

end Query

end Enabledness
