import Enabledness.Query

/-!
# Names of queries

Each query has a procedure of its own, and the name of the procedure spells out the query.  In
action names `$` and `_` are escaped, so that `_` and a `$` without a digit after it are free to
separate the parts.  A global query leaves out its source state, which it does not depend on.
-/

namespace Enabledness

/-- Write `$` as `$24` and `_` as `$5f`. -/
def mangleChars : List Char → List Char
  | [] => []
  | c :: rest =>
    if c = '$' then '$' :: '2' :: '4' :: mangleChars rest
    else if c = '_' then '$' :: '5' :: 'f' :: mangleChars rest
    else c :: mangleChars rest

/-- The name of an action as a part of a procedure name. -/
def Action.tag (a : Action) : String := String.ofList (mangleChars a.name.toList)

/-- The names of the enabled actions, divided by `$`. -/
def State.tag (s : State) : String := "$".intercalate (s.toList.map Action.tag)

/-- The letter of a completion. -/
def Completion.tag : Completion → String
  | normal => "n"
  | exceptional => "x"

/-- The short word of a polarity. -/
def Polarity.tag : Polarity → String
  | enabled => "en"
  | disabled => "dis"

/-- The name of the procedure that encodes a query. -/
def Query.name (q : Query) : String :=
  match q.kind with
  | .invariant completion =>
    "q_inv_" ++ completion.tag ++ "__" ++ q.source.tag ++ "__" ++ q.main.tag
  | .transition completion target =>
    "q_tr_" ++ completion.tag ++ "__" ++ q.source.tag ++ "__" ++ q.main.tag ++ "__" ++ target.tag
  | .necessity polarity .atSource tested =>
    "q_" ++ polarity.tag ++ "_l__" ++ q.source.tag ++ "__" ++ q.main.tag ++ "__" ++ tested.tag
  | .necessity polarity .global tested =>
    "q_" ++ polarity.tag ++ "_g__" ++ q.main.tag ++ "__" ++ tested.tag

end Enabledness
