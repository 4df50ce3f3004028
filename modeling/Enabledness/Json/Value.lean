import Enabledness.Json.Token

/-!
# JSON values

A JSON text as a tree that also shows where the text stops being JSON.  A defect stands at the place
where a reader going from left to right meets it, so whoever walks the tree in order meets the first
defect first.
-/

namespace Enabledness

open Json

mutual

/-- A JSON value. -/
inductive Json where
  /-- The literal `null`. -/
  | null
  /-- A truth value. -/
  | bool (value : Bool)
  /-- A number. -/
  | number (token : NumberToken)
  /-- A string. -/
  | string (token : StringToken)
  /-- A list. -/
  | list (items : Json.Items)
  /-- An object. -/
  | object (members : Json.Members)
  /-- Here a value was expected. -/
  | broken (defect : Defect)

/-- The items of a list. -/
inductive Json.Items where
  /-- The list ends. -/
  | done
  /-- Here the list neither ends nor goes on. -/
  | broken (defect : Defect)
  /-- An item and the items after it. -/
  | item (head : Json) (tail : Json.Items)

/-- The members of an object. -/
inductive Json.Members where
  /-- The object ends. -/
  | done
  /-- Here the object neither ends nor goes on. -/
  | broken (defect : Defect)
  /-- A member and the members after it. -/
  | member (key : StringToken) (value : Json) (tail : Json.Members)

end

namespace Json

mutual

/-- The first defect that skipping a value meets. -/
def skipDefect? : Json → Option Defect
  | .null => none
  | .bool _ => none
  | .number token => token.skipped
  | .string token => token.skipped
  | .list items => items.skipDefect?
  | .object members => members.skipDefect?
  | .broken defect => some defect

/-- The first defect that skipping items meets. -/
def Items.skipDefect? : Items → Option Defect
  | .done => none
  | .broken defect => some defect
  | .item head tail => head.skipDefect? <|> tail.skipDefect?

/-- The first defect that skipping members meets. -/
def Members.skipDefect? : Members → Option Defect
  | .done => none
  | .broken defect => some defect
  | .member key value tail => key.skipped <|> value.skipDefect? <|> tail.skipDefect?

end

end Json

end Enabledness
