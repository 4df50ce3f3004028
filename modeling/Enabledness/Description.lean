import Enabledness.ActionSet
import Enabledness.Collection.SortedMap
import Enabledness.Json.Reader
import Enabledness.Text.Utf8

/-!
# Class descriptions

A class as it is described in a file: a JSON object (or a list of its values in order) with the
operations, their code and the initially enabled actions.  `ClassDescription.parse` reads one; what is
wrong with a text is decided by the first thing that is wrong in it, from left to right.
-/

namespace Enabledness

open Json

/-! ## Faults -/

/-- Why a text describes no class. -/
inductive DescriptionFault where
  /-- The text is not JSON. -/
  | unreadable (defect : Json.Defect)
  /-- The text is JSON, but of another shape. -/
  | misshapen
deriving DecidableEq

/-- The fault as text. -/
def DescriptionFault.message : DescriptionFault → String
  | unreadable .truncated => "the text ends too early"
  | unreadable .malformed => "the text is not JSON"
  | misshapen => "the text has not the shape of a class description"

/-- Why a file gives no class with code and initial state. -/
inductive ClassFileFault where
  /-- The file cannot be read as text. -/
  | notRead (path reason : String)
  /-- The text in the file describes no class. -/
  | notParsed (path : String) (fault : DescriptionFault)
  /-- An operation has no code. -/
  | missingFragment (name : String)
  /-- The initial state names an action that the class does not have. -/
  | unknownInitialAction (name : String)
deriving DecidableEq

/-- The fault as text. -/
def ClassFileFault.message : ClassFileFault → String
  | notRead path reason => "failed to read " ++ path ++ ": " ++ reason
  | notParsed path fault => "invalid class description " ++ path ++ ": " ++ fault.message
  | missingFragment name => "operation '" ++ name ++ "' has no translated fragment"
  | unknownInitialAction name => "unknown action '" ++ name ++ "' in initial state"

/-! ## Descriptions -/

/-- A class with its code and its initial state. -/
structure ClassDescription where
  /-- The name of the class. -/
  name : String
  /-- The operations in order of declaration. -/
  operations : List Operation
  /-- The code that comes before all procedures. -/
  preamble : String := ""
  /-- The procedures under the qualified names of their operations. -/
  fragments : SortedMap String String := .empty
  /-- The globals that the operations may modify. -/
  modifies : List String := []
  /-- The names of the initially enabled actions. -/
  initialState : List String := []
deriving DecidableEq

/-- The result of reading a part of a description. -/
abbrev Reading (α : Type) := Except DescriptionFault α

/-! ## Parts of a description -/

namespace Json

/-- The fault of a value that has the wrong type.  Simple values are read to their end first. -/
def wrongType : Json → DescriptionFault
  | .number ⟨some defect, _⟩ => .unreadable defect
  | .string ⟨.error defect, _⟩ => .unreadable defect
  | .broken defect => .unreadable defect
  | _ => .misshapen

/-- The text of a string token. -/
def StringToken.toText (t : StringToken) : Reading String :=
  match t.value with
  | .ok text => .ok text
  | .error defect => .error (.unreadable defect)

/-- A text. -/
def toText : Json → Reading String
  | .string token => token.toText
  | value => .error value.wrongType

/-- A truth value. -/
def toFlag : Json → Reading Bool
  | .bool flag => .ok flag
  | value => .error value.wrongType

/-- A text, or nothing if the value is `null`. -/
def toOptionalText : Json → Reading (Option String)
  | .null => .ok none
  | value => value.toText.map some

/-- All items of a list. -/
def Items.toList {α : Type} (read : Json → Reading α) : Items → Reading (List α)
  | .done => .ok []
  | .broken defect => .error (.unreadable defect)
  | .item head tail => do
    let a ← read head
    let rest ← tail.toList read
    return a :: rest

/-- A list. -/
def toList {α : Type} (read : Json → Reading α) : Json → Reading (List α)
  | .list items => items.toList read
  | value => .error value.wrongType

/-- A list of texts. -/
def toTexts : Json → Reading (List String) := toList toText

/-- All members of an object with texts as values, added to a map; the last of equal keys wins. -/
def Members.toMap (map : SortedMap String String) : Members → Reading (SortedMap String String)
  | .done => .ok map
  | .broken defect => .error (.unreadable defect)
  | .member key value tail => do
    let key ← key.toText
    let value ← value.toText
    tail.toMap (map.insert key value)

/-- A map from texts to texts. -/
def toMap : Json → Reading (SortedMap String String)
  | .object members => members.toMap .empty
  | value => .error value.wrongType

/-- A value that nobody asked for: it only has to be JSON. -/
def skip (value : Json) : Reading Unit :=
  match value.skipDefect? with
  | some defect => .error (.unreadable defect)
  | none => .ok ()

/-! ## Records given as objects or lists -/

/-- The value of a field that must not have been given before. -/
def once {α : Type} (known : Option α) (read : Json → Reading α) (value : Json) :
    Reading (Option α) :=
  match known with
  | some _ => .error .misshapen
  | none => (read value).map some

/-- A field that must be given. -/
def required {α : Type} : Option α → Reading α
  | some a => .ok a
  | none => .error .misshapen

/-- The next item of a record given as a list, if the list does not end here. -/
def Items.next {α : Type} (read : Json → Reading α) : Items → Reading (Option α × Items)
  | .done => .ok (none, .done)
  | .broken defect => .error (.unreadable defect)
  | .item head tail => (read head).map fun a => (some a, tail)

/-- After the last field a record given as a list must end. -/
def Items.finish : Items → Reading Unit
  | .done => .ok ()
  | .broken defect => .error (.unreadable defect)
  | .item .. => .error (.unreadable .malformed)

end Json

/-! ## Operations -/

/-- The fields of an operation that are known so far. -/
structure OperationFields where
  /-- The qualified name. -/
  qualifiedName : Option String := none
  /-- The static flag. -/
  isStatic : Option Bool := none
  /-- The parameter types. -/
  parameterTypes : Option (List String) := none
  /-- The type of the result. -/
  returnType : Option (Option String) := none

namespace OperationFields

/-- The operation with these fields; only the name must be there. -/
def complete (f : OperationFields) : Reading Operation := do
  let qualifiedName ← required f.qualifiedName
  return ⟨qualifiedName, f.isStatic.getD false, f.parameterTypes.getD [], f.returnType.getD none⟩

/-- Take up one member of an object. -/
def add (f : OperationFields) (key : String) (value : Json) : Reading OperationFields :=
  if key = "qualified_name" then
    (once f.qualifiedName toText value).map fun v => { f with qualifiedName := v }
  else if key = "is_static" then
    (once f.isStatic toFlag value).map fun v => { f with isStatic := v }
  else if key = "parameter_types" then
    (once f.parameterTypes toTexts value).map fun v => { f with parameterTypes := v }
  else if key = "return_type" then
    (once f.returnType toOptionalText value).map fun v => { f with returnType := v }
  else value.skip.map fun _ => f

/-- Take up all members of an object. -/
def addAll (f : OperationFields) : Members → Reading OperationFields
  | .done => .ok f
  | .broken defect => .error (.unreadable defect)
  | .member key value tail => do
    let key ← key.toText
    (← f.add key value).addAll tail

/-- Take up the items of a list, in order of the fields. -/
def ofItems (items : Items) : Reading Operation := do
  let (qualifiedName, items) ← items.next toText
  let name ← required qualifiedName
  let (isStatic, items) ← items.next toFlag
  let (parameterTypes, items) ← items.next toTexts
  let (returnType, items) ← items.next toOptionalText
  items.finish
  complete ⟨some name, isStatic, parameterTypes, returnType⟩

end OperationFields

/-- Read an operation. -/
def Operation.ofJson : Json → Reading Operation
  | .object members => do (← ({} : OperationFields).addAll members).complete
  | .list items => OperationFields.ofItems items
  | value => .error value.wrongType

/-! ## Whole descriptions -/

/-- The fields of a description that are known so far. -/
structure DescriptionFields where
  /-- The name of the class. -/
  name : Option String := none
  /-- The operations. -/
  operations : Option (List Operation) := none
  /-- The preamble. -/
  preamble : Option String := none
  /-- The procedures. -/
  fragments : Option (SortedMap String String) := none
  /-- The globals. -/
  modifies : Option (List String) := none
  /-- The initially enabled actions. -/
  initialState : Option (List String) := none

namespace DescriptionFields

/-- The description with these fields; the name and the operations must be there. -/
def complete (f : DescriptionFields) : Reading ClassDescription := do
  let name ← required f.name
  let operations ← required f.operations
  return ⟨name, operations, f.preamble.getD "", f.fragments.getD .empty, f.modifies.getD [],
    f.initialState.getD []⟩

/-- Take up one member of an object. -/
def add (f : DescriptionFields) (key : String) (value : Json) : Reading DescriptionFields :=
  if key = "class" then
    (once f.name toText value).map fun v => { f with name := v }
  else if key = "operations" then
    (once f.operations (toList Operation.ofJson) value).map fun v => { f with operations := v }
  else if key = "preamble" then
    (once f.preamble toText value).map fun v => { f with preamble := v }
  else if key = "fragments" then
    (once f.fragments toMap value).map fun v => { f with fragments := v }
  else if key = "modifies" then
    (once f.modifies toTexts value).map fun v => { f with modifies := v }
  else if key = "initial_state" then
    (once f.initialState toTexts value).map fun v => { f with initialState := v }
  else value.skip.map fun _ => f

/-- Take up all members of an object. -/
def addAll (f : DescriptionFields) : Members → Reading DescriptionFields
  | .done => .ok f
  | .broken defect => .error (.unreadable defect)
  | .member key value tail => do
    let key ← key.toText
    (← f.add key value).addAll tail

/-- Take up the items of a list, in order of the fields. -/
def ofItems (items : Items) : Reading ClassDescription := do
  let (name, items) ← items.next toText
  let name ← required name
  let (operations, items) ← items.next (toList Operation.ofJson)
  let operations ← required operations
  let (preamble, items) ← items.next toText
  let (fragments, items) ← items.next toMap
  let (modifies, items) ← items.next toTexts
  let (initialState, items) ← items.next toTexts
  items.finish
  complete ⟨some name, some operations, preamble, fragments, modifies, initialState⟩

end DescriptionFields

/-- Read a whole text: after the value there may be space only. -/
def Json.parseAs {α : Type} (read : Json → Reading α) (text : String) : Reading α := do
  let r := readValue text.toList
  let a ← read r.1
  match r.2 with
  | some rest => if (skipSpace rest.1).isEmpty then return a else throw (.unreadable .malformed)
  | none => throw (.unreadable .truncated)

/-- Read an operation from a text of its own. -/
def Operation.parse (text : String) : Reading Operation := parseAs ofJson text

namespace ClassDescription

/-- Read a description. -/
def ofJson : Json → Reading ClassDescription
  | .object members => do (← ({} : DescriptionFields).addAll members).complete
  | .list items => DescriptionFields.ofItems items
  | value => .error value.wrongType

/-- Read a description from a text. -/
def parse (text : String) : Reading ClassDescription := parseAs ofJson text

/-- Read the description in a file, given the bytes of the file or the reason why there are none. -/
def load (path : String) (content : Except String (List UInt8)) :
    Except ClassFileFault ClassDescription :=
  match content with
  | .error reason => .error (.notRead path reason)
  | .ok bytes =>
    match Text.Utf8.decode? bytes with
    | none => .error (.notRead path "stream did not contain valid UTF-8")
    | some text => (parse text).mapError (.notParsed path)

/-- The table of the class. -/
def table (d : ClassDescription) : ClassTable := ⟨d.name, d.operations⟩

/-- The code of the class; every operation must have a fragment. -/
def code (d : ClassDescription) : Except ClassFileFault ClassCode :=
  match d.operations.find? fun op => !d.fragments.contains op.qualifiedName with
  | some op => .error (.missingFragment op.qualifiedName)
  | none =>
    .ok
      { preamble := d.preamble
        fragment := fun op => (d.fragments.get? op.qualifiedName).getD ""
        procedureName := ClassCode.defaultProcedureName
        modified := d.modifies }

/-- The initial state. -/
def initial (d : ClassDescription) (set : ActionSet) : Except ClassFileFault State :=
  (set.stateOf d.initialState).mapError .unknownInitialAction

end ClassDescription

end Enabledness
