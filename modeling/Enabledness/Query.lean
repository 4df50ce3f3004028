import Enabledness.State

/-!
# Queries

A query is a question about calling one action, its main action, in one abstract state.

* invariant: can the main action break the invariant?
* transition: can the main action lead to exactly the actions of a target state being enabled?
* necessity: does the main action, when it returns normally, always leave a tested action enabled,
  or always disabled?

Not every combination makes sense; `Query.make` refuses the others (`QueryFault`).
-/

namespace Enabledness

/-- How the main action is assumed to complete. -/
inductive Completion where
  /-- It returns. -/
  | normal
  /-- It throws. -/
  | exceptional
deriving DecidableEq

/-- What a necessity query asserts of the tested action. -/
inductive Polarity where
  /-- It is enabled. -/
  | enabled
  /-- It is disabled. -/
  | disabled
deriving DecidableEq

/-- What a necessity query assumes besides the invariant and the main precondition. -/
inductive Scope where
  /-- The enabledness pattern of the source state. -/
  | atSource
  /-- Nothing. -/
  | global
deriving DecidableEq

/-- What a query asks. -/
inductive QueryKind where
  /-- Whether the invariant can break. -/
  | invariant (completion : Completion)
  /-- Whether the target can be reached. -/
  | transition (completion : Completion) (target : State)
  /-- Whether the tested action is always enabled, or always disabled, afterwards. -/
  | necessity (polarity : Polarity) (scope : Scope) (tested : Action)
deriving DecidableEq

/-- Why a query is refused. -/
inductive QueryFault where
  /-- The main action is not enabled in the source. -/
  | mainNotEnabled (state : State) (action : Action)
  /-- A necessity query tests its own main action. -/
  | testedIsMain (action : Action)
  /-- A global query needs a source that enables the main action only. -/
  | notSingleAction (state : State) (action : Action)
deriving DecidableEq

/-- The fault as text. -/
def QueryFault.message : QueryFault → String
  | mainNotEnabled state action =>
    "main action " ++ action.text ++ " is not enabled in state " ++ state.text
  | testedIsMain action => "necessity query tests its own main action " ++ action.text
  | notSingleAction state action =>
    "global query for " ++ action.text ++
      " requires a state where it is the only enabled action, got " ++ state.text

/-- The first fault of a query, if it has one. -/
def queryFault? (source : State) (main : Action) (kind : QueryKind) : Option QueryFault :=
  if main ∉ source then some (.mainNotEnabled source main)
  else
    match kind with
    | .necessity _ scope tested =>
      if tested = main then some (.testedIsMain main)
      else if scope = .global ∧ source.single? ≠ some main then some (.notSingleAction source main)
      else none
    | _ => none

/-- A question about one main action in one source state. -/
structure Query where
  /-- The state in which the main action is called. -/
  source : State
  /-- The action that is called. -/
  main : Action
  /-- What is asked. -/
  kind : QueryKind
  /-- The question makes sense. -/
  faultless : queryFault? source main kind = none
deriving DecidableEq

namespace Query

/-- Build a query, or say what is wrong with it. -/
def make (source : State) (main : Action) (kind : QueryKind) : Except QueryFault Query :=
  match h : queryFault? source main kind with
  | none => .ok ⟨source, main, kind, h⟩
  | some fault => .error fault

/-- The target of a transition query. -/
def target? (q : Query) : Option State :=
  match q.kind with
  | .transition _ target => some target
  | _ => none

/-- The tested action of a necessity query. -/
def tested? (q : Query) : Option Action :=
  match q.kind with
  | .necessity _ _ tested => some tested
  | _ => none

/-- The completion that an invariant or transition query names. -/
def completion? (q : Query) : Option Completion :=
  match q.kind with
  | .invariant completion => some completion
  | .transition completion _ => some completion
  | .necessity .. => none

/-- The completion that is assumed: necessity queries look at normal completion. -/
def completion (q : Query) : Completion := q.completion?.getD .normal

/-- The query is a global necessity query. -/
def isGlobal (q : Query) : Bool :=
  match q.kind with
  | .necessity _ .global _ => true
  | _ => false

/-- The main action of a query is enabled in its source. -/
theorem main_mem_source (q : Query) : q.main ∈ q.source := by
  have h := q.faultless
  unfold queryFault? at h
  by_cases hm : q.main ∈ q.source
  · exact hm
  · rw [if_pos hm] at h
    simp at h

end Query

/-! ## Queries as text -/

/-- The completion as a word. -/
def Completion.text : Completion → String
  | normal => "Normal"
  | exceptional => "Exceptional"

/-- The polarity as a word. -/
def Polarity.text : Polarity → String
  | enabled => "Enabled"
  | disabled => "Disabled"

/-- The scope as a word. -/
def Scope.text : Scope → String
  | atSource => "Local"
  | global => "Global"

/-- The query as text. -/
def Query.text (q : Query) : String :=
  match q.kind with
  | .invariant completion =>
    "invariant(" ++ completion.text ++ ") " ++ q.main.text ++ " in " ++ q.source.text
  | .transition completion target =>
    "transition(" ++ completion.text ++ ") " ++ q.source.text ++ " --" ++ q.main.text ++ "--> " ++
      target.text
  | .necessity polarity scope tested =>
    "necessarily " ++ polarity.text ++ " (" ++ scope.text ++ ") " ++ tested.text ++ " after " ++
      q.main.text ++ " in " ++ q.source.text

end Enabledness
