import Mathlib.Data.List.Forall2
import Mathlib.Logic.Function.Basic
import Enabledness.Procedure

/-!
# Runs of a procedure

What the lines of a procedure do, read one after the other.  A declaration or a `havoc` gives variables
arbitrary values of their types, an assumption ends all runs that do not meet it, and a run fails at an
assertion that does not hold.  A call that keeps its result in `$inv` or in some `$preK` evaluates a
predicate and leaves the receiver as it is; every other call moves the receiver to a new value and says
by `$Exception` whether it threw.

* `Procedures` : what procedures do, by their names.
* `Steps`, `Violates`, `Fails`, `CanFail` : one line, an assertion that fails, a run that ends at one.
* `fails_assume`, `fails_evaluate` and so on : when a run that starts with a given line can fail.
* `canFail_declares_iff` : the same for a list of declarations.
-/

namespace Enabledness

open Procedure

/-! ## Values and procedures -/

/-- How the call of an operation ends. -/
inductive Ending (V : Type) where
  /-- It returns and leaves a value. -/
  | returns (value : V)
  /-- It throws and leaves a value. -/
  | throws (value : V)

namespace Ending

variable {V : Type}

/-- The value that is left. -/
def value : Ending V → V
  | returns v => v
  | throws v => v

/-- An exception was thrown. -/
def threw : Ending V → Bool
  | returns _ => false
  | throws _ => true

/-- The value that is left if the call completes as asked. -/
def value? : Ending V → Completion → Option V
  | returns v, .normal => some v
  | throws v, .exceptional => some v
  | _, _ => none

/-- A call leaves a value under a completion if it completed so. -/
theorem value?_eq_some_iff {e : Ending V} {c : Completion} {v : V} :
    e.value? c = some v ↔ e.value = v ∧ (e.threw = true ↔ c = .exceptional) := by
  cases e <;> cases c <;> simp [value?, value, threw]

end Ending

/-- The values that variables can have.  Truth values are those of the boolean type. -/
structure Values (D : Type) where
  /-- The truth values. -/
  truth : Bool → D
  /-- A value is of the type with this name. -/
  belongs : String → D → Prop
  /-- There are two truth values. -/
  truth_ne : truth true ≠ truth false
  /-- The boolean type holds the truth values. -/
  belongs_bool : ∀ d, belongs boolType d ↔ ∃ b, d = truth b
  /-- Every type has a value. -/
  inhabited : ∀ type, ∃ d, belongs type d

namespace Values

variable {D : Type} (w : Values D)

theorem truth_inj {b b' : Bool} : w.truth b = w.truth b' ↔ b = b' := by
  have hne := w.truth_ne
  cases b <;> cases b' <;> simp [hne, Ne.symm hne]

/-- Arguments have the types of the parameters of an action. -/
def Fits (a : Action) (args : List D) : Prop := List.Forall₂ w.belongs a.parameterTypes args

end Values

/-- What procedures do on a receiver with arguments, by their names. -/
structure Procedures (V D : Type) extends Values D where
  /-- The truth value of a predicate. -/
  evaluate? : String → V → List D → Option Bool
  /-- How an operation ends. -/
  perform? : String → V → List D → Option (Ending V)

/-! ## Lines -/

/-- What a run knows: the object that `this` refers to, if it is not `null`, whether `$Exception` is set,
and the types and values of the variables. -/
@[ext]
structure Store (V D : Type) where
  /-- The value of the receiver. -/
  receiver : Option V
  /-- `$Exception` is not `null`. -/
  thrown : Bool
  /-- The types of the variables that are declared. -/
  types : Var → Option String
  /-- The values of the variables. -/
  values : Var → D

/-- The variable keeps what a predicate says. -/
def Procedure.Var.isFlag : Var → Bool
  | inv => true
  | pre _ => true
  | arg _ _ => false
  | ret => false

namespace Store

variable {V D : Type}

/-- Give a variable a value. -/
def assign (σ : Store V D) (x : Var) (d : D) : Store V D :=
  { σ with values := Function.update σ.values x d }

/-- Declare a variable with a value. -/
def declare (σ : Store V D) (x : Var) (type : String) (d : D) : Store V D :=
  { σ.assign x d with types := Function.update σ.types x (some type) }

/-- Give the receiver the value that a call leaves. -/
def move (σ : Store V D) (e : Ending V) : Store V D :=
  { σ with receiver := some e.value, thrown := e.threw }

/-- A literal holds. -/
def Holds (w : Values D) (σ : Store V D) (l : Literal) : Prop := σ.values l.var = w.truth l.positive

/-- Some variables get arbitrary new values of their types. -/
structure Forgets (w : Values D) (vars : List Var) (σ σ' : Store V D) : Prop where
  receiver_eq : σ'.receiver = σ.receiver
  thrown_eq : σ'.thrown = σ.thrown
  types_eq : σ'.types = σ.types
  values_eq : ∀ x, x ∉ vars → σ'.values x = σ.values x
  belongs : ∀ x ∈ vars, ∃ type, σ.types x = some type ∧ w.belongs type (σ'.values x)

@[simp]
theorem values_assign_self (σ : Store V D) (x : Var) (d : D) : (σ.assign x d).values x = d := by
  unfold assign
  dsimp only
  rw [Function.update_self]

theorem values_assign_of_ne (σ : Store V D) {x y : Var} (d : D) (h : y ≠ x) :
    (σ.assign x d).values y = σ.values y := by
  unfold assign
  dsimp only
  rw [Function.update_of_ne h]

@[simp]
theorem values_declare_self (σ : Store V D) (x : Var) (type : String) (d : D) :
    (σ.declare x type d).values x = d := values_assign_self σ x d

theorem values_declare_of_ne (σ : Store V D) {x y : Var} (type : String) (d : D) (h : y ≠ x) :
    (σ.declare x type d).values y = σ.values y := values_assign_of_ne σ d h

/-- A declared variable has the type of its declaration. -/
@[simp]
theorem types_declare_self (σ : Store V D) (x : Var) (type : String) (d : D) :
    (σ.declare x type d).types x = some type := by
  unfold declare
  dsimp only
  rw [Function.update_self]

theorem types_declare_of_ne (σ : Store V D) {x y : Var} (type : String) (d : D) (h : y ≠ x) :
    (σ.declare x type d).types y = σ.types y := by
  unfold declare
  dsimp only
  rw [Function.update_of_ne h]

/-- A literal about a variable that was just assigned a truth value. -/
theorem holds_assign_self (w : Values D) (σ : Store V D) (x : Var) (b positive : Bool) :
    (σ.assign x (w.truth b)).Holds w ⟨positive, x⟩ ↔ b = positive := by
  unfold Holds
  rw [values_assign_self, w.truth_inj]

end Store

/-! ## Arguments in a store -/

theorem Procedure.mem_argVars {k : Nat} {a : Action} {x : Var} :
    x ∈ argVars k a ↔ ∃ i < a.parameterTypes.length, x = .arg k i := by
  simp [argVars, eq_comm]

/-- The argument variables of an action, by position. -/
theorem Procedure.getElem?_argVars (k i : Nat) (a : Action) :
    (argVars k a)[i]? = if i < a.parameterTypes.length then some (.arg k i) else none := by
  rw [argVars, List.getElem?_map]
  by_cases hi : i < a.parameterTypes.length
  · simp [hi]
  · simp [hi]

/-- Arguments fit an action if they are as many as its parameters, and of their types. -/
theorem Values.fits_iff {D : Type} {w : Values D} {a : Action} {args : List D} :
    w.Fits a args ↔ args.length = a.parameterTypes.length ∧
      ∀ (i : Nat) type d, a.parameterTypes[i]? = some type → args[i]? = some d → w.belongs type d := by
  unfold Fits
  rw [List.forall₂_iff_get]
  constructor
  · rintro ⟨hlength, hall⟩
    refine ⟨hlength.symm, fun i type d htype hd => ?_⟩
    obtain ⟨hi, rfl⟩ := List.getElem?_eq_some_iff.1 htype
    obtain ⟨hi', rfl⟩ := List.getElem?_eq_some_iff.1 hd
    exact hall i hi hi'
  · rintro ⟨hlength, hall⟩
    exact ⟨hlength.symm, fun i hi hi' =>
      hall i _ _ (List.getElem?_eq_getElem hi) (List.getElem?_eq_getElem hi')⟩

namespace Store

variable {V D : Type} {w : Values D} {σ σ' : Store V D} {k : Nat} {a : Action}

/-- The arguments of action number `k`. -/
def args (σ : Store V D) (k : Nat) (a : Action) : List D := (argVars k a).map σ.values

/-- The arguments that a store holds for an action fit it if they are of the types of its parameters. -/
theorem fits_args_iff : w.Fits a (σ.args k a) ↔
    ∀ (i : Nat) type, a.parameterTypes[i]? = some type → w.belongs type (σ.values (.arg k i)) := by
  have hget : ∀ i, (σ.args k a)[i]? =
      if i < a.parameterTypes.length then some (σ.values (.arg k i)) else none := by
    intro i
    rw [args, List.getElem?_map, getElem?_argVars]
    split <;> rfl
  rw [Values.fits_iff]
  constructor
  · rintro ⟨-, hall⟩ i type htype
    have hi : i < a.parameterTypes.length := (List.getElem?_eq_some_iff.1 htype).1
    exact hall i type _ htype ((hget i).trans (if_pos hi))
  · intro hall
    refine ⟨by simp [args, argVars], fun i type d htype hd => ?_⟩
    have hi : i < a.parameterTypes.length := (List.getElem?_eq_some_iff.1 htype).1
    rw [hget i, if_pos hi] at hd
    rw [← Option.some.inj hd]
    exact hall i type htype

/-- Give action number `k` new arguments. -/
def setArgs (σ : Store V D) (k : Nat) (args : List D) : Store V D :=
  { σ with values := fun x =>
      match x with
      | .arg k' i => if k' = k then args[i]?.getD (σ.values (.arg k' i)) else σ.values (.arg k' i)
      | x => σ.values x }

/-- Arguments that were set are those that the store holds. -/
theorem args_setArgs {args : List D} (h : args.length = a.parameterTypes.length) :
    (σ.setArgs k args).args k a = args := by
  apply List.ext_getElem?
  intro i
  rw [Store.args, List.getElem?_map, getElem?_argVars]
  by_cases hi : i < a.parameterTypes.length
  · have hi' : i < args.length := by omega
    simp [hi, setArgs, List.getElem?_eq_getElem hi']
  · have hi' : args.length ≤ i := by omega
    simp [hi, List.getElem?_eq_none hi']

/-- To forget the arguments of an action is to give it other arguments of their types. -/
theorem forgets_argVars_iff (htypes : ∀ (i : Nat) type, a.parameterTypes[i]? = some type →
    σ.types (.arg k i) = some type) :
    σ.Forgets w (argVars k a) σ' ↔ ∃ args, w.Fits a args ∧ σ' = σ.setArgs k args := by
  constructor
  · intro h
    refine ⟨σ'.args k a, fits_args_iff.2 fun i type htype => ?_, ?_⟩
    · have hi : i < a.parameterTypes.length := (List.getElem?_eq_some_iff.1 htype).1
      obtain ⟨type', htype', hbelongs⟩ := h.belongs (.arg k i) (mem_argVars.2 ⟨i, hi, rfl⟩)
      rw [htypes i type htype] at htype'
      rwa [Option.some.inj htype']
    · have hvalues : σ'.values = (σ.setArgs k (σ'.args k a)).values := by
        funext x
        cases x with
        | arg k' i =>
          by_cases hx : Var.arg k' i ∈ argVars k a
          · obtain ⟨i', hi, heq⟩ := mem_argVars.1 hx
            obtain ⟨rfl, rfl⟩ := Var.arg.inj heq
            simp [setArgs, args, getElem?_argVars, hi]
          · rw [h.values_eq _ hx]
            by_cases hk : k' = k
            · subst hk
              have hi : ¬ i < a.parameterTypes.length := fun hi => hx (mem_argVars.2 ⟨i, hi, rfl⟩)
              simp [setArgs, args, getElem?_argVars, hi]
            · simp [setArgs, hk]
        | inv => exact h.values_eq _ (by simp [mem_argVars])
        | pre k' => exact h.values_eq _ (by simp [mem_argVars])
        | ret => exact h.values_eq _ (by simp [mem_argVars])
      exact Store.ext h.receiver_eq h.thrown_eq h.types_eq hvalues
  · rintro ⟨args, hfits, rfl⟩
    obtain ⟨hlength, hall⟩ := Values.fits_iff.1 hfits
    refine ⟨rfl, rfl, rfl, fun x hx => ?_, fun x hx => ?_⟩
    · cases x with
      | arg k' i =>
        by_cases hk : k' = k
        · subst hk
          have hi : ¬ i < a.parameterTypes.length := fun hi => hx (mem_argVars.2 ⟨i, hi, rfl⟩)
          have hi' : args.length ≤ i := by omega
          simp [setArgs, List.getElem?_eq_none hi']
        · simp [setArgs, hk]
      | inv => rfl
      | pre k' => rfl
      | ret => rfl
    · obtain ⟨i, hi, rfl⟩ := mem_argVars.1 hx
      have hi' : i < args.length := by omega
      have htype := List.getElem?_eq_getElem hi
      refine ⟨_, htypes i _ htype, ?_⟩
      have hvalue : (σ.setArgs k args).values (.arg k i) = args[i] := by
        simp [setArgs, List.getElem?_eq_getElem hi']
      rw [hvalue]
      exact hall i _ _ htype (List.getElem?_eq_getElem hi')

/-- Forgetting no variable changes nothing. -/
theorem forgets_nil_iff : σ.Forgets w [] σ' ↔ σ' = σ := by
  constructor
  · intro h
    exact Store.ext h.receiver_eq h.thrown_eq h.types_eq (funext fun x => h.values_eq x List.not_mem_nil)
  · rintro rfl
    exact ⟨rfl, rfl, rfl, fun _ _ => rfl, fun _ hx => absurd hx List.not_mem_nil⟩

/-- A variable that has a type can get a new value. -/
theorem exists_forgets {result : Option Var} (h : ∀ x ∈ result, ∃ type, σ.types x = some type) :
    ∃ σ', σ.Forgets w result.toList σ' := by
  cases result with
  | none => exact ⟨σ, forgets_nil_iff.2 rfl⟩
  | some x =>
    obtain ⟨type, htype⟩ := h x rfl
    obtain ⟨d, hd⟩ := w.inhabited type
    refine ⟨σ.assign x d, rfl, rfl, rfl, fun y hy => ?_, fun y hy => ⟨type, ?_⟩⟩
    · exact values_assign_of_ne σ d (List.ne_of_not_mem_cons hy)
    · obtain rfl : y = x := List.mem_singleton.1 hy
      rw [values_assign_self]
      exact ⟨htype, hd⟩

/-- Only flags have other values. -/
structure KeepsArgs (σ σ' : Store V D) : Prop where
  receiver_eq : σ'.receiver = σ.receiver
  types_eq : σ'.types = σ.types
  values_eq : ∀ x : Var, x.isFlag = false → σ'.values x = σ.values x

/-- Assigning a flag, such as the result of a precondition, keeps all arguments. -/
theorem keepsArgs_assign (σ : Store V D) {x : Var} (hx : x.isFlag = true) (d : D) :
    σ.KeepsArgs (σ.assign x d) := by
  refine ⟨rfl, rfl, fun y hy => values_assign_of_ne σ d ?_⟩
  rintro rfl
  simp [hx] at hy

theorem KeepsArgs.refl (σ : Store V D) : σ.KeepsArgs σ := ⟨rfl, rfl, fun _ _ => rfl⟩

theorem KeepsArgs.trans {σ'' : Store V D} (h : σ.KeepsArgs σ') (h' : σ'.KeepsArgs σ'') :
    σ.KeepsArgs σ'' :=
  ⟨h'.receiver_eq.trans h.receiver_eq, h'.types_eq.trans h.types_eq, fun x hx =>
    (h'.values_eq x hx).trans (h.values_eq x hx)⟩

/-- A store that keeps the arguments holds the same ones for each action. -/
theorem KeepsArgs.args_eq (h : σ.KeepsArgs σ') (k : Nat) (a : Action) : σ'.args k a = σ.args k a := by
  refine List.map_congr_left fun x hx => ?_
  obtain ⟨i, -, rfl⟩ := mem_argVars.1 hx
  exact h.values_eq _ rfl

end Store

/-! ## Runs -/

section Runs

variable {V D : Type} (P : Procedures V D)

/-- What one line does to the store. -/
inductive Steps : Line → Store V D → Store V D → Prop
  | declare {σ : Store V D} {x : Var} {type : String} {d : D} (h : P.belongs type d) :
      Steps (.declare x type) σ (σ.declare x type d)
  | blank {σ : Store V D} : Steps .blank σ σ
  | assumeReceiver {σ : Store V D} {v : V} (h : σ.receiver = some v) : Steps .assumeReceiver σ σ
  /-- Evaluate a predicate. -/
  | evaluate {σ : Store V D} {x : Var} {name : String} {args : List Var} {v : V} {b : Bool}
      (hx : x.isFlag = true) (hv : σ.receiver = some v)
      (hb : P.evaluate? name v (args.map σ.values) = some b) :
      Steps (.call (some x) name args) σ (σ.assign x (P.truth b))
  /-- Run an operation; its result can be anything. -/
  | perform {σ σ' : Store V D} {result : Option Var} {name : String} {args : List Var} {v : V}
      {e : Ending V} (hx : ∀ x ∈ result, x.isFlag = false) (hv : σ.receiver = some v)
      (he : P.perform? name v (args.map σ.values) = some e)
      (h : (σ.move e).Forgets P.toValues result.toList σ') : Steps (.call result name args) σ σ'
  | assume {σ : Store V D} {l : Literal} (h : σ.Holds P.toValues l) : Steps (.assume l) σ σ
  | assumeReturned {σ : Store V D} (h : σ.thrown = false) : Steps .assumeReturned σ σ
  | assumeThrown {σ : Store V D} (h : σ.thrown = true) : Steps .assumeThrown σ σ
  | clearException {σ : Store V D} : Steps .clearException σ { σ with thrown := false }
  | havoc {σ σ' : Store V D} {vars : List Var} (h : σ.Forgets P.toValues vars σ') :
      Steps (.havoc vars) σ σ'
  | assert {σ : Store V D} {c : Completion} {l : Literal} (h : σ.Holds P.toValues l) :
      Steps (.assert c l) σ σ
  | assertNotAll {σ : Store V D} {c : Completion} {ls : List Literal}
      (h : ∃ l ∈ ls, ¬ σ.Holds P.toValues l) : Steps (.assertNotAll c ls) σ σ

/-- The line is an assertion that does not hold. -/
inductive Violates : Line → Store V D → Prop
  | assert {σ : Store V D} {c : Completion} {l : Literal} (h : ¬ σ.Holds P.toValues l) :
      Violates (.assert c l) σ
  | assertNotAll {σ : Store V D} {c : Completion} {ls : List Literal}
      (h : ∀ l ∈ ls, σ.Holds P.toValues l) : Violates (.assertNotAll c ls) σ

/-- Some run of the lines violates an assertion. -/
inductive Fails : List Line → Store V D → Prop
  | here {l : Line} {rest : List Line} {σ : Store V D} (h : Violates P l σ) : Fails (l :: rest) σ
  | later {l : Line} {rest : List Line} {σ σ' : Store V D} (h : Steps P l σ σ') (hrest : Fails rest σ') :
      Fails (l :: rest) σ

/-- Some run of a procedure violates an assertion.  It starts without variables, with any receiver. -/
def CanFail (lines : List Line) : Prop :=
  ∃ σ : Store V D, σ.types = (fun _ => none) ∧ Fails P lines σ

variable {P} {σ : Store V D} {rest : List Line}

/-! ## The first line of a run -/

theorem not_fails_nil : ¬ Fails P [] σ := by
  intro h
  cases h

@[simp]
theorem fails_blank : Fails P (.blank :: rest) σ ↔ Fails P rest σ := by
  constructor
  · intro h
    cases h with
    | here hviolates => cases hviolates
    | later hstep hrest =>
      cases hstep
      exact hrest
  · exact .later .blank

/-- From here on a procedure needs a receiver to fail. -/
@[simp]
theorem fails_assumeReceiver :
    Fails P (.assumeReceiver :: rest) σ ↔ (∃ v, σ.receiver = some v) ∧ Fails P rest σ := by
  constructor
  · intro h
    cases h with
    | here hviolates => cases hviolates
    | later hstep hrest =>
      cases hstep with
      | assumeReceiver hv => exact ⟨⟨_, hv⟩, hrest⟩
  · rintro ⟨⟨v, hv⟩, hrest⟩
    exact .later (.assumeReceiver hv) hrest

/-- A procedure that assumes a literal fails only where the literal holds. -/
@[simp]
theorem fails_assume {l : Literal} :
    Fails P (.assume l :: rest) σ ↔ σ.Holds P.toValues l ∧ Fails P rest σ := by
  constructor
  · intro h
    cases h with
    | here hviolates => cases hviolates
    | later hstep hrest =>
      cases hstep with
      | assume hl => exact ⟨hl, hrest⟩
  · rintro ⟨hl, hrest⟩
    exact .later (.assume hl) hrest

/-- A procedure that assumes a return fails only after one. -/
@[simp]
theorem fails_assumeReturned :
    Fails P (.assumeReturned :: rest) σ ↔ σ.thrown = false ∧ Fails P rest σ := by
  constructor
  · intro h
    cases h with
    | here hviolates => cases hviolates
    | later hstep hrest =>
      cases hstep with
      | assumeReturned hs => exact ⟨hs, hrest⟩
  · rintro ⟨hs, hrest⟩
    exact .later (.assumeReturned hs) hrest

/-- A procedure that assumes an exception fails only after one. -/
@[simp]
theorem fails_assumeThrown :
    Fails P (.assumeThrown :: rest) σ ↔ σ.thrown = true ∧ Fails P rest σ := by
  constructor
  · intro h
    cases h with
    | here hviolates => cases hviolates
    | later hstep hrest =>
      cases hstep with
      | assumeThrown hs => exact ⟨hs, hrest⟩
  · rintro ⟨hs, hrest⟩
    exact .later (.assumeThrown hs) hrest

/-- A procedure that forgets the exception fails if the rest does without one. -/
@[simp]
theorem fails_clearException :
    Fails P (.clearException :: rest) σ ↔ Fails P rest { σ with thrown := false } := by
  constructor
  · intro h
    cases h with
    | here hviolates => cases hviolates
    | later hstep hrest =>
      cases hstep
      exact hrest
  · exact .later .clearException

/-- A predicate that has a value on the receiver is evaluated. -/
theorem fails_evaluate {x : Var} {name : String} {args : List Var} {v : V} {b : Bool}
    (hx : x.isFlag = true) (hv : σ.receiver = some v)
    (hb : P.evaluate? name v (args.map σ.values) = some b) :
    Fails P (.call (some x) name args :: rest) σ ↔ Fails P rest (σ.assign x (P.truth b)) := by
  constructor
  · intro h
    cases h with
    | here hviolates => cases hviolates
    | later hstep hrest =>
      cases hstep with
      | evaluate _ hv' hb' =>
        obtain rfl := Option.some.inj (hv.symm.trans hv')
        obtain rfl := Option.some.inj (hb.symm.trans hb')
        exact hrest
      | perform hx' _ _ _ =>
        rw [hx' x rfl] at hx
        simp at hx
  · exact .later (.evaluate hx hv hb)

/-- An operation that does something to the receiver is run. -/
theorem fails_perform {result : Option Var} {name : String} {args : List Var} {v : V} {e : Ending V}
    (hx : ∀ x ∈ result, x.isFlag = false) (hv : σ.receiver = some v)
    (he : P.perform? name v (args.map σ.values) = some e) :
    Fails P (.call result name args :: rest) σ ↔
      ∃ σ', (σ.move e).Forgets P.toValues result.toList σ' ∧ Fails P rest σ' := by
  constructor
  · intro h
    cases h with
    | here hviolates => cases hviolates
    | later hstep hrest =>
      cases hstep with
      | evaluate hx' _ _ =>
        rw [hx _ rfl] at hx'
        simp at hx'
      | perform _ hv' he' hforgets =>
        obtain rfl := Option.some.inj (hv.symm.trans hv')
        obtain rfl := Option.some.inj (he.symm.trans he')
        exact ⟨_, hforgets, hrest⟩
  · rintro ⟨σ', hforgets, hrest⟩
    exact .later (.perform hx hv he hforgets) hrest

/-- A procedure that chooses new values fails if the rest fails with some of them. -/
theorem fails_havoc {vars : List Var} :
    Fails P (.havoc vars :: rest) σ ↔ ∃ σ', σ.Forgets P.toValues vars σ' ∧ Fails P rest σ' := by
  constructor
  · intro h
    cases h with
    | here hviolates => cases hviolates
    | later hstep hrest =>
      cases hstep with
      | havoc hforgets => exact ⟨_, hforgets, hrest⟩
  · rintro ⟨σ', hforgets, hrest⟩
    exact .later (.havoc hforgets) hrest

/-- The last line of a run is an assertion. -/
theorem fails_assert {c : Completion} {l : Literal} :
    Fails P [.assert c l] σ ↔ ¬ σ.Holds P.toValues l := by
  constructor
  · intro h
    cases h with
    | here hviolates =>
      cases hviolates with
      | assert hl => exact hl
    | later _ hrest => exact absurd hrest not_fails_nil
  · intro hl
    exact .here (.assert hl)

/-- The last assertion fails where all its literals hold. -/
theorem fails_assertNotAll {c : Completion} {ls : List Literal} :
    Fails P [.assertNotAll c ls] σ ↔ ∀ l ∈ ls, σ.Holds P.toValues l := by
  constructor
  · intro h
    cases h with
    | here hviolates =>
      cases hviolates with
      | assertNotAll hall => exact hall
    | later _ hrest => exact absurd hrest not_fails_nil
  · intro hall
    exact .here (.assertNotAll hall)

/-! ## Declarations -/

/-- The lines that declare variables with their types. -/
def declares (l : List (Var × String)) : List Line := l.map fun x => .declare x.1 x.2

/-- The types of the variables after some declarations. -/
def typesAfter (l : List (Var × String)) (types : Var → Option String) : Var → Option String :=
  l.foldl (fun types x => Function.update types x.1 (some x.2)) types

/-- A variable that is declared with one type only has this type afterwards. -/
theorem typesAfter_of_mem {l : List (Var × String)} {x : Var} {type : String} (h : (x, type) ∈ l)
    (hone : ∀ type', (x, type') ∈ l → type' = type) (types : Var → Option String) :
    typesAfter l types x = some type := by
  induction l generalizing types with
  | nil => exact absurd h List.not_mem_nil
  | cons y l ih =>
    by_cases hx : (x, type) ∈ l
    · exact ih hx (fun type' h' => hone type' (List.mem_cons_of_mem _ h')) _
    · obtain rfl : (x, type) = y := (List.mem_cons.1 h).resolve_right hx
      -- the variable is not declared again
      have hkeep : ∀ (l : List (Var × String)) (types : Var → Option String),
          (∀ type', (x, type') ∉ l) → typesAfter l types x = types x := by
        intro l
        induction l with
        | nil => intro types _; rfl
        | cons y l ih =>
          intro types hnot
          have hne : x ≠ y.1 := by
            rintro rfl
            exact hnot y.2 List.mem_cons_self
          refine (ih _ fun type' h' => hnot type' (List.mem_cons_of_mem _ h')).trans ?_
          exact Function.update_of_ne hne _ _
      refine (hkeep l _ fun type' h' => ?_).trans (Function.update_self _ _ _)
      obtain rfl := hone type' (List.mem_cons_of_mem _ h')
      exact hx h'

/-- The variables have been declared and have values of their types. -/
structure Store.Declares (w : Values D) (l : List (Var × String)) (σ : Store V D) : Prop where
  types_eq : σ.types = typesAfter l fun _ => none
  belongs : ∀ x type, (x, type) ∈ l → w.belongs type (σ.values x)

/-- All variables that have a type have a value of it. -/
def Store.WellTyped (w : Values D) (σ : Store V D) : Prop :=
  ∀ x type, σ.types x = some type → w.belongs type (σ.values x)

/-- A declared variable holds a value of its type. -/
theorem Store.WellTyped.declare {w : Values D} (hσ : σ.WellTyped w) (x : Var) {type : String} {d : D}
    (hd : w.belongs type d) : (σ.declare x type d).WellTyped w := by
  intro y type' hy
  by_cases hxy : y = x
  · subst hxy
    rw [types_declare_self] at hy
    rw [← Option.some.inj hy, values_declare_self]
    exact hd
  · rw [types_declare_of_ne _ _ _ hxy] at hy
    rw [values_declare_of_ne _ _ _ hxy]
    exact hσ y type' hy

/-- A run that fails after declarations fails from some values of these types. -/
theorem exists_fails_of_declares {l : List (Var × String)} (hσ : σ.WellTyped P.toValues)
    (h : Fails P (declares l ++ rest) σ) :
    ∃ σ', σ'.WellTyped P.toValues ∧ σ'.types = typesAfter l σ.types ∧ Fails P rest σ' := by
  induction l generalizing σ with
  | nil => exact ⟨σ, hσ, rfl, h⟩
  | cons y l ih =>
    cases h with
    | here hviolates => cases hviolates
    | later hstep hrest =>
      cases hstep with
      | declare hd => exact ih (hσ.declare y.1 hd) hrest

/-- Declarations can give variables the values that they have already. -/
theorem fails_of_declares {l : List (Var × String)}
    (hσ : ∀ x type, (x, type) ∈ l → P.belongs type (σ.values x))
    (h : Fails P rest { σ with types := typesAfter l σ.types }) : Fails P (declares l ++ rest) σ := by
  induction l generalizing σ with
  | nil => exact h
  | cons y l ih =>
    obtain ⟨x, type⟩ := y
    have hsame : σ.declare x type (σ.values x) =
        { σ with types := Function.update σ.types x (some type) } := by
      unfold Store.declare Store.assign
      rw [Function.update_eq_self]
    refine .later (.declare (hσ x type List.mem_cons_self)) ?_
    rw [hsame]
    exact ih (fun y type' hy => hσ y type' (List.mem_cons_of_mem _ hy)) h

/-- Declarations, each variable with one type, give the variables arbitrary values of their types. -/
theorem canFail_declares_iff {l : List (Var × String)}
    (hone : ∀ x type type', (x, type) ∈ l → (x, type') ∈ l → type' = type) :
    CanFail P (declares l ++ rest) ↔ ∃ σ : Store V D, σ.Declares P.toValues l ∧ Fails P rest σ := by
  constructor
  · rintro ⟨σ, hnone, hfails⟩
    have hσ : σ.WellTyped P.toValues := by
      intro x type hx
      rw [hnone] at hx
      simp at hx
    obtain ⟨σ', hσ', htypes, hrest⟩ := exists_fails_of_declares hσ hfails
    rw [hnone] at htypes
    refine ⟨σ', ⟨htypes, fun x type hx => hσ' x type ?_⟩, hrest⟩
    rw [htypes]
    exact typesAfter_of_mem hx (fun type' hx' => hone x type type' hx hx') _
  · rintro ⟨σ, hσ, hfails⟩
    refine ⟨{ σ with types := fun _ => none }, rfl, fails_of_declares hσ.belongs ?_⟩
    rw [← hσ.types_eq]
    exact hfails

end Runs

end Enabledness
