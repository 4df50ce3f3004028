import Mathlib.Data.Set.Function
import Enabledness.Proofs.Candidates
import Enabledness.Proofs.ClassActions
import Enabledness.Proofs.ProcedureRuns
import Enabledness.Proofs.Run

/-!
# What the procedure of a query means

Take any reading of a class: a set of object values, an invariant, and for each action a precondition
and a body.  The procedure of a query can fail exactly if there is what the query looks for: a value with
the invariant and the enabledness pattern of the source, from which the main action completes as asked in
a value that breaks the invariant, shows the target pattern, or has the tested action other than the
query claims.

* `ClassMeaning` : a reading of a class; `ClassMeaning.procedures` : its procedures by name.
* `ClassMeaning.Asks` : what a query looks for.
* `fails_assumptions_iff`, `fails_mainCall_iff`, `fails_conclusion_iff` : the parts of the procedure, each
  for any lines that follow.
* `canFail_bodyLines_iff` : the procedure fails in some run exactly if there is what the query looks
  for.
-/

namespace Enabledness

open Procedure

/-! ## Readings of a class -/

/-- A reading of a class: its object values and what its operations do with them. -/
structure ClassMeaning (V D : Type) extends Values D where
  /-- The invariant. -/
  invariant : V → Bool
  /-- The precondition of an action. -/
  precondition : Action → V → List D → Bool
  /-- The operation of an action. -/
  body : Action → V → List D → Ending V

/-- The procedures of a class can be told apart by their names. -/
structure ClassCode.TellsApart (code : ClassCode) (set : ActionSet) : Prop where
  invariant_ne : ∀ a ∈ set.actions,
    code.procedureName a.precondition ≠ code.procedureName set.invariant
  precondition_inj : ∀ a ∈ set.actions, ∀ b ∈ set.actions,
    code.procedureName a.precondition = code.procedureName b.precondition → a = b
  operation_inj : ∀ a ∈ set.actions, ∀ b ∈ set.actions,
    code.procedureName a.operation = code.procedureName b.operation → a = b

/-- If an accepted class has its operations under different names, its procedures can be told apart. -/
theorem ClassCode.tellsApart_of_actionSet {c : ClassTable} {set : ActionSet} {code : ClassCode}
    (hset : c.actionSet = .ok set) (hnames : Set.InjOn code.procedureName { op | op ∈ c.operations }) :
    code.TellsApart set := by
  have hmem : ∀ a ∈ set.actions, a.operation ∈ c.operations ∧ a.precondition ∈ c.operations :=
    fun a ha => ClassTable.mem_operations_of_mem_actions hset ha
  obtain ⟨hinvariant, hne⟩ := ClassTable.invariant_of_actionSet hset
  refine ⟨fun a ha heq => ?_, fun a ha b hb heq => ?_, fun a ha b hb heq => ?_⟩
  · exact hne a ha (hnames (hmem a ha).2 hinvariant heq).symm
  · have hpre := hnames (hmem a ha).2 (hmem b hb).2 heq
    have hqualified := congrArg Operation.qualifiedName hpre
    rw [ClassTable.qualifiedName_precondition hset ha, ClassTable.qualifiedName_precondition hset hb]
      at hqualified
    exact ClassTable.eq_of_qualifiedName_eq hset ha hb ((String.append_left_inj _).1 hqualified)
  · have hop := hnames (hmem a ha).1 (hmem b hb).1 heq
    exact ClassTable.eq_of_qualifiedName_eq hset ha hb (congrArg Operation.qualifiedName hop)

theorem find?_eq_of_unique {α : Type} {l : List α} {p : α → Bool} {a : α} (ha : a ∈ l) (hp : p a = true)
    (hone : ∀ b ∈ l, p b = true → b = a) : l.find? p = some a := by
  cases hf : l.find? p with
  | none => exact absurd hp (List.find?_eq_none.1 hf a ha)
  | some b => rw [hone b (List.mem_of_find?_eq_some hf) (List.find?_some hf)]

namespace ClassMeaning

variable {V D : Type} (m : ClassMeaning V D) {set : ActionSet} {code : ClassCode}

/-- The procedures of a class, found by their names. -/
def procedures (set : ActionSet) (code : ClassCode) : Procedures V D where
  toValues := m.toValues
  evaluate? name v args :=
    if name = code.procedureName set.invariant then some (m.invariant v)
    else
      (set.actions.toList.find? fun a => code.procedureName a.precondition = name).map
        fun a => m.precondition a v args
  perform? name v args :=
    (set.actions.toList.find? fun a => code.procedureName a.operation = name).map
      fun a => m.body a v args

theorem evaluate?_invariant (v : V) (args : List D) :
    (m.procedures set code).evaluate? (code.procedureName set.invariant) v args =
      some (m.invariant v) := if_pos rfl

theorem evaluate?_precondition (hcode : code.TellsApart set) {a : Action} (ha : a ∈ set.actions) (v : V)
    (args : List D) :
    (m.procedures set code).evaluate? (code.procedureName a.precondition) v args =
      some (m.precondition a v args) := by
  refine (if_neg (hcode.invariant_ne a ha)).trans ?_
  rw [find?_eq_of_unique ha (by simp) fun b hb heq =>
    hcode.precondition_inj b hb a ha (of_decide_eq_true heq)]
  rfl

theorem perform?_operation (hcode : code.TellsApart set) {a : Action} (ha : a ∈ set.actions) (v : V)
    (args : List D) :
    (m.procedures set code).perform? (code.procedureName a.operation) v args =
      some (m.body a v args) := by
  show Option.map _ _ = _
  rw [find?_eq_of_unique ha (by simp) fun b hb heq =>
    hcode.operation_inj b hb a ha (of_decide_eq_true heq)]
  rfl

/-- What a query looks for after the main action. -/
def Finds (set : ActionSet) : QueryKind → V → Prop
  | .invariant _, v => m.invariant v = false
  | .transition _ target, v =>
    ∀ a ∈ set.actions, ∃ args, m.Fits a args ∧ m.precondition a v args = decide (a ∈ target)
  | .necessity polarity _ tested, v =>
    ∃ args, m.Fits tested args ∧ m.precondition tested v args = decide (polarity = .disabled)

/-- The preconditions are as the source of a query says, for all actions, or for the main action only if
the query is global. -/
def Matches (set : ActionSet) (q : Query) (v : V) (args : Action → List D) : Prop :=
  ∀ a ∈ set.actions, (q.isGlobal = true → a = q.main) →
    m.precondition a v (args a) = decide (a ∈ q.source)

/-- There is what a query looks for: a value with the invariant, and arguments for all actions, with
which the preconditions are as the source says, such that the main action completes as asked in a value
that is looked for. -/
def Asks (set : ActionSet) (q : Query) : Prop :=
  ∃ (v : V) (args : Action → List D), m.invariant v = true ∧ (∀ a ∈ set.actions, m.Fits a (args a)) ∧
    m.Matches set q v args ∧
    ∃ v', (m.body q.main v (args q.main)).value? q.completion = some v' ∧ m.Finds set q.kind v'

end ClassMeaning

/-! ## Numbers of actions -/

namespace ActionSet

variable {set : ActionSet} {a : Action}

/-- The number of an action in action order. -/
def number (set : ActionSet) (a : Action) : Nat := set.actions.toList.idxOf a

theorem mem_zipIdx_iff {k : Nat} :
    (a, k) ∈ set.actions.toList.zipIdx ↔ a ∈ set.actions ∧ k = set.number a := by
  rw [List.mk_mem_zipIdx_iff_getElem?]
  constructor
  · intro h
    obtain ⟨hk, rfl⟩ := List.getElem?_eq_some_iff.1 h
    exact ⟨List.getElem_mem hk, (set.actions.nodup_toList.idxOf_getElem k hk).symm⟩
  · rintro ⟨ha, rfl⟩
    have hlt : set.actions.toList.idxOf a < set.actions.toList.length := List.idxOf_lt_length_of_mem ha
    exact List.getElem?_eq_some_iff.2 ⟨hlt, List.getElem_idxOf hlt⟩

theorem idxOf?_eq (ha : a ∈ set.actions) : set.actions.toList.idxOf? a = some (set.number a) := by
  cases hk : set.actions.toList.idxOf? a with
  | none => exact absurd ha (List.idxOf?_eq_none_iff.1 hk)
  | some k =>
    obtain ⟨hlt, heq, -⟩ := List.idxOf?_eq_some_iff.1 hk
    have hmem : (a, k) ∈ set.actions.toList.zipIdx :=
      List.mk_mem_zipIdx_iff_getElem?.2 (List.getElem?_eq_some_iff.2 ⟨hlt, heq⟩)
    rw [(mem_zipIdx_iff.1 hmem).2]

theorem eq_of_number_eq {b : Action} (ha : a ∈ set.actions) (hb : b ∈ set.actions)
    (h : set.number a = set.number b) : a = b := by
  have hmem := List.mk_mem_zipIdx_iff_getElem?.1 (mem_zipIdx_iff.2 ⟨ha, rfl⟩)
  have hmem' := List.mk_mem_zipIdx_iff_getElem?.1 (mem_zipIdx_iff.2 ⟨hb, rfl⟩)
  rw [h, hmem'] at hmem
  exact (Option.some.inj hmem).symm

end ActionSet

/-! ## Variables of a procedure -/

namespace Query

variable {q : Query} {set : ActionSet}

/-- The variables of action number `k` with their types. -/
def typedVarsOf (x : Action × Nat) : List (Var × String) :=
  (.pre x.2, boolType) :: x.1.parameterTypes.zipIdx.map fun p => (.arg x.2 p.2, p.1)

/-- The variables of a procedure with their types. -/
def typedVars (q : Query) (set : ActionSet) : List (Var × String) :=
  (.inv, boolType) :: set.actions.toList.zipIdx.flatMap typedVarsOf ++
    q.main.operation.returnType.toList.map fun type => (.ret, type)

theorem declarations_eq : q.declarations set = declares (q.typedVars set) := by
  have haction : ∀ x : Action × Nat, declareAction x.2 x.1 = declares (typedVarsOf x) := by
    intro x
    simp [declareAction, declares, typedVarsOf]
  unfold declarations typedVars
  cases q.main.operation.returnType with
  | none => simp [declares, List.map_flatMap, haction]
  | some type => simp [declares, List.map_flatMap, haction]

/-- What is declared: `$inv`, and for each action its precondition and its arguments, and the result of
the main action if it has one. -/
def IsVariable (q : Query) (set : ActionSet) : Var → String → Prop
  | .inv, type => type = boolType
  | .pre k, type => type = boolType ∧ ∃ a ∈ set.actions, k = set.number a
  | .arg k i, type => ∃ a ∈ set.actions, k = set.number a ∧ a.parameterTypes[i]? = some type
  | .ret, type => q.main.operation.returnType = some type

theorem mem_typedVars {x : Var} {type : String} :
    (x, type) ∈ q.typedVars set ↔ q.IsVariable set x type := by
  have hactions : ∀ y : Var × String, y ∈ set.actions.toList.zipIdx.flatMap typedVarsOf ↔
      ∃ a ∈ set.actions, y ∈ typedVarsOf (a, set.number a) := by
    intro y
    rw [List.mem_flatMap]
    constructor
    · rintro ⟨⟨a, k⟩, hx, hy⟩
      obtain ⟨ha, rfl⟩ := ActionSet.mem_zipIdx_iff.1 hx
      exact ⟨a, ha, hy⟩
    · rintro ⟨a, ha, hy⟩
      exact ⟨_, ActionSet.mem_zipIdx_iff.2 ⟨ha, rfl⟩, hy⟩
  have hargs : ∀ (a : Action) (i : Nat), (type, i) ∈ a.parameterTypes.zipIdx ↔
      a.parameterTypes[i]? = some type := fun a i => List.mk_mem_zipIdx_iff_getElem?
  unfold typedVars
  rw [List.cons_append, List.mem_cons, List.mem_append, hactions]
  cases x with
  | inv => simp [IsVariable, typedVarsOf]
  | pre k =>
    simp only [IsVariable, typedVarsOf, List.mem_cons, List.mem_map]
    grind
  | arg k i =>
    simp only [IsVariable, typedVarsOf, List.mem_cons, List.mem_map, Prod.exists]
    grind
  | ret => simp [IsVariable, typedVarsOf]

/-- A variable has one type. -/
theorem IsVariable.type_eq {x : Var} {type type' : String} (h : q.IsVariable set x type)
    (h' : q.IsVariable set x type') : type' = type := by
  cases x with
  | inv => exact Eq.trans h' (Eq.symm h)
  | pre k => exact h'.1.trans h.1.symm
  | arg k i =>
    obtain ⟨a, ha, rfl, htype⟩ := h
    obtain ⟨b, hb, hnumber, htype'⟩ := h'
    obtain rfl := ActionSet.eq_of_number_eq ha hb hnumber
    exact Option.some.inj (htype'.symm.trans htype)
  | ret => exact Option.some.inj (Eq.trans (Eq.symm h') h)

theorem typedVars_type_eq (x : Var) (type type' : String) (h : (x, type) ∈ q.typedVars set)
    (h' : (x, type') ∈ q.typedVars set) : type' = type :=
  (mem_typedVars.1 h).type_eq (mem_typedVars.1 h')

end Query

section Parts

variable {V D : Type} {w : Values D} {q : Query} {set : ActionSet} {σ : Store V D}

/-- Variables that are declared have their types. -/
theorem Store.Declares.types_of (h : σ.Declares w (q.typedVars set)) {x : Var} {type : String}
    (hx : q.IsVariable set x type) : σ.types x = some type := by
  rw [h.types_eq]
  exact typesAfter_of_mem (Query.mem_typedVars.2 hx) (fun type' h' =>
    hx.type_eq (Query.mem_typedVars.1 h')) _

/-- Variables that are declared give the actions arguments of their types. -/
theorem Store.Declares.fits_args (h : σ.Declares w (q.typedVars set)) {a : Action}
    (ha : a ∈ set.actions) : w.Fits a (σ.args (set.number a) a) :=
  Store.fits_args_iff.2 fun _ type htype =>
    h.belongs _ type (Query.mem_typedVars.2 ⟨a, ha, rfl, htype⟩)

/-- A store in which the variables are declared and the actions have given arguments. -/
def Store.ofArgs (w : Values D) (q : Query) (set : ActionSet) (v : V) (args : Action → List D)
    (result : D) : Store V D where
  receiver := some v
  thrown := false
  types := typesAfter (q.typedVars set) fun _ => none
  values
    | .arg k i => ((set.actions.toList[k]?).bind fun a => (args a)[i]?).getD (w.truth true)
    | .ret => result
    | _ => w.truth true

section OfArgs

variable {v : V} {args : Action → List D} {d : D} (hargs : ∀ a ∈ set.actions, w.Fits a (args a))

theorem Store.values_ofArgs {a : Action} (ha : a ∈ set.actions) (i : Nat) :
    (Store.ofArgs w q set v args d).values (.arg (set.number a) i) =
      ((args a)[i]?).getD (w.truth true) := by
  have hget := List.mk_mem_zipIdx_iff_getElem?.1 (ActionSet.mem_zipIdx_iff.2 ⟨ha, rfl⟩)
  simp [ofArgs, hget]

include hargs

theorem Store.args_ofArgs {a : Action} (ha : a ∈ set.actions) :
    (Store.ofArgs w q set v args d).args (set.number a) a = args a := by
  obtain ⟨hlength, -⟩ := Values.fits_iff.1 (hargs a ha)
  apply List.ext_getElem?
  intro i
  rw [Store.args, List.getElem?_map, getElem?_argVars, ← hlength]
  by_cases hi : i < (args a).length
  · rw [if_pos hi, Option.map_some, values_ofArgs ha, List.getElem?_eq_getElem hi, Option.getD_some]
  · rw [if_neg hi, List.getElem?_eq_none (Nat.not_lt.1 hi), Option.map_none]

theorem Store.declares_ofArgs
    (hd : ∀ type, q.main.operation.returnType = some type → w.belongs type d) :
    (Store.ofArgs w q set v args d).Declares w (q.typedVars set) := by
  have hbool : ∀ b, w.belongs boolType (w.truth b) := fun b => (w.belongs_bool _).2 ⟨b, rfl⟩
  refine ⟨rfl, fun x type hx => ?_⟩
  have hx := Query.mem_typedVars.1 hx
  cases x with
  | inv =>
    obtain rfl : type = boolType := hx
    exact hbool true
  | pre k =>
    obtain ⟨rfl, -⟩ := hx
    exact hbool true
  | arg k i =>
    obtain ⟨a, ha, rfl, htype⟩ := hx
    obtain ⟨hlength, hall⟩ := Values.fits_iff.1 (hargs a ha)
    have hi : i < (args a).length := hlength ▸ (List.getElem?_eq_some_iff.1 htype).1
    rw [values_ofArgs ha, List.getElem?_eq_getElem hi]
    exact hall i type _ htype (List.getElem?_eq_getElem hi)
  | ret => exact hd type hx

/-- The variables can be declared with any arguments for the actions. -/
theorem exists_declares (q : Query) (v : V) : ∃ σ : Store V D,
    σ.Declares w (q.typedVars set) ∧ σ.receiver = some v ∧
      ∀ a ∈ set.actions, σ.args (set.number a) a = args a := by
  obtain ⟨d, hd⟩ : ∃ d, ∀ type, q.main.operation.returnType = some type → w.belongs type d := by
    cases q.main.operation.returnType with
    | none => exact ⟨w.truth true, by simp⟩
    | some type =>
      obtain ⟨d, hd⟩ := w.inhabited type
      refine ⟨d, fun type' htype => ?_⟩
      rwa [← Option.some.inj htype]
  exact ⟨Store.ofArgs w q set v args d, Store.declares_ofArgs hargs hd, rfl, fun a ha =>
    Store.args_ofArgs hargs ha⟩

end OfArgs

end Parts

/-! ## Parts of a procedure -/

section Lines

variable {V D : Type} {m : ClassMeaning V D} {set : ActionSet} {code : ClassCode}
  {q : Query} {σ : Store V D} {v : V} {rest : List Line}

theorem fails_callInvariant_iff (hv : σ.receiver = some v) :
    Fails (m.procedures set code) (callInvariant code set :: rest) σ ↔
      Fails (m.procedures set code) rest (σ.assign .inv (m.truth (m.invariant v))) :=
  fails_evaluate rfl hv (m.evaluate?_invariant v _)

section TellsApart

variable (hcode : code.TellsApart set)

include hcode

theorem fails_callPrecondition_iff {a : Action} (ha : a ∈ set.actions) (k : Nat)
    (hv : σ.receiver = some v) :
    Fails (m.procedures set code) (callPrecondition code k a :: rest) σ ↔
      Fails (m.procedures set code) rest
        (σ.assign (.pre k) (m.truth (m.precondition a v (σ.args k a)))) :=
  fails_evaluate rfl hv (m.evaluate?_precondition hcode ha v _)

/-! ### Assumptions -/

/-- What is assumed about an action with its number. -/
def Query.assumeOf (q : Query) (code : ClassCode) (x : Action × Nat) : List Line :=
  if q.isGlobal ∧ x.1 ≠ q.main then [] else q.assumeEnabledness code x.2 x.1

/-- The assumptions about some actions: all preconditions have to be as the source says.  What follows
may depend on all but the flags. -/
theorem fails_assumeOf_iff {l : List (Action × Nat)} (hl : ∀ x ∈ l, x.1 ∈ set.actions)
    (hv : σ.receiver = some v) {F : Prop}
    (hrest : ∀ σ', σ.KeepsArgs σ' → (Fails (m.procedures set code) rest σ' ↔ F)) :
    Fails (m.procedures set code) (l.flatMap (q.assumeOf code) ++ rest) σ ↔
      (∀ x ∈ l, (q.isGlobal = true → x.1 = q.main) →
        m.precondition x.1 v (σ.args x.2 x.1) = decide (x.1 ∈ q.source)) ∧ F := by
  induction l generalizing σ with
  | nil =>
    rw [List.flatMap_nil, List.nil_append, hrest σ (.refl σ)]
    simp
  | cons x l ih =>
    obtain ⟨hx, hl⟩ := List.forall_mem_cons.1 hl
    rw [List.flatMap_cons, List.append_assoc, List.forall_mem_cons, and_assoc]
    by_cases hskip : q.isGlobal = true ∧ x.1 ≠ q.main
    · -- nothing is assumed about this action
      rw [Query.assumeOf, if_pos hskip, List.nil_append, ih hl hv hrest]
      have hvacuous : ¬ (q.isGlobal = true → x.1 = q.main) := fun h => hskip.2 (h hskip.1)
      simp [hvacuous]
    · have hasked : q.isGlobal = true → x.1 = q.main := fun h => of_not_not fun hne => hskip ⟨h, hne⟩
      have hkeeps := σ.keepsArgs_assign (x := .pre x.2) rfl (m.truth (m.precondition x.1 v (σ.args x.2 x.1)))
      rw [Query.assumeOf, if_neg hskip, Query.assumeEnabledness, List.cons_append, List.cons_append,
        List.nil_append, fails_callPrecondition_iff hcode hx x.2 hv, fails_assume,
        ih hl (hkeeps.receiver_eq.trans hv) fun σ' h => hrest σ' (hkeeps.trans h)]
      refine and_congr ?_ (and_congr_left' (forall₂_congr fun y _ => ?_))
      · exact (Store.holds_assign_self m.toValues ..).trans ⟨fun h _ => h, fun h => h hasked⟩
      · rw [hkeeps.args_eq]

/-- The assumptions: there is a receiver with the invariant, on which the preconditions are as the source
says. -/
theorem fails_assumptions_iff {F : V → Prop}
    (hrest : ∀ v σ', σ.receiver = some v → σ.KeepsArgs σ' →
      (Fails (m.procedures set code) rest σ' ↔ F v)) :
    Fails (m.procedures set code) (q.assumptions set code ++ rest) σ ↔
      ∃ v, σ.receiver = some v ∧ m.invariant v = true ∧
        m.Matches set q v (fun a => σ.args (set.number a) a) ∧ F v := by
  have hlines : q.assumptions set code ++ rest = .assumeReceiver :: callInvariant code set ::
      .assume ⟨true, .inv⟩ :: (set.actions.toList.zipIdx.flatMap (q.assumeOf code) ++ rest) := rfl
  rw [hlines, fails_assumeReceiver]
  have heach : ∀ v, σ.receiver = some v →
      (Fails (m.procedures set code) (callInvariant code set :: .assume ⟨true, .inv⟩ ::
        (set.actions.toList.zipIdx.flatMap (q.assumeOf code) ++ rest)) σ ↔
        m.invariant v = true ∧ m.Matches set q v (fun a => σ.args (set.number a) a) ∧ F v) := by
    intro v hv
    have hkeeps := σ.keepsArgs_assign (x := .inv) rfl (m.truth (m.invariant v))
    rw [fails_callInvariant_iff hv, fails_assume,
      fails_assumeOf_iff hcode (fun x hx => (ActionSet.mem_zipIdx_iff.1 hx).1)
        (hkeeps.receiver_eq.trans hv) fun σ' h => hrest v σ' hv (hkeeps.trans h)]
    refine and_congr (Store.holds_assign_self ..) (and_congr_left' ?_)
    constructor
    · intro h a ha hasked
      have hprecondition := h (a, set.number a) (ActionSet.mem_zipIdx_iff.2 ⟨ha, rfl⟩) hasked
      rwa [hkeeps.args_eq] at hprecondition
    · rintro h ⟨a, k⟩ hx hasked
      obtain ⟨ha, rfl⟩ := ActionSet.mem_zipIdx_iff.1 hx
      rw [hkeeps.args_eq]
      exact h a ha hasked
  constructor
  · rintro ⟨⟨v, hv⟩, hfails⟩
    exact ⟨v, hv, (heach v hv).1 hfails⟩
  · rintro ⟨v, hv, hall⟩
    exact ⟨⟨v, hv⟩, (heach v hv).2 hall⟩

/-! ### The main call -/

omit hcode in
/-- The completion that is assumed. -/
theorem fails_assumeCompletion_iff {F : Prop}
    (hrest : ∀ σ' : Store V D, σ'.receiver = σ.receiver → σ'.types = σ.types →
      (Fails (m.procedures set code) rest σ' ↔ F)) :
    Fails (m.procedures set code) (q.assumeCompletion ++ rest) σ ↔
      (σ.thrown = true ↔ q.completion = .exceptional) ∧ F := by
  unfold Query.assumeCompletion
  cases q.completion with
  | normal => simp [hrest σ rfl rfl]
  | exceptional =>
    have hcleared := hrest { σ with thrown := false } rfl rfl
    simp [hcleared]

/-- The main call: the main action, with the arguments of its precondition, completes as assumed.  What
follows may depend on the value that is left. -/
theorem fails_mainCall_iff (hmain : q.main ∈ set.actions) (hv : σ.receiver = some v)
    (hret : ∀ type, q.main.operation.returnType = some type → σ.types .ret = some type) {F : V → Prop}
    (hrest : ∀ v' (σ' : Store V D), σ'.receiver = some v' → σ'.types = σ.types →
      (Fails (m.procedures set code) rest σ' ↔ F v')) :
    Fails (m.procedures set code) (q.mainCall set code :: (q.assumeCompletion ++ rest)) σ ↔
      ∃ v', (m.body q.main v (σ.args (set.number q.main) q.main)).value? q.completion = some v' ∧
        F v' := by
  let e := m.body q.main v (σ.args (set.number q.main) q.main)
  have hcall : q.mainCall set code = .call (q.main.operation.returnType.map fun _ => .ret)
      (code.procedureName q.main.operation) (argVars (set.number q.main) q.main) := by
    rw [Query.mainCall, ActionSet.idxOf?_eq hmain]
  have hresult : ∀ x ∈ q.main.operation.returnType.map fun _ => Var.ret, x = .ret := by
    intro x hx
    obtain ⟨_, _, rfl⟩ := Option.map_eq_some_iff.1 hx
    rfl
  have hfollows : ∀ σ', (σ.move e).Forgets m.toValues
      (q.main.operation.returnType.map fun _ => Var.ret).toList σ' →
      (Fails (m.procedures set code) (q.assumeCompletion ++ rest) σ' ↔
        (e.threw = true ↔ q.completion = .exceptional) ∧ F e.value) := by
    intro σ' hforgets
    have hthrew : σ'.thrown = e.threw := hforgets.thrown_eq
    rw [← hthrew]
    exact fails_assumeCompletion_iff fun σ'' hreceiver htypes =>
      hrest e.value σ'' (hreceiver.trans hforgets.receiver_eq) (htypes.trans hforgets.types_eq)
  rw [hcall, fails_perform (fun x hx => by rw [hresult x hx]; rfl) hv (m.perform?_operation hcode hmain v _)]
  constructor
  · rintro ⟨σ', hforgets, hfails⟩
    obtain ⟨hcompletion, hF⟩ := (hfollows σ' hforgets).1 hfails
    exact ⟨e.value, Ending.value?_eq_some_iff.2 ⟨rfl, hcompletion⟩, hF⟩
  · rintro ⟨v', hv', hF⟩
    obtain ⟨rfl, hcompletion⟩ := Ending.value?_eq_some_iff.1 hv'
    obtain ⟨σ', hforgets⟩ : ∃ σ', (σ.move e).Forgets m.toValues
        (q.main.operation.returnType.map fun _ => Var.ret).toList σ' := by
      refine Store.exists_forgets fun x hx => ?_
      obtain ⟨type, htype, rfl⟩ := Option.map_eq_some_iff.1 hx
      exact ⟨type, hret type htype⟩
    exact ⟨σ', hforgets, (hfollows σ' hforgets).2 ⟨hcompletion, hF⟩⟩

/-! ### The conclusion -/

omit hcode in
theorem fails_havocArgs_iff (m : ClassMeaning V D) {a : Action} {k : Nat}
    (htypes : ∀ (i : Nat) type, a.parameterTypes[i]? = some type → σ.types (.arg k i) = some type) :
    Fails (m.procedures set code) (havocArgs k a ++ rest) σ ↔
      ∃ args, m.Fits a args ∧ Fails (m.procedures set code) rest (σ.setArgs k args) := by
  have hforgets : Fails (m.procedures set code) (havocArgs k a ++ rest) σ ↔
      ∃ σ', σ.Forgets m.toValues (argVars k a) σ' ∧ Fails (m.procedures set code) rest σ' := by
    unfold havocArgs
    by_cases hnone : a.parameterTypes = []
    · have hvars : argVars k a = [] := by simp [argVars, hnone]
      simp [hnone, hvars, Store.forgets_nil_iff]
    · rw [if_neg (by simp [hnone]), List.singleton_append]
      exact fails_havoc
  rw [hforgets]
  simp only [Store.forgets_argVars_iff htypes]
  constructor
  · rintro ⟨_, ⟨args, hfits, rfl⟩, hfails⟩
    exact ⟨args, hfits, hfails⟩
  · rintro ⟨args, hfits, hfails⟩
    exact ⟨_, ⟨args, hfits, rfl⟩, hfails⟩

/-- Choose new arguments for an action and evaluate its precondition on them. -/
def Procedure.chooseOf (code : ClassCode) (x : Action × Nat) : List Line :=
  havocArgs x.2 x.1 ++ [callPrecondition code x.2 x.1]

/-- The store after that. -/
def ClassMeaning.chosen (m : ClassMeaning V D) (v : V) (x : Action × Nat) (args : List D)
    (σ : Store V D) : Store V D :=
  (σ.setArgs x.2 args).assign (.pre x.2) (m.truth (m.precondition x.1 v args))

theorem fails_chooseOf_iff {x : Action × Nat} (hx : x.1 ∈ set.actions) (hv : σ.receiver = some v)
    (htypes : ∀ (i : Nat) type, x.1.parameterTypes[i]? = some type →
      σ.types (.arg x.2 i) = some type) :
    Fails (m.procedures set code) (chooseOf code x ++ rest) σ ↔
      ∃ args, m.Fits x.1 args ∧ Fails (m.procedures set code) rest (m.chosen v x args σ) := by
  rw [chooseOf, List.append_assoc, List.singleton_append, fails_havocArgs_iff m htypes]
  refine exists_congr fun args => and_congr_right fun hfits => ?_
  rw [fails_callPrecondition_iff hcode hx x.2 (σ := σ.setArgs x.2 args) hv,
    Store.args_setArgs (Values.fits_iff.1 hfits).1, ClassMeaning.chosen]

/-- What a target says of an action with its number. -/
def Procedure.literalOf (target : State) (x : Action × Nat) : Literal := ⟨x.1 ∈ target, .pre x.2⟩

/-- The end of a transition query, when some actions have been evaluated and others are still to be. -/
theorem fails_assertNotAll_iff (target : State) (completion : Completion) (done : List (Action × Nat))
    {l : List (Action × Nat)} (hl : ∀ x ∈ l, x.1 ∈ set.actions) (hnodup : ((done ++ l).map Prod.snd).Nodup)
    (hv : σ.receiver = some v)
    (htypes : ∀ x ∈ l, ∀ (i : Nat) type, x.1.parameterTypes[i]? = some type →
      σ.types (.arg x.2 i) = some type) :
    Fails (m.procedures set code)
        (l.flatMap (chooseOf code) ++ [.assertNotAll completion ((done ++ l).map (literalOf target))]) σ ↔
      (∀ x ∈ done, σ.Holds m.toValues (literalOf target x)) ∧
        ∀ x ∈ l, ∃ args, m.Fits x.1 args ∧ m.precondition x.1 v args = decide (x.1 ∈ target) := by
  induction l generalizing done σ with
  | nil =>
    rw [List.flatMap_nil, List.nil_append, List.append_nil, fails_assertNotAll, List.forall_mem_map]
    simp [ClassMeaning.procedures]
  | cons x l ih =>
    obtain ⟨hx, hl⟩ := List.forall_mem_cons.1 hl
    obtain ⟨hxtypes, htypes⟩ := List.forall_mem_cons.1 htypes
    have hmove : done ++ x :: l = (done ++ [x]) ++ l := by simp
    rw [List.flatMap_cons, List.append_assoc, fails_chooseOf_iff hcode hx hv hxtypes]
    rw [hmove] at hnodup ⊢
    -- the new arguments and the new flag leave what was evaluated before
    have hdone : ∀ args, ∀ y ∈ done, ((m.chosen v x args σ).Holds m.toValues (literalOf target y) ↔
        σ.Holds m.toValues (literalOf target y)) := by
      intro args y hy
      have hne : Var.pre y.2 ≠ .pre x.2 := by
        intro heq
        simp only [List.map_append, List.nodup_append] at hnodup
        exact hnodup.1.2.2 y.2 (List.mem_map_of_mem hy) x.2 (by simp) (Var.pre.inj heq)
      unfold Store.Holds literalOf ClassMeaning.chosen
      rw [Store.values_assign_of_ne _ _ hne]
      rfl
    have hstep : ∀ args, (Fails (m.procedures set code) (l.flatMap (chooseOf code) ++
        [.assertNotAll completion ((done ++ [x] ++ l).map (literalOf target))]) (m.chosen v x args σ) ↔
          ((∀ y ∈ done, σ.Holds m.toValues (literalOf target y)) ∧
            m.precondition x.1 v args = decide (x.1 ∈ target)) ∧
          ∀ y ∈ l, ∃ args, m.Fits y.1 args ∧ m.precondition y.1 v args = decide (y.1 ∈ target)) := by
      intro args
      have hreceiver : (m.chosen v x args σ).receiver = some v := hv
      refine (ih (done ++ [x]) hl hnodup hreceiver htypes).trans ?_
      rw [List.forall_mem_append, List.forall_mem_singleton]
      refine and_congr_left' (and_congr (forall₂_congr (hdone args)) ?_)
      exact Store.holds_assign_self m.toValues ..
    simp only [hstep, List.forall_mem_cons]
    constructor
    · rintro ⟨args, hfits, ⟨hholds, hpre⟩, hall⟩
      exact ⟨hholds, ⟨args, hfits, hpre⟩, hall⟩
    · rintro ⟨hholds, ⟨args, hfits, hpre⟩, hall⟩
      exact ⟨args, hfits, ⟨hholds, hpre⟩, hall⟩

/-- The conclusion fails exactly if the receiver has what is looked for. -/
theorem fails_conclusion_iff (hq : q.IsOver set) (hv : σ.receiver = some v)
    (htypes : ∀ a ∈ set.actions, ∀ (i : Nat) type, a.parameterTypes[i]? = some type →
      σ.types (.arg (set.number a) i) = some type) :
    Fails (m.procedures set code) (q.conclusion set code) σ ↔ m.Finds set q.kind v := by
  unfold Query.conclusion
  cases hkind : q.kind with
  | invariant completion =>
    rw [fails_callInvariant_iff hv, fails_assert]
    refine (not_congr (Store.holds_assign_self m.toValues ..)).trans ?_
    simp [ClassMeaning.Finds]
  | transition completion target =>
    have hmem : ∀ x ∈ set.actions.toList.zipIdx, x.1 ∈ set.actions ∧ x.2 = set.number x.1 :=
      fun x hx => ActionSet.mem_zipIdx_iff.1 hx
    have hnodup : (([] ++ set.actions.toList.zipIdx).map Prod.snd).Nodup := by
      simp [List.nodup_range']
    have hall := fails_assertNotAll_iff (m := m) hcode target completion []
      (fun x hx => (hmem x hx).1) hnodup hv
      fun x hx i type htype => by rw [(hmem x hx).2]; exact htypes x.1 (hmem x hx).1 i type htype
    refine hall.trans ⟨fun h a ha => ?_, fun h => ⟨by simp, fun x hx => h x.1 (hmem x hx).1⟩⟩
    exact h.2 (a, set.number a) (ActionSet.mem_zipIdx_iff.2 ⟨ha, rfl⟩)
  | necessity polarity scope tested =>
    have htested : tested ∈ set.actions := hq.mem_of_tested tested (by rw [Query.tested?, hkind])
    dsimp only
    rw [ActionSet.idxOf?_eq htested]
    have hchoose : Fails (m.procedures set code) (chooseOf code (tested, set.number tested) ++
        [.assert .normal ⟨polarity = .enabled, .pre (set.number tested)⟩]) σ ↔ _ :=
      fails_chooseOf_iff hcode htested hv (htypes tested htested)
    rw [chooseOf, List.append_assoc] at hchoose
    refine hchoose.trans (exists_congr fun args => and_congr_right fun _ => ?_)
    rw [fails_assert]
    refine (not_congr (Store.holds_assign_self m.toValues ..)).trans ?_
    cases polarity <;> simp

/-! ### The whole body -/

/-- What the lines after the declarations say. -/
theorem fails_afterDeclarations_iff (hq : q.IsOver set) (hσ : σ.Declares m.toValues (q.typedVars set)) :
    Fails (m.procedures set code) (.blank :: (q.assumptions set code ++ .blank :: q.mainCall set code ::
        (q.assumeCompletion ++ .blank :: q.conclusion set code))) σ ↔
      ∃ v, σ.receiver = some v ∧ m.invariant v = true ∧
        m.Matches set q v (fun a => σ.args (set.number a) a) ∧
        ∃ v', (m.body q.main v (σ.args (set.number q.main) q.main)).value? q.completion = some v' ∧
          m.Finds set q.kind v' := by
  have hmain : q.main ∈ set.actions := hq.mem_of_source _ q.main_mem_source
  rw [fails_blank]
  refine fails_assumptions_iff hcode fun v σ₁ hv hkeeps => ?_
  rw [fails_blank, ← hkeeps.args_eq]
  refine fails_mainCall_iff hcode hmain (hkeeps.receiver_eq.trans hv) (fun type htype => ?_)
    fun v' σ₂ hv' htypes => ?_
  · rw [hkeeps.types_eq]
    exact hσ.types_of htype
  · rw [fails_blank]
    refine fails_conclusion_iff hcode hq hv' fun a ha i type htype => ?_
    rw [htypes, hkeeps.types_eq]
    exact hσ.types_of ⟨a, ha, rfl, htype⟩

/-- The procedure of a query can fail exactly if there is what the query looks for. -/
theorem canFail_bodyLines_iff (m : ClassMeaning V D) (hq : q.IsOver set) :
    CanFail (m.procedures set code) (q.bodyLines set code) ↔ m.Asks set q := by
  have hlines : q.bodyLines set code = declares (q.typedVars set) ++ (.blank :: (q.assumptions set code ++
      .blank :: q.mainCall set code :: (q.assumeCompletion ++ .blank :: q.conclusion set code))) := by
    simp [Query.bodyLines, Query.declarations_eq]
  have hmain : q.main ∈ set.actions := hq.mem_of_source _ q.main_mem_source
  rw [hlines, canFail_declares_iff Query.typedVars_type_eq]
  constructor
  · rintro ⟨σ, hσ, hfails⟩
    obtain ⟨v, -, hinv, hmatches, hends⟩ := (fails_afterDeclarations_iff hcode hq hσ).1 hfails
    exact ⟨v, fun a => σ.args (set.number a) a, hinv, fun a ha => hσ.fits_args ha, hmatches, hends⟩
  · rintro ⟨v, args, hinv, hfits, hmatches, hends⟩
    obtain ⟨σ, hσ, hv, hargs⟩ := exists_declares hfits q v
    refine ⟨σ, hσ, (fails_afterDeclarations_iff hcode hq hσ).2 ⟨v, hv, hinv, fun a ha hasked => ?_, ?_⟩⟩
    · show m.precondition a v (σ.args (set.number a) a) = _
      rw [hargs a ha]
      exact hmatches a ha hasked
    · rwa [hargs q.main hmain]

end TellsApart

end Lines

end Enabledness
