import Mathlib.Data.List.Nodup
import Enabledness.Proofs.ClassRules
import Enabledness.Proofs.ProcedureMeaning

/-!
# Variables and calls of a procedure

The procedure of a query declares each of its variables once, and before all lines that use it, with the
type that the class gives it.  Each call fits the operation that is called: the arguments are variables of
the types of its parameters, as many as there are parameters, and the result goes into a variable of the
type of its result.  For a precondition, which is called with the arguments of its action, this rests on the
rules for classes.

* `Query.nodup_typedVars` : no variable is declared twice.
* `Query.HasLine.exists_type` : the lines after the declarations use variables of the procedure only.
* `Query.Calls`, `Query.CallFits` : the calls of a procedure, and what makes a call fit an operation.
* `Query.procedure_well_scoped` : both facts for the procedure of every query about an accepted class.
-/

namespace Enabledness

namespace Procedure

/-! ## Variables of a line -/

/-- The variables that a line uses; a declaration uses none. -/
def Line.vars : Line → List Var
  | .declare _ _ => []
  | .blank => []
  | .assumeReceiver => []
  | .call result _ args => result.toList ++ args
  | .assume condition => [condition.var]
  | .assumeReturned => []
  | .assumeThrown => []
  | .clearException => []
  | .havoc vars => vars
  | .assert _ condition => [condition.var]
  | .assertNotAll _ conditions => conditions.map Literal.var

/-- The line declares a variable of this name. -/
def Line.declaresName (name : String) : Line → Bool
  | .declare x _ => x.text = name
  | _ => false

theorem Var.text_injective : Function.Injective Var.text := by
  intro x y h
  have hread := readVar?_text x
  rw [h, readVar?_text] at hread
  exact (Option.some.inj hread).symm

/-- If no variable is declared twice, each one is declared by one line. -/
theorem filter_declares {l : List (Var × String)} (hnodup : (l.map Prod.fst).Nodup) {x : Var}
    {type : String} (hx : (x, type) ∈ l) :
    (declares l).filter (Line.declaresName x.text) = [.declare x type] := by
  obtain ⟨before, after, rfl⟩ := List.append_of_mem hx
  rw [List.map_append, List.map_cons, List.nodup_middle, List.nodup_cons, ← List.map_append] at hnodup
  have hothers : ∀ ys ⊆ before ++ after, (declares ys).filter (Line.declaresName x.text) = [] := by
    intro ys hys
    refine List.filter_eq_nil_iff.2 fun line hline hname => ?_
    obtain ⟨y, hy, rfl⟩ := List.mem_map.1 hline
    have heq : y.1 = x := Var.text_injective (of_decide_eq_true hname)
    exact hnodup.1 (List.mem_map.2 ⟨y, hys hy, heq⟩)
  have hsplit : declares (before ++ (x, type) :: after) =
      declares before ++ .declare x type :: declares after := by
    simp [declares]
  rw [hsplit, List.filter_append, List.filter_cons_of_pos (by simp [Line.declaresName]),
    hothers before (List.subset_append_left _ _), hothers after (List.subset_append_right _ _)]
  rfl

/-! ## Text of a call -/

theorem intercalate_cons_eq (separator first : String) (rest : List String) :
    separator.intercalate (first :: rest) = first ++ String.join (rest.map fun s => separator ++ s) := by
  induction rest generalizing first with
  | nil => simp
  | cons second rest ih => simp [String.intercalate_cons_cons, ih, String.append_assoc]

/-- The variable that keeps the result of a call, as text. -/
def resultText : Option Var → String
  | some x => x.text ++ " := "
  | none => ""

/-- A call passes the receiver and then the arguments. -/
theorem text_call (result : Option Var) (name : String) (args : List Var) :
    (Line.call result name args).text = "call " ++ resultText result ++ name ++ "(" ++
      ", ".intercalate ("this" :: args.map Var.text) ++ ");" := by
  have hthis : ∀ s, "(this" ++ s = "(" ++ ("this" ++ s) := by
    intro s
    rw [← String.append_assoc]
    rfl
  rw [intercalate_cons_eq, List.map_map]
  cases result with
  | none => simp [Line.text, resultText, Function.comp_def, String.append_assoc, hthis]
  | some x => simp [Line.text, resultText, Function.comp_def, String.append_assoc, hthis]

theorem length_argVars (k : Nat) (a : Action) : (argVars k a).length = a.parameterTypes.length := by
  simp [argVars]

end Procedure

open Procedure

namespace Query

variable {c : ClassTable} {q : Query} {set : ActionSet} {code : ClassCode}

/-! ## Each variable is declared once -/

theorem map_fst_typedVarsOf (x : Action × Nat) :
    (typedVarsOf x).map Prod.fst = .pre x.2 :: argVars x.2 x.1 := by
  have hargs : x.1.parameterTypes.zipIdx.map (fun p => Var.arg x.2 p.2) =
      (x.1.parameterTypes.zipIdx.map Prod.snd).map (Var.arg x.2) := by
    rw [List.map_map]
    rfl
  rw [typedVarsOf, List.map_cons, List.map_map, argVars, List.range_eq_range', ← List.zipIdx_map_snd,
    ← hargs]
  rfl

/-- Actions with different numbers share no variables. -/
theorem disjoint_vars_of_ne {x y : Action × Nat} (h : x.2 ≠ y.2) :
    List.Disjoint (Var.pre x.2 :: argVars x.2 x.1) (Var.pre y.2 :: argVars y.2 y.1) := by
  intro z hx hy
  rw [List.mem_cons, mem_argVars] at hx hy
  rcases hx with rfl | ⟨i, -, rfl⟩
  · rcases hy with heq | ⟨_, -, heq⟩
    · exact h (Var.pre.inj heq)
    · simp at heq
  · rcases hy with heq | ⟨_, -, heq⟩
    · simp at heq
    · exact h (Var.arg.inj heq).1

/-- No variable is declared twice. -/
theorem nodup_typedVars : ((q.typedVars set).map Prod.fst).Nodup := by
  have hactions : (set.actions.toList.zipIdx.flatMap fun x => Var.pre x.2 :: argVars x.2 x.1).Nodup := by
    rw [List.nodup_flatMap]
    constructor
    · intro x _
      refine List.nodup_cons.2 ⟨fun hmem => ?_, List.nodup_range.map fun i j h => (Var.arg.inj h).2⟩
      obtain ⟨_, -, heq⟩ := mem_argVars.1 hmem
      simp at heq
    · have hnumbers : (set.actions.toList.zipIdx.map Prod.snd).Nodup := by
        rw [List.zipIdx_map_snd]
        exact List.nodup_range'
      exact (List.pairwise_map.1 hnumbers).imp disjoint_vars_of_ne
  have hvars : (q.typedVars set).map Prod.fst =
      .inv :: (set.actions.toList.zipIdx.flatMap fun x => Var.pre x.2 :: argVars x.2 x.1) ++
        q.main.operation.returnType.toList.map fun _ => .ret := by
    simp [typedVars, List.map_flatMap, map_fst_typedVarsOf]
  have hkinds : ∀ x ∈ set.actions.toList.zipIdx.flatMap fun x => Var.pre x.2 :: argVars x.2 x.1,
      x ≠ .inv ∧ x ≠ .ret := by
    intro x hx
    obtain ⟨y, -, hx⟩ := List.mem_flatMap.1 hx
    rw [List.mem_cons, mem_argVars] at hx
    rcases hx with rfl | ⟨_, -, rfl⟩
    · simp
    · simp
  rw [hvars, List.cons_append, List.nodup_cons, List.nodup_append]
  refine ⟨fun hmem => ?_, hactions, ?_, fun x hx y hy heq => ?_⟩
  · rcases List.mem_append.1 hmem with hx | hx
    · exact (hkinds _ hx).1 rfl
    · simp at hx
  · cases q.main.operation.returnType with
    | none => exact List.nodup_nil
    | some type => exact List.nodup_singleton _
  · obtain ⟨_, -, rfl⟩ := List.mem_map.1 hy
    exact (hkinds _ hx).2 heq

theorem filter_declarations {x : Var} {type : String} (hx : q.IsVariable set x type) :
    (q.declarations set).filter (Line.declaresName x.text) = [.declare x type] := by
  rw [declarations_eq]
  exact filter_declares nodup_typedVars (mem_typedVars.2 hx)

/-! ## Lines after the declarations -/

theorem isVariable_of_isFlag {x : Var} (hx : set.IsFlag x) : q.IsVariable set x boolType := by
  cases x with
  | inv => rfl
  | pre k => exact ⟨rfl, hx⟩
  | arg k i => exact hx.elim
  | ret => exact hx.elim

theorem exists_type_of_mem_argVars {a : Action} (ha : a ∈ set.actions) {x : Var}
    (hx : x ∈ argVars (set.number a) a) : ∃ type, q.IsVariable set x type := by
  obtain ⟨i, hi, rfl⟩ := mem_argVars.1 hx
  exact ⟨_, a, ha, rfl, List.getElem?_eq_getElem hi⟩

/-- The lines after the declarations use variables of the procedure only. -/
theorem HasLine.exists_type (hmain : q.main ∈ set.actions) {l : Line} (hl : q.HasLine set code l) {x : Var}
    (hx : x ∈ l.vars) : ∃ type, q.IsVariable set x type := by
  cases hl with
  | blank => exact absurd hx List.not_mem_nil
  | assumeReceiver => exact absurd hx List.not_mem_nil
  | callInvariant =>
    obtain rfl : x = .inv := List.mem_singleton.1 hx
    exact ⟨boolType, rfl⟩
  | callPrecondition ha =>
    rcases List.mem_cons.1 hx with rfl | hx
    · exact ⟨boolType, rfl, _, ha, rfl⟩
    · exact exists_type_of_mem_argVars ha hx
  | assume hflag =>
    obtain rfl := List.mem_singleton.1 hx
    exact ⟨boolType, isVariable_of_isFlag hflag⟩
  | mainCall =>
    rcases List.mem_append.1 hx with hx | hx
    · obtain ⟨type, htype, rfl⟩ := Option.map_eq_some_iff.1 (Option.mem_toList.1 hx)
      exact ⟨type, htype⟩
    · exact exists_type_of_mem_argVars hmain hx
  | assumeReturned => exact absurd hx List.not_mem_nil
  | assumeThrown => exact absurd hx List.not_mem_nil
  | clearException => exact absurd hx List.not_mem_nil
  | havoc ha => exact exists_type_of_mem_argVars ha hx
  | assert hflag =>
    obtain rfl := List.mem_singleton.1 hx
    exact ⟨boolType, isVariable_of_isFlag hflag⟩
  | assertNotAll hflags =>
    obtain ⟨literal, hliteral, rfl⟩ := List.mem_map.1 hx
    exact ⟨boolType, isVariable_of_isFlag (hflags literal hliteral)⟩

theorem HasLine.declaresName_eq_false {l : Line} (hl : q.HasLine set code l) (name : String) :
    l.declaresName name = false := by
  cases hl with
  | _ => rfl

/-- What is declared are the variables of the procedure, with their types. -/
theorem declare_mem_bodyLines_iff (hq : q.IsOver set) {x : Var} {type : String} :
    .declare x type ∈ q.bodyLines set code ↔ q.IsVariable set x type := by
  rw [bodyLines_eq, List.mem_append, mem_declarations_iff]
  constructor
  · rintro (⟨_, _, heq, hx⟩ | hbody)
    · obtain ⟨rfl, rfl⟩ := Line.declare.inj heq
      exact hx
    · have hname := (hasLine_of_mem_body hq _ hbody).declaresName_eq_false x.text
      simp [Line.declaresName] at hname
  · intro hx
    exact .inl ⟨x, type, rfl, hx⟩

/-- A line that uses a variable stands after the declarations. -/
theorem exists_append_of_mem_vars {before after : List Line} {line : Line}
    (hlines : q.bodyLines set code = before ++ line :: after) {x : Var} (hx : x ∈ line.vars) :
    ∃ between, before = q.declarations set ++ between ∧ q.body set code = between ++ line :: after := by
  rw [bodyLines_eq, List.append_eq_append_iff] at hlines
  rcases hlines with hbody | ⟨rest, hdeclarations, hrest⟩
  · exact hbody
  · cases rest with
    | nil =>
      refine ⟨[], ?_, hrest.symm⟩
      rw [hdeclarations, List.append_nil, List.append_nil]
    | cons first rest =>
      -- the line would be a declaration, which uses no variables
      obtain ⟨rfl, -⟩ := List.cons.inj hrest
      have hmem : line ∈ q.declarations set := by
        rw [hdeclarations]
        exact List.mem_append_right _ List.mem_cons_self
      obtain ⟨_, _, rfl, -⟩ := mem_declarations_iff.1 hmem
      exact absurd hx List.not_mem_nil

/-- **Each variable that a line uses is declared** by one line before it, and by no other line. -/
theorem declared_before_use (hq : q.IsOver set) {before after : List Line} {line : Line}
    (hlines : q.bodyLines set code = before ++ line :: after) {x : Var} (hx : x ∈ line.vars) :
    ∃ type, q.IsVariable set x type ∧
      before.filter (Line.declaresName x.text) = [.declare x type] ∧
      after.filter (Line.declaresName x.text) = [] := by
  have hmain : q.main ∈ set.actions := hq.mem_of_source _ q.main_mem_source
  obtain ⟨between, rfl, hbody⟩ := exists_append_of_mem_vars hlines hx
  have hforms : ∀ l ∈ between ++ line :: after, q.HasLine set code l := by
    rw [← hbody]
    exact hasLine_of_mem_body hq
  obtain ⟨type, htype⟩ :=
    (hforms line (List.mem_append_right _ List.mem_cons_self)).exists_type hmain hx
  have hnone : ∀ ls ⊆ between ++ line :: after, ls.filter (Line.declaresName x.text) = [] := by
    intro ls hls
    refine List.filter_eq_nil_iff.2 fun l hl => ?_
    rw [(hforms l (hls hl)).declaresName_eq_false]
    exact Bool.false_ne_true
  have hafter : after ⊆ between ++ line :: after := fun l hl =>
    List.mem_append_right _ (List.mem_cons_of_mem _ hl)
  refine ⟨type, htype, ?_, hnone after hafter⟩
  rw [List.filter_append, filter_declarations htype, hnone between (List.subset_append_left _ _),
    List.append_nil]

/-! ## Calls -/

/-- The calls of a procedure: where the result goes, what is called, and with which arguments. -/
inductive Calls (q : Query) (set : ActionSet) : Option Var → Operation → List Var → Prop
  | invariant : Calls q set (some .inv) set.invariant []
  | precondition {a : Action} (ha : a ∈ set.actions) :
      Calls q set (some (.pre (set.number a))) a.precondition (argVars (set.number a) a)
  | main : Calls q set (q.main.operation.returnType.map fun _ => .ret) q.main.operation
      (argVars (set.number q.main) q.main)

/-- A call fits an operation. -/
structure CallFits (q : Query) (set : ActionSet) (result : Option Var) (op : Operation)
    (args : List Var) : Prop where
  length_eq : args.length = op.parameterTypes.length
  isVariable_arg : ∀ (i : Nat) (x : Var) (type : String),
    args[i]? = some x → op.parameterTypes[i]? = some type → q.IsVariable set x type
  isVariable_result : ∀ x ∈ result, ∃ type, op.returnType = some type ∧ q.IsVariable set x type

theorem calls_of_hasLine {result : Option Var} {name : String} {args : List Var}
    (h : q.HasLine set code (.call result name args)) :
    ∃ op, q.Calls set result op args ∧ name = code.procedureName op := by
  cases h with
  | callInvariant => exact ⟨_, .invariant, rfl⟩
  | callPrecondition ha => exact ⟨_, .precondition ha, rfl⟩
  | mainCall => exact ⟨_, .main, rfl⟩

/-- The arguments of an action have the types of its parameters. -/
theorem isVariable_of_getElem?_argVars {a : Action} (ha : a ∈ set.actions) {i : Nat} {x : Var}
    {type : String} (hx : (argVars (set.number a) a)[i]? = some x)
    (htype : a.parameterTypes[i]? = some type) : q.IsVariable set x type := by
  have hi : i < a.parameterTypes.length := (List.getElem?_eq_some_iff.1 htype).1
  rw [getElem?_argVars, if_pos hi] at hx
  obtain rfl := Option.some.inj hx
  exact ⟨a, ha, rfl, htype⟩

/-- The calls of a procedure about an accepted class fit the operations that are called. -/
theorem Calls.fits (hset : c.actionSet = .ok set) (hmain : q.main ∈ set.actions) {result : Option Var}
    {op : Operation} {args : List Var} (h : q.Calls set result op args) :
    q.CallFits set result op args := by
  cases h with
  | invariant =>
    have hinv : c.HasInvariant set.invariant := (ClassTable.actionSet_eq_ok_iff.1 hset).1
    refine ⟨?_, fun i x type hx => ?_, fun x hx => ?_⟩
    · rw [hinv.parameterTypes_eq]
      rfl
    · simp at hx
    · obtain rfl := Option.some.inj hx
      exact ⟨boolType, eq_of_beq hinv.returnsBool, rfl⟩
  | @precondition a ha =>
    obtain ⟨_, hguarded⟩ := (ClassTable.mem_actions_iff_isGuarded hset).1 ha
    refine ⟨?_, fun i x type hx htype => ?_, fun x hx => ?_⟩
    · rw [length_argVars, ← hguarded.parameterTypes_eq]
      rfl
    · rw [← hguarded.parameterTypes_eq] at htype
      exact isVariable_of_getElem?_argVars ha hx htype
    · obtain rfl := Option.some.inj hx
      exact ⟨boolType, eq_of_beq hguarded.returnsBool, rfl, a, ha, rfl⟩
  | main =>
    refine ⟨length_argVars _ _, fun i x type hx htype => ?_, fun x hx => ?_⟩
    · exact isVariable_of_getElem?_argVars hmain hx htype
    · obtain ⟨type, htype, rfl⟩ := Option.map_eq_some_iff.1 hx
      exact ⟨type, htype, htype⟩

/-- **Procedures are well formed.**  Each variable that a line uses is declared by exactly one line, which
stands before it; what is declared are `$inv`, the preconditions and the arguments of the actions and the
result of the main action, with their types; and each call passes the receiver and as many arguments as the
operation has parameters, of their types.  These lines, between braces and after a heading, are the text of
the procedure, and if the text of the class is plain, they are what the text reads as. -/
theorem procedure_well_scoped (hset : c.actionSet = .ok set) (code : ClassCode) (hq : q.IsOver set) :
    (∀ before line after, q.bodyLines set code = before ++ line :: after → ∀ x ∈ line.vars,
      ∃ type, q.IsVariable set x type ∧
        before.filter (Line.declaresName x.text) = [.declare x type] ∧
        after.filter (Line.declaresName x.text) = []) ∧
    (∀ x type, .declare x type ∈ q.bodyLines set code ↔ q.IsVariable set x type) ∧
    (∀ result name args, .call result name args ∈ q.bodyLines set code →
      ∃ op, q.Calls set result op args ∧ q.CallFits set result op args ∧
        name = code.procedureName op ∧
        (Line.call result name args).text = "call " ++ resultText result ++ name ++ "(" ++
          ", ".intercalate ("this" :: args.map Var.text) ++ ");") ∧
    (q.procedureText set code).toList =
      (q.heading code ++ ['\x7b'] :: ((q.bodyLines set code).map Line.chars ++ [['\x7d']])).flatMap
        (· ++ ['\n']) ∧
    (code.IsPlain c → readProcedure? (q.procedureText set code) = some (q.bodyLines set code)) := by
  have hmain : q.main ∈ set.actions := hq.mem_of_source _ q.main_mem_source
  refine ⟨fun _ _ _ hlines _ hx => declared_before_use hq hlines hx,
    fun _ _ => declare_mem_bodyLines_iff hq, fun result name args hcall => ?_,
    q.toList_procedureText set code, fun hplain => readProcedure?_procedureText hset hplain hq⟩
  rw [bodyLines_eq, List.mem_append, mem_declarations_iff] at hcall
  rcases hcall with ⟨_, _, heq, -⟩ | hbody
  · simp at heq
  · obtain ⟨op, hcalls, hname⟩ := calls_of_hasLine (hasLine_of_mem_body hq _ hbody)
    exact ⟨op, hcalls, hcalls.fits hset hmain, hname, text_call _ _ _⟩

/-- In the procedure about filling the till, `$a0_0` is declared as an integer by one line before the main
call, which passes it, and the precondition gets it too; and so the text of the procedure reads. -/
theorem procedure_well_scoped_till : tillClass.actionSet = .ok tillSet ∧ tillQuery.IsOver tillSet ∧
    (∃ before after, tillQuery.bodyLines tillSet tillCode =
        before ++ .call none "Till$add" [.arg 0 0] :: after ∧
      before.filter (Line.declaresName "$a0_0") = [.declare (.arg 0 0) "int"]) ∧
    (∃ op, "Till$add_pre" = tillCode.procedureName op ∧
      tillQuery.CallFits tillSet (some (.pre 0)) op [.arg 0 0]) ∧
    readProcedure? (tillQuery.procedureText tillSet tillCode) =
      some (tillQuery.bodyLines tillSet tillCode) := by
  have hset : tillClass.actionSet = .ok tillSet := rfl
  have hq : tillQuery.IsOver tillSet :=
    isOver_of_transition (q := tillQuery) (fun a ha => ha) rfl (by decide)
  obtain ⟨hvars, -, hcalls, -, htext⟩ := procedure_well_scoped hset tillCode hq
  refine ⟨hset, hq, ?_, ?_, htext ⟨by decide, by decide, by decide, by decide⟩⟩
  · have hmem : Line.call none "Till$add" [.arg 0 0] ∈ tillQuery.bodyLines tillSet tillCode := by decide
    obtain ⟨before, after, hlines⟩ := List.append_of_mem hmem
    obtain ⟨type, htype, hbefore, -⟩ := hvars before _ after hlines (.arg 0 0) List.mem_cons_self
    have hint : tillQuery.IsVariable tillSet (.arg 0 0) "int" := ⟨tillAdd, by decide, rfl, rfl⟩
    obtain rfl := hint.type_eq htype
    exact ⟨before, after, hlines, hbefore⟩
  · obtain ⟨op, -, hfits, hname, -⟩ := hcalls (some (.pre 0)) "Till$add_pre" [.arg 0 0] (by decide)
    exact ⟨op, hname, hfits⟩

end Query

end Enabledness
