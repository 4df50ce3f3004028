import Mathlib.Data.Set.Function
import Enabledness.Proofs.ProcedureLines
import Enabledness.Proofs.ProcedureText
import Enabledness.Proofs.QueryNames

/-!
# What the text of a procedure means

The text of a query's procedure, read line by line, is the list of its lines, provided that the names of
procedures are words and types and globals stand on one line.  With what these lines do, this says what
the text means.

* `Query.newline_not_mem_name` : the name of a query stands on one line.
* `isPlain_of_mem_bodyLines` : each line of the procedure can be read back.
* `Query.procedure_fails_iff_asks` : the procedure fails in some run exactly if there is what the query
  looks for, and its text reads as the lines that do so.
-/

namespace Enabledness

open Procedure

/-! ## The text of a procedure -/

/-- The text of a class in the language of the verifier can be read word by word and line by line. -/
structure ClassCode.IsPlain (code : ClassCode) (c : ClassTable) : Prop where
  isWord : ∀ op ∈ c.operations, IsWord (code.procedureName op).toList
  parameter : ∀ op ∈ c.operations, ∀ type ∈ op.parameterTypes, '\n' ∉ type.toList
  result : ∀ op ∈ c.operations, ∀ type ∈ op.returnType, '\n' ∉ type.toList
  modified : ∀ name ∈ code.modified, '\n' ∉ name.toList

section Text

variable {c : ClassTable} {set : ActionSet} {code : ClassCode} {q : Query}

theorem newline_not_mem_mangleChars {cs : List Char} (h : '\n' ∉ cs) : '\n' ∉ mangleChars cs := by
  induction cs with
  | nil => exact List.not_mem_nil
  | cons c cs ih =>
    unfold mangleChars
    split_ifs
    all_goals simp_all

theorem newline_not_mem_of_isIdentifier {name : String} (h : Text.isIdentifier name = true) :
    '\n' ∉ name.toList := by
  unfold Text.isIdentifier at h
  split at h
  · simp at h
  · next c cs hname =>
    rw [Bool.and_eq_true_iff, List.all_eq_true] at h
    rw [hname, List.mem_cons, not_or]
    constructor
    · rintro rfl
      exact absurd h.1 (by decide +kernel)
    · intro hmem
      exact absurd (h.2 _ hmem) (by decide +kernel)

/-- The name of a query about an accepted class stands on one line. -/
theorem Query.newline_not_mem_name (hset : c.actionSet = .ok set) (hq : q.IsOver set) :
    '\n' ∉ q.name.toList := by
  have haction : ∀ a ∈ set.actions, '\n' ∉ a.tag.toList := by
    intro a ha
    rw [a.toList_tag]
    exact newline_not_mem_mangleChars
      (newline_not_mem_of_isIdentifier (ClassTable.isIdentifier_of_mem_actions hset ha))
  have hstate : ∀ state : State, (∀ a ∈ state, a ∈ set.actions) → '\n' ∉ state.tag.toList := by
    intro state hstate
    rw [State.tag, String.toList_intercalate]
    refine not_mem_intercalate (by decide) fun w hw => ?_
    obtain ⟨_, htag, rfl⟩ := List.mem_map.1 hw
    obtain ⟨a, ha, rfl⟩ := List.mem_map.1 htag
    exact haction a (hstate a ha)
  have hcompletion : ∀ c : Completion, '\n' ∉ c.tag.toList := by
    intro c
    cases c
    all_goals decide
  have hpolarity : ∀ p : Polarity, '\n' ∉ p.tag.toList := by
    intro p
    cases p
    all_goals decide
  have hsource := hstate q.source hq.mem_of_source
  have hmain := haction q.main (hq.mem_of_source _ q.main_mem_source)
  unfold Query.name
  rcases hkind : q.kind with completion | ⟨completion, target⟩ | ⟨polarity, _ | _, tested⟩
  · simp [hcompletion, hsource, hmain]
  · have htarget := hstate target (hq.mem_of_target target (by rw [Query.target?, hkind]))
    simp [hcompletion, hsource, hmain, htarget]
  · have htested := haction tested (hq.mem_of_tested tested (by rw [Query.tested?, hkind]))
    simp [hpolarity, hsource, hmain, htested]
  · have htested := haction tested (hq.mem_of_tested tested (by rw [Query.tested?, hkind]))
    simp [hpolarity, hmain, htested]

/-- The lines of a procedure before the brace. -/
def Query.heading (q : Query) (code : ClassCode) : List (List Char) :=
  ("procedure " ++ q.name ++ "(this: Ref)").toList ::
    if code.modified.isEmpty then [] else [("  modifies " ++ ", ".intercalate code.modified ++ ";").toList]

/-- **The lines of a procedure.**  The heading, the body between braces and nothing else, whatever the
names and types of the class are. -/
theorem Query.toList_procedureText (q : Query) (set : ActionSet) (code : ClassCode) :
    (q.procedureText set code).toList =
      (q.heading code ++ ['\x7b'] :: ((q.bodyLines set code).map Line.chars ++ [['\x7d']])).flatMap
        (· ++ ['\n']) := by
  have hlines := flatMap_indented (q.bodyLines set code)
  unfold procedureText heading
  by_cases hnone : code.modified = []
  · simp [hnone, ← hlines]
  · simp [hnone, ← hlines]

section IsPlain

variable (hset : c.actionSet = .ok set) (hcode : code.IsPlain c)

include hset hcode

theorem isPlain_of_mem_declarations (hmain : q.main ∈ set.actions) :
    ∀ l ∈ q.declarations set, l.IsPlain := by
  have hop : ∀ a ∈ set.actions, a.operation ∈ c.operations :=
    fun a ha => (ClassTable.mem_operations_of_mem_actions hset ha).1
  intro l hl
  obtain ⟨x, type, rfl, hx⟩ := Query.mem_declarations_iff.1 hl
  show '\n' ∉ type.toList
  cases x with
  | inv =>
    obtain rfl : type = boolType := hx
    decide
  | pre k =>
    obtain ⟨rfl, -⟩ := hx
    decide
  | arg k i =>
    obtain ⟨a, ha, -, htype⟩ := hx
    exact hcode.parameter _ (hop a ha) type (List.mem_of_getElem? htype)
  | ret => exact hcode.result _ (hop q.main hmain) type hx

theorem Query.HasLine.isPlain (hmain : q.main ∈ set.actions) {l : Line} (hl : q.HasLine set code l) :
    l.IsPlain := by
  have hop : ∀ a ∈ set.actions, a.operation ∈ c.operations ∧ a.precondition ∈ c.operations :=
    fun a ha => ClassTable.mem_operations_of_mem_actions hset ha
  cases hl with
  | callInvariant => exact hcode.isWord _ (ClassTable.invariant_of_actionSet hset).1
  | callPrecondition ha => exact hcode.isWord _ (hop _ ha).2
  | mainCall => exact hcode.isWord _ (hop _ hmain).1
  | _ => trivial

/-- The lines of a procedure can be read back. -/
theorem isPlain_of_mem_bodyLines (hq : q.IsOver set) : ∀ l ∈ q.bodyLines set code, l.IsPlain := by
  have hmain : q.main ∈ set.actions := hq.mem_of_source _ q.main_mem_source
  rw [Query.bodyLines_eq]
  refine List.forall_mem_append.2 ⟨isPlain_of_mem_declarations hset hcode hmain, fun l hl => ?_⟩
  exact (Query.hasLine_of_mem_body hq l hl).isPlain hset hcode hmain

theorem readProcedure?_procedureText (hq : q.IsOver set) :
    readProcedure? (q.procedureText set code) = some (q.bodyLines set code) := by
  have hname := Query.newline_not_mem_name hset hq
  have hmodified : '\n' ∉ [',', ' '].intercalate (code.modified.map String.toList) :=
    not_mem_intercalate (by decide) (by simpa using hcode.modified)
  have hheading : ∀ line ∈ q.heading code, '\n' ∉ line ∧ line ≠ ['\x7b'] := by
    refine List.forall_mem_cons.2 ⟨by simp [hname], fun line hline => ?_⟩
    split at hline
    · exact absurd hline List.not_mem_nil
    · obtain rfl := List.mem_singleton.1 hline
      simpa using hmodified
  exact readProcedure?_eq (q.toList_procedureText set code) hheading
    (isPlain_of_mem_bodyLines hset hcode hq)

end IsPlain

/-- **A procedure means what its query asks.**  Take a class that is accepted, with its operations under
different names, and any reading of it.  Some run of the procedure of a query violates the assertion
exactly if there are a value with the invariant and arguments, with which the preconditions are as the
source of the query says, such that the main action with its arguments completes as asked in a value
that breaks the invariant, shows the target, or has the tested action other than claimed.  If the text of
the class is plain, the text of the procedure reads as these lines. -/
theorem Query.procedure_fails_iff_asks (hset : c.actionSet = .ok set)
    (hnames : Set.InjOn code.procedureName { op | op ∈ c.operations }) (hq : q.IsOver set) {V D : Type}
    (m : ClassMeaning V D) :
    (CanFail (m.procedures set code) (q.bodyLines set code) ↔ m.Asks set q) ∧
      (code.IsPlain c → readProcedure? (q.procedureText set code) = some (q.bodyLines set code)) := by
  have hcode := ClassCode.tellsApart_of_actionSet hset hnames
  exact ⟨canFail_bodyLines_iff hcode m hq, fun hplain => readProcedure?_procedureText hset hplain hq⟩

end Text

/-! ## A till -/

/-- A till that holds up to nine coins. -/
def tillClass : ClassTable where
  name := "Till"
  operations := [
    { qualifiedName := "Till#inv", returnType := some boolType },
    { qualifiedName := "Till#add", parameterTypes := ["int"] },
    { qualifiedName := "Till#add_pre", parameterTypes := ["int"], returnType := some boolType },
    { qualifiedName := "Till#take", returnType := some "int" },
    { qualifiedName := "Till#take_pre", returnType := some boolType }]

/-- To put coins into the till. -/
def tillAdd : Action where
  precondition := { qualifiedName := "Till#add_pre", parameterTypes := ["int"], returnType := some boolType }
  operation := { qualifiedName := "Till#add", parameterTypes := ["int"] }

/-- To take a coin out of the till. -/
def tillTake : Action where
  precondition := { qualifiedName := "Till#take_pre", returnType := some boolType }
  operation := { qualifiedName := "Till#take", returnType := some "int" }

/-- The actions of the till. -/
def tillSet : ActionSet :=
  ⟨.ofList [tillAdd, tillTake], { qualifiedName := "Till#inv", returnType := some boolType }⟩

/-- The code of the till. -/
def tillCode : ClassCode := ⟨"", fun _ => "", ClassCode.defaultProcedureName, ["coins"]⟩

/-- Can coins that are put into a till, which has room and is not empty, fill it? -/
def tillQuery : Query :=
  ⟨.ofList [tillAdd, tillTake], tillAdd, .transition .normal (.ofList [tillTake]), by decide⟩

/-- Numbers, with 0 and 1 for the truth values. -/
def tillValues : Values Nat where
  truth := Bool.toNat
  belongs type n := type = boolType → n ≤ 1
  truth_ne := by decide
  belongs_bool n := by
    constructor
    · intro h
      have hn := h rfl
      obtain rfl | rfl : n = 0 ∨ n = 1 := by omega
      · exact ⟨false, rfl⟩
      · exact ⟨true, rfl⟩
    · rintro ⟨b, rfl⟩ -
      exact Bool.toNat_le b
  inhabited _ := ⟨0, fun _ => Nat.zero_le 1⟩

/-- What the till does: coins that have no room are refused by an exception. -/
def tillMeaning : ClassMeaning Nat Nat where
  toValues := tillValues
  invariant v := v ≤ 9
  precondition a v args := if a = tillAdd then v + args.headD 0 ≤ 9 else 0 < v
  body a v args :=
    if a = tillAdd then if v + args.headD 0 ≤ 9 then .returns (v + args.headD 0) else .throws v
    else .returns (v - 1)

/-- The procedure about filling the till can fail: one coin is in the till and eight are added. -/
theorem Query.procedure_fails_till : tillClass.actionSet = .ok tillSet ∧
    Set.InjOn tillCode.procedureName { op | op ∈ tillClass.operations } ∧ tillQuery.IsOver tillSet ∧
    CanFail (tillMeaning.procedures tillSet tillCode) (tillQuery.bodyLines tillSet tillCode) ∧
    readProcedure? (tillQuery.procedureText tillSet tillCode) =
      some (tillQuery.bodyLines tillSet tillCode) := by
  have hset : tillClass.actionSet = .ok tillSet := rfl
  have hnames : Set.InjOn tillCode.procedureName { op | op ∈ tillClass.operations } := by
    have hall : ∀ op ∈ tillClass.operations, ∀ op' ∈ tillClass.operations,
        tillCode.procedureName op = tillCode.procedureName op' → op = op' := by decide
    exact fun op hop op' hop' h => hall op hop op' hop' h
  have hq : tillQuery.IsOver tillSet :=
    Query.isOver_of_transition (q := tillQuery) (fun a ha => ha) rfl (by decide)
  have hasks : tillMeaning.Asks tillSet tillQuery := by
    have hmem : ∀ a ∈ tillSet.actions, a = tillAdd ∨ a = tillTake := by decide
    have hint : ∀ n, tillValues.belongs "int" n := fun n h => absurd h (by decide)
    refine ⟨1, fun a => if a = tillAdd then [8] else [], rfl, fun a ha => ?_, fun a ha _ => ?_, 9, rfl,
      fun a ha => ?_⟩
    · rcases hmem a ha with rfl | rfl
      · exact .cons (hint 8) .nil
      · exact .nil
    · rcases hmem a ha with rfl | rfl
      · decide
      · decide
    · rcases hmem a ha with rfl | rfl
      · exact ⟨[1], .cons (hint 1) .nil, by decide⟩
      · exact ⟨[], .nil, by decide⟩
  have hplain : tillCode.IsPlain tillClass := by
    refine ⟨by decide, by decide, by decide, by decide⟩
  obtain ⟨hfails, htext⟩ := Query.procedure_fails_iff_asks hset hnames hq tillMeaning
  exact ⟨hset, hnames, hq, hfails.2 hasks, htext hplain⟩

end Enabledness
