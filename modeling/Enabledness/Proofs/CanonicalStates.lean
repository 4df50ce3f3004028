import Mathlib.Data.Finset.Card
import Mathlib.Order.Defs.Unbundled
import Enabledness.Proofs.Candidates

/-!
# States are canonical

A state is known by its actions, and its actions stand in an order that depends on nothing else.  The
order is built in layers: texts by their code points, operations by their parts, actions by their
operations, states by their actions.

* `TextBefore`, `Operation.Before`, `Action.Before`, `State.Before` : the orders, said without the
  comparisons.
* `Decides` : a comparison tells a strict total order, and says that values are equal if they are the same.
* `Decides.of_lt_iff` : for a lawful comparison it is enough to know when it says that a value comes first;
  `compare_list_eq_lt_iff` and `compareLex_eq_lt_iff` carry this through the layers.
* `states_canonical` : the three comparisons, and what a state is made of.
-/

namespace Enabledness

open Std

/-! ## The orders -/

/-- Texts are ordered by the first code point in which they differ, and a text stands behind its
beginnings. -/
def TextBefore (s t : String) : Prop := List.Lex (fun c d => c.toNat < d.toNat) s.toList t.toList

/-- Operations are ordered by qualified name, then instance before static, then by the types of the
parameters, then by the type of the result, where none comes first. -/
def Operation.Before (a b : Operation) : Prop :=
  TextBefore a.qualifiedName b.qualifiedName ∨ a.qualifiedName = b.qualifiedName ∧
    ((a.isStatic = false ∧ b.isStatic = true) ∨ a.isStatic = b.isStatic ∧
      (List.Lex TextBefore a.parameterTypes b.parameterTypes ∨ a.parameterTypes = b.parameterTypes ∧
        Option.lt TextBefore a.returnType b.returnType))

/-- Actions are ordered by operation, then by precondition. -/
def Action.Before (a b : Action) : Prop :=
  a.operation.Before b.operation ∨ a.operation = b.operation ∧ a.precondition.Before b.precondition

/-- States are ordered by the first action in which they differ, where the actions of each stand in
their order. -/
def State.Before (s t : State) : Prop := List.Lex Action.Before s.toList t.toList

/-! ## Comparisons -/

/-- A comparison tells which of two values comes first in a strict total order, and that they are equal
if they are the same. -/
structure Decides {α : Type} (cmp : α → α → Ordering) (before : α → α → Prop) : Prop where
  strictTotal : IsStrictTotalOrder α before
  lt_iff : ∀ a b, cmp a b = .lt ↔ before a b
  eq_iff : ∀ a b, cmp a b = .eq ↔ a = b
  gt_iff : ∀ a b, cmp a b = .gt ↔ before b a

section Layers

variable {α : Type} [Ord α] [LawfulEqOrd α]

/-- What a lawful comparison puts first makes a strict total order. -/
theorem Decides.of_lt_iff [TransOrd α] {before : α → α → Prop}
    (h : ∀ a b : α, compare a b = .lt ↔ before a b) : Decides (compare : α → α → Ordering) before where
  strictTotal :=
    { trichotomous := by
        intro a b hab hba
        rw [← h] at hab hba
        rw [← OrientedCmp.gt_iff_lt] at hba
        apply LawfulEqOrd.eq_of_compare
        cases hcmp : compare a b with
        | lt => exact absurd hcmp hab
        | eq => rfl
        | gt => exact absurd hcmp hba
      irrefl := by
        intro a haa
        rw [← h, compare_self] at haa
        simp at haa
      trans := by
        intro a b c hab hbc
        rw [← h] at hab hbc ⊢
        exact TransCmp.lt_trans hab hbc }
  lt_iff := h
  eq_iff a b := LawfulEqOrd.compare_eq_iff_eq
  gt_iff a b := OrientedCmp.gt_iff_lt.trans (h b a)

/-- Lists are compared by their first difference. -/
theorem compare_list_eq_lt_iff {before : α → α → Prop} (h : ∀ a b : α, compare a b = .lt ↔ before a b)
    (l m : List α) : compare l m = .lt ↔ List.Lex before l m := by
  induction l generalizing m with
  | nil =>
    cases m with
    | nil => simp
    | cons b m => simp
  | cons a l ih =>
    cases m with
    | nil => simp
    | cons b m =>
      rw [List.compare_cons_cons, Ordering.then_eq_lt, LawfulEqOrd.compare_eq_iff_eq, h, ih,
        List.cons_lex_cons_iff]

omit [LawfulEqOrd α] in
/-- No value comes before all values. -/
theorem compare_option_eq_lt_iff {before : α → α → Prop}
    (h : ∀ a b : α, compare a b = .lt ↔ before a b) (x y : Option α) :
    compare x y = .lt ↔ Option.lt before x y := by
  cases x with
  | none =>
    cases y with
    | none => exact iff_of_false (fun hlt => nomatch hlt) id
    | some b => exact iff_of_true rfl trivial
  | some a =>
    cases y with
    | none => exact iff_of_false (fun hlt => nomatch hlt) id
    | some b => exact h a b

omit [Ord α] [LawfulEqOrd α] in
/-- Values are compared by one part, and by the others if that is the same. -/
theorem compareLex_eq_lt_iff {β : Type} [Ord β] [LawfulEqOrd β] {part : α → β} {before : β → β → Prop}
    (h : ∀ a b : β, compare a b = .lt ↔ before a b) (cmp : α → α → Ordering) (a b : α) :
    compareLex (compareOn part) cmp a b = .lt ↔
      before (part a) (part b) ∨ part a = part b ∧ cmp a b = .lt := by
  rw [compareLex, Ordering.then_eq_lt, compareOn, LawfulEqOrd.compare_eq_iff_eq, h]

end Layers

theorem compare_string_eq_lt_iff (s t : String) : compare s t = .lt ↔ TextBefore s t := by
  have hlt : compare s t = .lt ↔ s < t := compareOfLessAndEq_eq_lt
  rw [hlt, String.lt_iff]
  rfl

theorem Operation.compare_eq_lt_iff (a b : Operation) : compare a b = .lt ↔ a.Before b := by
  have hbool : ∀ x y : Bool, compare x y = .lt ↔ x = false ∧ y = true := by decide
  have hresult : compareOn returnType a b = .lt ↔ Option.lt TextBefore a.returnType b.returnType :=
    compare_option_eq_lt_iff compare_string_eq_lt_iff _ _
  show compareLex _ _ a b = .lt ↔ _
  rw [compareLex_eq_lt_iff compare_string_eq_lt_iff, compareLex_eq_lt_iff hbool,
    compareLex_eq_lt_iff (compare_list_eq_lt_iff compare_string_eq_lt_iff), hresult]
  rfl

theorem Action.compare_eq_lt_iff (a b : Action) : compare a b = .lt ↔ a.Before b := by
  have hprecondition : compareOn precondition a b = .lt ↔ a.precondition.Before b.precondition :=
    Operation.compare_eq_lt_iff _ _
  show compareLex _ _ a b = .lt ↔ _
  rw [compareLex_eq_lt_iff Operation.compare_eq_lt_iff, hprecondition]
  rfl

theorem State.compare_eq_lt_iff (s t : State) : compare s t = .lt ↔ s.Before t :=
  compare_list_eq_lt_iff Action.compare_eq_lt_iff s.toList t.toList

/-! ## What a state is made of -/

namespace State

variable {l l' : List Action}

/-- Lists of the same actions make the same state. -/
theorem ofList_eq_iff : (SortedSet.ofList l : State) = .ofList l' ↔ ∀ a, a ∈ l ↔ a ∈ l' := by
  constructor
  · intro h a
    rw [← SortedSet.mem_ofList, h, SortedSet.mem_ofList]
  · intro h
    apply SortedSet.ext_mem
    intro a
    rw [SortedSet.mem_ofList, SortedSet.mem_ofList, h]

/-- The actions of a state stand in their order. -/
theorem pairwise_before (s : State) : s.toList.Pairwise Action.Before :=
  s.increasing.imp fun {a b} h => (Action.compare_eq_lt_iff a b).1 h

/-- A state made of a list has each of its actions once. -/
theorem count_toList_ofList (l : List Action) (a : Action) :
    (SortedSet.ofList l : State).toList.count a = if a ∈ l then 1 else 0 := by
  split
  · next h => exact List.count_eq_one_of_mem (SortedSet.nodup_toList _) (SortedSet.mem_ofList.2 h)
  · next h => exact List.count_eq_zero.2 fun hm => h (SortedSet.mem_ofList.1 hm)

/-- A state made of a list is as large as the list has different actions. -/
theorem size_ofList (l : List Action) : (SortedSet.ofList l : State).size = l.toFinset.card := by
  have hsame : l.toFinset = (SortedSet.ofList l : State).toList.toFinset := by
    ext a
    rw [List.mem_toFinset, List.mem_toFinset, SortedSet.mem_toList, SortedSet.mem_ofList]
  rw [hsame, List.toFinset_card_of_nodup (SortedSet.nodup_toList _), SortedSet.size]

end State

/-- **States are canonical.**

* Two lists of actions make the same state exactly if they have the same members.
* A state made of a list enables the members of the list, lists each of them once in their order, and is as
  large as there are different ones.
* The comparisons of operations, of actions and of states tell strict total orders, and say that two values
  are equal exactly if they are the same. -/
theorem states_canonical :
    (∀ l l' : List Action, (SortedSet.ofList l : State) = .ofList l' ↔ ∀ a, a ∈ l ↔ a ∈ l') ∧
    (∀ l : List Action,
      (∀ a, a ∈ (SortedSet.ofList l : State) ↔ a ∈ l) ∧
      (SortedSet.ofList l : State).toList.Pairwise Action.Before ∧
      (∀ a, (SortedSet.ofList l : State).toList.count a = if a ∈ l then 1 else 0) ∧
      (SortedSet.ofList l : State).size = l.toFinset.card) ∧
    Decides (compare : Operation → Operation → Ordering) Operation.Before ∧
    Decides (compare : Action → Action → Ordering) Action.Before ∧
    Decides (compare : State → State → Ordering) State.Before := by
  refine ⟨fun l l' => State.ofList_eq_iff, fun l => ⟨fun a => SortedSet.mem_ofList, ?_, ?_, ?_⟩, ?_, ?_, ?_⟩
  · exact State.pairwise_before _
  · exact State.count_toList_ofList l
  · exact State.size_ofList l
  · exact .of_lt_iff Operation.compare_eq_lt_iff
  · exact .of_lt_iff Action.compare_eq_lt_iff
  · exact .of_lt_iff State.compare_eq_lt_iff

end Enabledness
