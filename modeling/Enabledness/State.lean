import Enabledness.Action
import Enabledness.Collection.SortedSet

/-!
# Abstract states

An abstract state is the set of actions that are enabled together.  States are compared as sets:
the order in which actions are given does not matter (`SortedSet.mem_ofList`).
-/

namespace Enabledness

open Std

/-- An abstract state: the set of enabled actions. -/
abbrev State := SortedSet Action

namespace State

/-- The only enabled action, if exactly one is enabled. -/
def single? (s : State) : Option Action :=
  match s.toList with
  | [a] => some a
  | _ => none

/-- The state as text, `{a(), b()}`. -/
def text (s : State) : String := "\x7b" ++ ", ".intercalate (s.toList.map Action.text) ++ "\x7d"

/-- The state as text that says what it is, `State{a(), b()}`. -/
def inspect (s : State) : String := "State" ++ s.text

end State

/-! ## Subsets of a set, within a bound -/

/-- The largest set whose subsets are enumerated. -/
def maxSubsetBase : Nat := 30

/-- A set is too large for its subsets to be enumerated. -/
structure TooManyElements where
  /-- The size of the set. -/
  count : Nat
  /-- The largest size that is allowed. -/
  max : Nat
deriving DecidableEq

/-- The refusal as text. -/
def TooManyElements.message (e : TooManyElements) : String :=
  "cannot enumerate subsets of " ++ Nat.repr e.count ++ " elements (limit " ++ Nat.repr e.max ++
    "); prune with necessity facts first"

namespace SortedSet

variable {α : Type} [Ord α]

/-- All subsets; number `m` holds the `i`-th smallest member exactly when bit `i` of `m` is set. -/
def subsets (s : SortedSet α) : List (SortedSet α) :=
  (Enabledness.subsets s.toList).attach.map fun t =>
    ⟨t.1, s.increasing.sublist (mem_subsets.1 t.2)⟩

/-- The bound in force: the one asked for, but never above `maxSubsetBase`. -/
def subsetBound (bound : Nat) : Nat := min bound maxSubsetBase

/-- All subsets of a set that is within the bound. -/
def boundedSubsets (bound : Nat) (s : SortedSet α) :
    Except TooManyElements (List (SortedSet α)) :=
  if subsetBound bound < s.size then .error ⟨s.size, subsetBound bound⟩ else .ok s.subsets

theorem map_toList_subsets (s : SortedSet α) :
    s.subsets.map toList = Enabledness.subsets s.toList := by
  simp [subsets, Function.comp_def]

/-- A set of `n` members has `2 ^ n` subsets. -/
theorem length_subsets (s : SortedSet α) : s.subsets.length = Nat.pow 2 s.size := by
  rw [← List.length_map (f := toList), map_toList_subsets, Enabledness.length_subsets, size]

/-- The enumeration holds exactly the sets whose members all belong to `s`. -/
theorem mem_subsets_iff [TransOrd α] [LawfulEqOrd α] {s t : SortedSet α} :
    t ∈ s.subsets ↔ ∀ a ∈ t, a ∈ s := by
  constructor
  · intro h a ha
    have ht : t.toList ∈ s.subsets.map toList := List.mem_map_of_mem h
    rw [map_toList_subsets] at ht
    exact (mem_subsets.1 ht).subset ha
  · intro h
    have ht : t.toList ∈ Enabledness.subsets s.toList :=
      mem_subsets.2 (sublist_of_subset t.increasing s.increasing h)
    rw [← map_toList_subsets] at ht
    obtain ⟨u, hu, hut⟩ := List.mem_map.1 ht
    exact ext hut ▸ hu

end SortedSet

end Enabledness
