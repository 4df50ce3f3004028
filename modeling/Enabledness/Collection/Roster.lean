import Enabledness.Collection.Table

/-!
# Rosters

A roster is a set that remembers the order in which its members arrived: a table that has nothing to
say about its keys.
-/

namespace Enabledness

open Std

/-- A set with its members in order of arrival. -/
structure Roster (α : Type) [Ord α] where
  /-- The members as keys. -/
  table : Table α Unit

namespace Roster

variable {α : Type} [Ord α]

/-- The members in order of arrival. -/
def toList (s : Roster α) : List α := s.table.keys

/-- No member is listed twice. -/
theorem nodup (s : Roster α) : s.toList.Nodup := s.table.nodup_keys

/-- The roster without members. -/
def empty : Roster α := ⟨.empty⟩

instance : Inhabited (Roster α) := ⟨empty⟩

instance : Membership α (Roster α) := ⟨fun s a => a ∈ s.toList⟩

theorem mem_toList {s : Roster α} {a : α} : a ∈ s.toList ↔ a ∈ s := Iff.rfl

variable [TransOrd α]

instance (s : Roster α) (a : α) : Decidable (a ∈ s) :=
  decidable_of_iff (s.table.contains a = true) Table.contains_iff

variable [LawfulEqOrd α]

/-- Add a member at the end, unless it is listed already. -/
def insert (s : Roster α) (a : α) : Roster α := ⟨s.table.insert a ()⟩

/-- The roster of one member. -/
def singleton (a : α) : Roster α := empty.insert a

/-- Add the members of a list one after the other. -/
def insertAll (s : Roster α) (l : List α) : Roster α := l.foldl insert s

/-- The members of a list in order of first occurrence. -/
def ofList (l : List α) : Roster α := empty.insertAll l

theorem toList_insert (s : Roster α) (a : α) :
    (s.insert a).toList = if a ∈ s then s.toList else s.toList ++ [a] := by
  by_cases h : a ∈ s
  · rw [if_pos h, toList, insert, Table.keys, Table.arrivals_insert_of_mem _ h]
    rfl
  · rw [if_neg h, toList, insert, Table.keys, Table.arrivals_insert_of_not_mem _ h,
      List.reverse_cons]
    rfl

@[simp]
theorem toList_singleton (a : α) : (singleton a).toList = [a] := by
  have h : ¬ a ∈ (empty : Roster α) := List.not_mem_nil
  rw [singleton, toList_insert, if_neg h]
  rfl

@[simp]
theorem mem_insert {s : Roster α} {a x : α} : x ∈ s.insert a ↔ x = a ∨ x ∈ s := by
  rw [← mem_toList, toList_insert]
  by_cases h : a ∈ s
  · simp only [h, if_true, mem_toList]
    exact ⟨Or.inr, fun hx => hx.elim (fun e => e ▸ h) id⟩
  · simp [h, mem_toList, or_comm]

/-- If the members stand in the order in which they first arrived, they do so after an arrival. -/
theorem toList_insert_of_eq_eraseDups [DecidableEq α] {s : Roster α} {arrived : List α}
    (h : s.toList = arrived.eraseDups) (a : α) :
    (s.insert a).toList = (arrived ++ [a]).eraseDups :=
  Table.keys_insert_of_eq_eraseDups h a ()

theorem toList_insertAll_of_eq_eraseDups [DecidableEq α] {s : Roster α} {arrived : List α}
    (h : s.toList = arrived.eraseDups) (l : List α) :
    (s.insertAll l).toList = (arrived ++ l).eraseDups := by
  induction l generalizing s arrived with
  | nil => rw [List.append_nil, ← h, insertAll, List.foldl_nil]
  | cons a l ih =>
    rw [List.append_cons, ← ih (toList_insert_of_eq_eraseDups h a)]
    rfl

/-- A list is listed without its repetitions. -/
theorem toList_ofList [DecidableEq α] (l : List α) : (ofList l).toList = l.eraseDups := by
  have h : (empty : Roster α).toList = ([] : List α).eraseDups := rfl
  exact toList_insertAll_of_eq_eraseDups h l

end Roster

end Enabledness
