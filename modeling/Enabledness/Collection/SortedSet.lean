/-!
# Sorted sets

A finite set over an ordered type, kept as its strictly increasing list.  Because the list is
determined by the members, two sets are equal as soon as their lists are (`SortedSet.ext`), and
comparing the lists lexicographically orders the sets.

`subsets l` lists all sublists of a list `l`, and so the subsets of a set.  Entry number `m` keeps the
element at position `i` of `l` exactly when bit `i` of `m` is set, so the empty list comes first and `l`
itself last.
-/

namespace Enabledness

open Std

/-- A finite set, stored as its strictly increasing list of members. -/
structure SortedSet (α : Type) [Ord α] where
  /-- The members in increasing order. -/
  toList : List α
  /-- Each member is below all later ones. -/
  increasing : toList.Pairwise (fun a b => compare a b = .lt)

namespace SortedSet

variable {α : Type} [Ord α]

/-- Sets with the same list are the same set. -/
@[ext]
theorem ext {s t : SortedSet α} (h : s.toList = t.toList) : s = t := by
  cases s
  cases t
  simp_all

instance [DecidableEq α] : DecidableEq (SortedSet α) := fun s t =>
  decidable_of_iff (s.toList = t.toList) ⟨ext, fun h => h ▸ rfl⟩

instance : Membership α (SortedSet α) := ⟨fun s a => a ∈ s.toList⟩

theorem mem_toList {s : SortedSet α} {a : α} : a ∈ s.toList ↔ a ∈ s := Iff.rfl

instance [DecidableEq α] (s : SortedSet α) (a : α) : Decidable (a ∈ s) :=
  inferInstanceAs (Decidable (a ∈ s.toList))

/-- Sets are ordered lexicographically by their members. -/
instance : Ord (SortedSet α) := ⟨compareOn toList⟩

instance [TransOrd α] : TransOrd (SortedSet α) :=
  inferInstanceAs (TransCmp (compareOn toList))

instance [TransOrd α] [LawfulEqOrd α] : LawfulEqOrd (SortedSet α) where
  eq_of_compare {s t} h := ext (LawfulEqOrd.eq_of_compare (a := s.toList) (b := t.toList) h)

/-- The set without members. -/
def empty : SortedSet α := ⟨[], .nil⟩

instance : Inhabited (SortedSet α) := ⟨empty⟩

/-- The number of members. -/
def size (s : SortedSet α) : Nat := s.toList.length

/-- The set has no member. -/
def isEmpty (s : SortedSet α) : Bool := s.toList.isEmpty

/-- The members that pass a test. -/
def filter (s : SortedSet α) (p : α → Bool) : SortedSet α :=
  ⟨s.toList.filter p, s.increasing.filter p⟩

@[simp]
theorem mem_filter {s : SortedSet α} {p : α → Bool} {a : α} :
    a ∈ s.filter p ↔ a ∈ s ∧ p a = true := List.mem_filter

/-- Put `a` at its place in an increasing list, unless it is there already. -/
def insertSorted (a : α) : List α → List α
  | [] => [a]
  | b :: rest =>
    match compare a b with
    | .lt => a :: b :: rest
    | .eq => b :: rest
    | .gt => b :: insertSorted a rest

/-- Insertion adds the new element and nothing else. -/
theorem mem_insertSorted [LawfulEqOrd α] {a x : α} {l : List α} :
    x ∈ insertSorted a l ↔ x = a ∨ x ∈ l := by
  induction l with
  | nil => simp [insertSorted]
  | cons b rest ih =>
    rw [insertSorted]
    split
    · simp
    · next h =>
      have hab : a = b := LawfulEqOrd.eq_of_compare h
      simp [hab]
    · simp only [List.mem_cons, ih]
      constructor
      · rintro (h | h | h) <;> simp [h]
      · rintro (h | h | h) <;> simp [h]

/-- Insertion keeps an increasing list increasing. -/
theorem pairwise_insertSorted [TransOrd α] [LawfulEqOrd α] (a : α) {l : List α}
    (h : l.Pairwise (fun a b => compare a b = .lt)) :
    (insertSorted a l).Pairwise (fun a b => compare a b = .lt) := by
  induction l with
  | nil => simp [insertSorted]
  | cons b rest ih =>
    obtain ⟨hb, hrest⟩ := List.pairwise_cons.1 h
    rw [insertSorted]
    split
    · next hab =>
      refine List.pairwise_cons.2 ⟨fun x hx => ?_, h⟩
      rcases List.mem_cons.1 hx with rfl | hx
      · exact hab
      · exact TransCmp.lt_trans hab (hb x hx)
    · exact h
    · next hab =>
      refine List.pairwise_cons.2 ⟨fun x hx => ?_, ih hrest⟩
      rcases mem_insertSorted.1 hx with rfl | hx
      · exact OrientedCmp.lt_of_gt hab
      · exact hb x hx

@[simp]
theorem not_mem_empty {x : α} : ¬ x ∈ (empty : SortedSet α) := List.not_mem_nil

variable [TransOrd α] [LawfulEqOrd α]

/-- The set with `a` added. -/
def insert (s : SortedSet α) (a : α) : SortedSet α :=
  ⟨insertSorted a s.toList, pairwise_insertSorted a s.increasing⟩

/-- The set of the members of a list. -/
def ofList (l : List α) : SortedSet α := l.foldr (fun a s => s.insert a) empty

@[simp]
theorem mem_insert {s : SortedSet α} {a x : α} : x ∈ s.insert a ↔ x = a ∨ x ∈ s :=
  mem_insertSorted

/-- The members of `ofList l` are the members of `l`. -/
@[simp]
theorem mem_ofList {l : List α} {x : α} : x ∈ ofList l ↔ x ∈ l := by
  induction l with
  | nil => simp [ofList]
  | cons a l ih => rw [ofList, List.foldr_cons, mem_insert, ← ofList, ih, List.mem_cons]

/-- The members of both sets. -/
def union (s t : SortedSet α) : SortedSet α := ofList (s.toList ++ t.toList)

@[simp]
theorem mem_union {s t : SortedSet α} {a : α} : a ∈ s.union t ↔ a ∈ s ∨ a ∈ t := by
  rw [union, mem_ofList, List.mem_append, mem_toList, mem_toList]

/-- Between increasing lists, containment of members is containment as a sublist. -/
theorem sublist_of_subset {l m : List α} (hl : l.Pairwise (fun a b => compare a b = .lt))
    (hm : m.Pairwise (fun a b => compare a b = .lt)) (h : ∀ x ∈ l, x ∈ m) : l.Sublist m := by
  induction m generalizing l with
  | nil =>
    cases l with
    | nil => exact .slnil
    | cons a l => exact absurd (h a List.mem_cons_self) List.not_mem_nil
  | cons b m ih =>
    obtain ⟨hb, hm'⟩ := List.pairwise_cons.1 hm
    cases l with
    | nil => exact List.nil_sublist _
    | cons a l =>
      obtain ⟨ha, hl'⟩ := List.pairwise_cons.1 hl
      have irrefl : ∀ x : α, compare x x ≠ .lt := fun x => by simp
      rcases List.mem_cons.1 (h a List.mem_cons_self) with rfl | ham
      · refine (ih hl' hm' fun x hx => ?_).cons_cons a
        rcases List.mem_cons.1 (h x (List.mem_cons_of_mem _ hx)) with rfl | hxm
        · exact absurd (ha x hx) (irrefl x)
        · exact hxm
      · refine (ih hl hm' fun x hx => ?_).cons b
        rcases List.mem_cons.1 (h x hx) with rfl | hxm
        · rcases List.mem_cons.1 hx with rfl | hxl
          · exact absurd (hb x ham) (irrefl x)
          · exact absurd (TransCmp.lt_trans (ha x hxl) (hb a ham)) (irrefl a)
        · exact hxm

end SortedSet

/-! ## Enumeration of sublists -/

variable {α : Type}

/-- All sublists of a list, in the order of the binary numbers that select them. -/
def subsets : List α → List (List α)
  | [] => [[]]
  | a :: rest => (subsets rest).flatMap fun s => [s, a :: s]

/-- The enumeration holds the sublists and nothing else. -/
theorem mem_subsets {l s : List α} : s ∈ subsets l ↔ s.Sublist l := by
  induction l generalizing s with
  | nil => simp [subsets, List.sublist_nil]
  | cons a l ih =>
    simp only [subsets, List.mem_flatMap, List.mem_cons, List.not_mem_nil, or_false]
    constructor
    · rintro ⟨t, ht, rfl | rfl⟩
      · exact (ih.1 ht).cons a
      · exact (ih.1 ht).cons_cons a
    · intro h
      cases h with
      | cons _ h => exact ⟨s, ih.2 h, Or.inl rfl⟩
      | cons_cons _ h => exact ⟨_, ih.2 h, Or.inr rfl⟩

/-- A list of `n` elements has `2 ^ n` sublists. -/
theorem length_subsets (l : List α) : (subsets l).length = Nat.pow 2 l.length := by
  induction l with
  | nil => rfl
  | cons a l ih =>
    have twice : ∀ m : List (List α), (m.flatMap fun s => [s, a :: s]).length = m.length * 2 := by
      intro m
      induction m with
      | nil => rfl
      | cons s m ihm => simp only [List.flatMap_cons, List.length_append, ihm, List.length_cons,
          List.length_nil]; omega
    rw [subsets, twice, ih, List.length_cons]
    rfl

end Enabledness
