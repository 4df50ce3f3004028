import Mathlib.Algebra.GroupWithZero.Nat
import Mathlib.Data.Nat.Bitwise
import Enabledness.Proofs.Candidates

/-!
# Enumerating a power set

The subsets of a set are numbered by binary numbers, and they are listed if there are not too many.

* `subsets_eq_map_select` : a sublist is the choice of elements by the bits of its number.
* `enumerate?` : the same enumeration with 64-bit words, in which a bit that is shifted out of its word
  is noticed; `enumerate?_eq_some` says that this does not happen to a list of fewer than 64 elements.
* `boundedSubsets_powerSet` : when the subsets of a set are refused, and what is listed otherwise.
-/

namespace Enabledness

open Std

variable {α : Type}

/-! ## Sublists by number -/

/-- The elements that the bits of a number choose, the lowest bit for the first one. -/
def select (number : Nat) : List α → List α
  | [] => []
  | a :: l => if number.testBit 0 then a :: select (number / 2) l else select (number / 2) l

theorem select_sublist (number : Nat) (l : List α) : (select number l).Sublist l := by
  induction l generalizing number with
  | nil => exact .slnil
  | cons a l ih =>
    rw [select]
    split
    · exact (ih _).cons_cons a
    · exact (ih _).cons a

/-- An element is chosen if the bit of its position is set. -/
theorem mem_select_iff {l : List α} (hl : l.Nodup) {i : Nat} {a : α} (ha : l[i]? = some a)
    (number : Nat) : a ∈ select number l ↔ number.testBit i = true := by
  induction l generalizing i number with
  | nil => simp at ha
  | cons b l ih =>
    obtain ⟨hb, hl⟩ := List.nodup_cons.1 hl
    rw [select]
    cases i with
    | zero =>
      -- the first element is not among those that the higher bits choose
      obtain rfl : b = a := by simpa using ha
      have hnot : b ∉ select (number / 2) l := fun h => hb ((select_sublist _ l).subset h)
      split
      · next hbit => simp [hbit]
      · next hbit => simp [hbit, hnot]
    | succ i =>
      have ha : l[i]? = some a := by simpa using ha
      have hne : a ≠ b := fun h => hb (h ▸ List.mem_of_getElem? ha)
      rw [Nat.testBit_succ, ← ih hl ha]
      split
      · simp [hne]
      · rfl

theorem range_two_mul (n : Nat) :
    List.range (2 * n) = (List.range n).flatMap fun m => [2 * m, 2 * m + 1] := by
  induction n with
  | zero => rfl
  | succ n ih =>
    have hlast : List.range (n + 1) = List.range n ++ [n] := List.range_succ
    rw [Nat.mul_succ, List.range_add, ih, hlast, List.flatMap_append]
    rfl

/-- **The sublist with a number is what the bits of the number choose.** -/
theorem subsets_eq_map_select (l : List α) :
    subsets l = (List.range (2 ^ l.length)).map fun m => select m l := by
  induction l with
  | nil => rfl
  | cons a l ih =>
    -- an even number leaves the first element out, and the odd number after it takes it in
    have heven : ∀ m, select (2 * m) (a :: l) = select m l := by
      intro m
      simp [select]
    have hodd : ∀ m, select (2 * m + 1) (a :: l) = a :: select m l := by
      intro m
      simp [select, show (2 * m + 1) / 2 = m by omega]
    rw [subsets, ih, List.length_cons, Nat.pow_succ, Nat.mul_comm, range_two_mul, List.map_flatMap,
      List.flatMap_map]
    simp only [List.map_cons, List.map_nil, heven, hodd]

/-! ## Numbers in 64-bit words -/

/-- A word with one bit set, if the position is within the word. -/
def bit? (i : Nat) : Option UInt64 := if i < 64 then some (1 <<< i.toUInt64) else none

/-- The elements that the bits of a word choose, from a bit on; nothing if a bit is out of the word. -/
def choose? (word : UInt64) (i : Nat) : List α → Option (List α)
  | [] => some []
  | a :: l => do
    let bit ← bit? i
    let rest ← choose? word (i + 1) l
    return if word &&& bit = 0 then rest else a :: rest

/-- The sublists by the words that choose them; nothing if a bit is out of its word. -/
def enumerate? (l : List α) : Option (List (List α)) := do
  let count ← bit? l.length
  (List.range count.toNat).mapM fun m => choose? m.toUInt64 0 l

theorem exists_bit?_eq_some {i : Nat} (hi : i < 64) : ∃ bit, bit? i = some bit ∧ bit.toNat = 2 ^ i := by
  refine ⟨_, if_pos hi, ?_⟩
  have hmod : i.toUInt64.toNat % 64 = i := by simp [Nat.toUInt64]; omega
  rw [UInt64.toNat_shiftLeft, hmod, Nat.shiftLeft_eq, UInt64.toNat_one, Nat.one_mul]
  exact Nat.mod_eq_of_lt (Nat.pow_lt_pow_right (by omega) hi)

/-- A bit of a word is tested by what the word has in common with it. -/
theorem and_eq_zero_iff {word bit : UInt64} {i : Nat} (hbit : bit.toNat = 2 ^ i) :
    word &&& bit = 0 ↔ (word.toNat / 2 ^ i).testBit 0 = false := by
  rw [← UInt64.toNat_inj, UInt64.toNat_and, hbit, Nat.and_two_pow, Nat.testBit_div_two_pow, Nat.zero_add]
  cases word.toNat.testBit i with
  | true => simp
  | false => simp

/-- Within a word the choice is that of the number. -/
theorem choose?_eq_some (word : UInt64) {i : Nat} {l : List α} (h : i + l.length ≤ 64) :
    choose? word i l = some (select (word.toNat / 2 ^ i) l) := by
  induction l generalizing i with
  | nil => rfl
  | cons a l ih =>
    rw [List.length_cons] at h
    obtain ⟨bit, hbit, hvalue⟩ := exists_bit?_eq_some (show i < 64 by omega)
    have hhalf : word.toNat / 2 ^ (i + 1) = word.toNat / 2 ^ i / 2 := by
      rw [Nat.div_div_eq_div_mul, Nat.pow_succ]
    rw [choose?, hbit, ih (by omega), select, hhalf]
    show some (if word &&& bit = 0 then _ else _) = _
    by_cases hzero : word &&& bit = 0
    · rw [if_pos hzero, (and_eq_zero_iff hvalue).1 hzero]
      rfl
    · have hset := mt (and_eq_zero_iff hvalue).2 hzero
      rw [Bool.not_eq_false] at hset
      rw [if_neg hzero, hset]
      rfl

theorem mapM_eq_some_map {β : Type} {f : α → Option β} {g : α → β} {l : List α}
    (h : ∀ a ∈ l, f a = some (g a)) : l.mapM f = some (l.map g) := by
  induction l with
  | nil => rfl
  | cons a l ih =>
    rw [List.mapM_cons, h a List.mem_cons_self, ih fun b hb => h b (List.mem_cons_of_mem _ hb)]
    rfl

/-- **No bit is shifted out of its word** for a list of fewer than 64 elements. -/
theorem enumerate?_eq_some {l : List α} (h : l.length < 64) : enumerate? l = some (subsets l) := by
  obtain ⟨count, hcount, hvalue⟩ := exists_bit?_eq_some h
  have hword : ∀ m ∈ List.range (2 ^ l.length), choose? m.toUInt64 0 l = some (select m l) := by
    intro m hm
    have hlt : m < UInt64.size :=
      (List.mem_range.1 hm).trans (Nat.pow_lt_pow_right (by omega) h)
    have hm : m.toUInt64.toNat = m := UInt64.toNat_ofNat_of_lt' hlt
    rw [choose?_eq_some _ (by omega), hm, Nat.pow_zero, Nat.div_one]
  rw [enumerate?, hcount, subsets_eq_map_select]
  show (List.range count.toNat).mapM _ = _
  rw [hvalue]
  exact mapM_eq_some_map hword

/-! ## Subsets of a set -/

namespace SortedSet

variable [Ord α]

/-- A subset has the members whose bits are set in its number. -/
theorem mem_iff_testBit [TransOrd α] {s t : SortedSet α} {m i : Nat} {a : α}
    (ht : s.subsets[m]? = some t) (ha : s.toList[i]? = some a) : a ∈ t ↔ m.testBit i = true := by
  have hlist : (Enabledness.subsets s.toList)[m]? = some t.toList := by
    rw [← map_toList_subsets, List.getElem?_map, ht]
    rfl
  rw [subsets_eq_map_select, List.getElem?_map, Option.map_eq_some_iff] at hlist
  obtain ⟨m', hm', hselect⟩ := hlist
  obtain rfl : m' = m := by
    obtain ⟨hlt, hm'⟩ := List.getElem?_eq_some_iff.1 hm'
    simpa using hm'.symm
  rw [← mem_toList, ← hselect]
  exact mem_select_iff s.nodup_toList ha m'

/-- A subset is listed at one place. -/
theorem existsUnique_getElem?_subsets [TransOrd α] [LawfulEqOrd α] {s t : SortedSet α}
    (h : ∀ a ∈ t, a ∈ s) : ∃! m : Nat, s.subsets[m]? = some t := by
  obtain ⟨m, hm⟩ := List.mem_iff_getElem?.1 (mem_subsets_iff.2 h)
  refine ⟨m, hm, fun m' hm' => ?_⟩
  have hlt : m' < s.subsets.length := (List.getElem?_eq_some_iff.1 hm').1
  exact (List.getElem?_inj hlt s.nodup_subsets).1 (hm'.trans hm.symm)

/-- **The subsets of a set.**  They are refused exactly if the set has more members than the bound allows,
which is never more than 30.  Otherwise there are as many as there are binary numbers with a digit for
each member:

* each subset is listed at one place, and nothing else is listed;
* a subset has the `i`-th smallest member exactly if bit `i` is set in its number;
* with these numbers in 64-bit words no bit is shifted out of its word. -/
theorem boundedSubsets_powerSet [TransOrd α] [LawfulEqOrd α] (bound : Nat) (s : SortedSet α) :
    (∀ refusal, s.boundedSubsets bound = .error refusal ↔
      min bound 30 < s.size ∧ refusal = ⟨s.size, min bound 30⟩) ∧
    (s.size ≤ min bound 30 → ∃ l, s.boundedSubsets bound = .ok l ∧
      l.length = 2 ^ s.size ∧
      (∀ t ∈ l, ∀ a ∈ t, a ∈ s) ∧
      (∀ t : SortedSet α, (∀ a ∈ t, a ∈ s) → ∃! m : Nat, l[m]? = some t) ∧
      (∀ (m : Nat) (t : SortedSet α), l[m]? = some t → ∀ (i : Nat) (a : α), s.toList[i]? = some a →
        (a ∈ t ↔ m.testBit i = true)) ∧
      enumerate? s.toList = some (l.map toList)) := by
  have hbound : subsetBound bound = min bound 30 := rfl
  unfold boundedSubsets
  rw [hbound]
  refine ⟨fun refusal => ?_, fun hsize => ?_⟩
  · split
    · next hmany => simp [hmany, eq_comm]
    · next hfew => simp [hfew]
  · rw [if_neg (by omega)]
    have hlength : s.toList.length < 64 := by
      have := hsize.trans (Nat.min_le_right bound 30)
      unfold size at this
      omega
    refine ⟨s.subsets, rfl, s.length_subsets, fun t ht => mem_subsets_iff.1 ht, fun t ht => ?_,
      fun m t ht i a ha => mem_iff_testBit ht ha, ?_⟩
    · exact existsUnique_getElem?_subsets ht
    · rw [enumerate?_eq_some hlength, map_toList_subsets]

/-- The third, the fifth and the eighth day of a month. -/
def someDays : SortedSet Nat := .ofList [8, 3, 5]

/-- Three days have eight subsets; number five is the one that leaves out the middle.  They are too many if
only two days are allowed. -/
theorem boundedSubsets_powerSet_someDays :
    someDays.boundedSubsets 2 = .error ⟨3, 2⟩ ∧
      ∃ l, someDays.boundedSubsets 4 = .ok l ∧ l.length = 8 ∧
        (∃! m : Nat, l[m]? = some (.ofList [5, 3])) ∧
        ∃ t, l[5]? = some t ∧ 3 ∈ t ∧ 5 ∉ t ∧ 8 ∈ t := by
  obtain ⟨hrefused, -⟩ := boundedSubsets_powerSet 2 someDays
  obtain ⟨-, hlisted⟩ := boundedSubsets_powerSet 4 someDays
  obtain ⟨l, hl, hlength, -, honce, hbits, -⟩ := hlisted (by decide)
  have hlength : l.length = 8 := hlength
  obtain ⟨t, ht⟩ : ∃ t, l[5]? = some t := ⟨_, List.getElem?_eq_getElem (by omega)⟩
  have hsubset : ∀ a ∈ ofList [5, 3], a ∈ someDays := by
    simp [someDays]
  refine ⟨(hrefused _).2 (by decide), l, hl, hlength, honce _ hsubset, t, ht, ?_, ?_, ?_⟩
  · exact (hbits 5 t ht 0 3 (by decide)).2 (by decide)
  · exact fun h => absurd ((hbits 5 t ht 1 5 (by decide)).1 h) (by decide)
  · exact (hbits 5 t ht 2 8 (by decide)).2 (by decide)

end SortedSet

end Enabledness
