import Std.Data.TreeMap

/-!
# Tables

A table is a finite map that remembers the order in which its keys arrived.  Writing to a key that
is present replaces the value and keeps the position (`keys_insert`).  Values are found by a search
tree over the keys, so a table is made of keys that can be compared.
-/

namespace Enabledness

open Std

/-- A finite map whose entries stand in order of first insertion. -/
structure Table (κ β : Type) [Ord κ] where
  /-- The keys, the last one to arrive first. -/
  arrivals : List κ
  /-- The values by key. -/
  values : TreeMap κ β
  /-- No key arrived twice. -/
  nodup : arrivals.Nodup
  /-- The keys that arrived are those that have a value. -/
  mem_arrivals : ∀ k, k ∈ arrivals ↔ k ∈ values

namespace Table

variable {κ β : Type} [Ord κ]

/-- The table without entries. -/
def empty : Table κ β := ⟨[], ∅, .nil, by simp⟩

instance : Inhabited (Table κ β) := ⟨empty⟩

/-- The keys in order of first insertion. -/
def keys (t : Table κ β) : List κ := t.arrivals.reverse

/-- The number of entries. -/
def size (t : Table κ β) : Nat := t.arrivals.length

/-- The value stored for a key. -/
def get? (t : Table κ β) (k : κ) : Option β := t.values[k]?

/-- A key has an entry. -/
def contains (t : Table κ β) (k : κ) : Bool := (t.get? k).isSome

/-- The entries in order of first insertion. -/
def entries (t : Table κ β) : List (κ × β) := t.keys.filterMap fun k => (t.get? k).map (k, ·)

@[simp]
theorem get?_empty [TransOrd κ] (k : κ) : (empty : Table κ β).get? k = none :=
  TreeMap.getElem?_emptyc

theorem nodup_keys (t : Table κ β) : t.keys.Nodup := (List.reverse_perm _).nodup_iff.2 t.nodup

/-- The keys are those that have a value. -/
theorem mem_keys_iff [TransOrd κ] {t : Table κ β} {k : κ} :
    k ∈ t.keys ↔ (t.get? k).isSome = true := by
  rw [keys, List.mem_reverse, t.mem_arrivals, get?, TreeMap.mem_iff_isSome_getElem?]

theorem contains_iff [TransOrd κ] {t : Table κ β} {k : κ} : t.contains k = true ↔ k ∈ t.keys :=
  mem_keys_iff.symm

/-- A key with a value is among the keys. -/
theorem mem_keys_of_get? [TransOrd κ] {t : Table κ β} {k : κ} {v : β} (h : t.get? k = some v) :
    k ∈ t.keys := mem_keys_iff.2 (h ▸ rfl)

/-- What is read at a key is what an entry stores there. -/
theorem get?_eq_some_iff [TransOrd κ] {t : Table κ β} {k : κ} {v : β} :
    t.get? k = some v ↔ (k, v) ∈ t.entries := by
  simp only [entries, List.mem_filterMap, Option.map_eq_some_iff, Prod.mk.injEq]
  constructor
  · intro h
    exact ⟨k, mem_keys_of_get? h, v, h, rfl, rfl⟩
  · rintro ⟨x, -, w, hw, rfl, rfl⟩
    exact hw

/-- Every key has one entry, in its place. -/
theorem map_fst_entries [TransOrd κ] (t : Table κ β) : t.entries.map Prod.fst = t.keys := by
  have h : ∀ l : List κ, (∀ k ∈ l, (t.get? k).isSome = true) →
      (l.filterMap fun k => (t.get? k).map (k, ·)).map Prod.fst = l := by
    intro l hl
    induction l with
    | nil => rfl
    | cons k l ih =>
      obtain ⟨v, hv⟩ := Option.isSome_iff_exists.1 (hl k List.mem_cons_self)
      simp only [List.filterMap_cons, hv, Option.map_some, List.map_cons]
      rw [ih fun x hx => hl x (List.mem_cons_of_mem _ hx)]
  exact h t.keys fun k hk => mem_keys_iff.1 hk

variable [TransOrd κ] [LawfulEqOrd κ]

/-- Store a value; a new key goes to the end, a known key keeps its place. -/
def insert (t : Table κ β) (k : κ) (v : β) : Table κ β where
  arrivals := if t.values.contains k then t.arrivals else k :: t.arrivals
  values := t.values.insert k v
  nodup := by
    split
    · exact t.nodup
    · next h => exact List.nodup_cons.2 ⟨fun hk => h ((t.mem_arrivals k).1 hk), t.nodup⟩
  mem_arrivals x := by
    rw [TreeMap.mem_insert, LawfulEqOrd.compare_eq_iff_eq]
    split
    · next h =>
      rw [t.mem_arrivals]
      exact ⟨Or.inr, fun hx => hx.elim (fun hk => hk ▸ h) id⟩
    · rw [List.mem_cons, t.mem_arrivals, eq_comm]

/-- Change the value of a key, starting from a given value if the key is new. -/
def alter (t : Table κ β) (k : κ) (start : β) (f : β → β) : Table κ β :=
  t.insert k (f ((t.get? k).getD start))

/-- Drop the entry of a key. -/
def erase (t : Table κ β) (k : κ) : Table κ β where
  arrivals := t.arrivals.filter fun x => compare k x != .eq
  values := t.values.erase k
  nodup := t.nodup.sublist List.filter_sublist
  mem_arrivals x := by
    rw [List.mem_filter, t.mem_arrivals, TreeMap.mem_erase, bne_iff_ne, and_comm]

/-- A write is what is read back at its key; other keys read as before. -/
theorem get?_insert [DecidableEq κ] (t : Table κ β) (k : κ) (v : β) (x : κ) :
    (t.insert k v).get? x = if x = k then some v else t.get? x := by
  rw [get?, insert, TreeMap.getElem?_insert, get?]
  by_cases h : x = k
  · simp [h]
  · simp [h, Ne.symm h]

theorem get?_alter [DecidableEq κ] (t : Table κ β) (k : κ) (start : β) (f : β → β) (x : κ) :
    (t.alter k start f).get? x =
      if x = k then some (f ((t.get? k).getD start)) else t.get? x :=
  get?_insert ..

/-- A dropped key reads as nothing; other keys read as before. -/
theorem get?_erase [DecidableEq κ] (t : Table κ β) (k x : κ) :
    (t.erase k).get? x = if x = k then none else t.get? x := by
  rw [get?, erase, TreeMap.getElem?_erase, get?]
  by_cases h : x = k
  · simp [h]
  · simp [h, Ne.symm h]

theorem arrivals_insert_of_mem {t : Table κ β} {k : κ} (v : β) (h : k ∈ t.keys) :
    (t.insert k v).arrivals = t.arrivals :=
  if_pos ((t.mem_arrivals k).1 (List.mem_reverse.1 h))

theorem arrivals_insert_of_not_mem {t : Table κ β} {k : κ} (v : β) (h : k ∉ t.keys) :
    (t.insert k v).arrivals = k :: t.arrivals :=
  if_neg fun hk => h (List.mem_reverse.2 ((t.mem_arrivals k).2 hk))

/-- The keys after a write. -/
theorem keys_insert [DecidableEq κ] (t : Table κ β) (k : κ) (v : β) :
    (t.insert k v).keys = if k ∈ t.keys then t.keys else t.keys ++ [k] := by
  by_cases h : k ∈ t.keys
  · rw [if_pos h, keys, arrivals_insert_of_mem v h, keys]
  · rw [if_neg h, keys, arrivals_insert_of_not_mem v h, List.reverse_cons, keys]

theorem eraseDups_concat {α : Type} [DecidableEq α] (l : List α) (a : α) :
    (l ++ [a]).eraseDups = if a ∈ l.eraseDups then l.eraseDups else l.eraseDups ++ [a] := by
  rw [List.eraseDups_append]
  by_cases h : a ∈ l
  · simp [h, List.removeAll]
  · simp [h, List.removeAll, List.eraseDups_cons]

/-- If the keys stand in the order in which they were first inserted, they do so after a write. -/
theorem keys_insert_of_eq_eraseDups [DecidableEq κ] {t : Table κ β} {inserted : List κ}
    (h : t.keys = inserted.eraseDups) (k : κ) (v : β) :
    (t.insert k v).keys = (inserted ++ [k]).eraseDups := by
  rw [keys_insert, h, eraseDups_concat]

theorem filterMap_eq_of_mem {α γ : Type} {f g : α → Option γ} {l : List α}
    (h : ∀ x ∈ l, f x = g x) : l.filterMap f = l.filterMap g := by
  induction l with
  | nil => rfl
  | cons a l ih =>
    rw [List.filterMap_cons, List.filterMap_cons, h a List.mem_cons_self,
      ih fun x hx => h x (List.mem_cons_of_mem _ hx)]

/-- A new key goes to the end. -/
theorem entries_insert_of_not_mem [DecidableEq κ] {t : Table κ β} {k : κ} (v : β)
    (h : k ∉ t.keys) : (t.insert k v).entries = t.entries ++ [(k, v)] := by
  have old : ∀ x ∈ t.keys, ((t.insert k v).get? x).map (x, ·) = (t.get? x).map (x, ·) := by
    intro x hx
    rw [get?_insert, if_neg fun hxk : x = k => h (hxk ▸ hx)]
  rw [entries, keys_insert, if_neg h, List.filterMap_append, filterMap_eq_of_mem old, ← entries]
  simp [get?_insert]

/-- A known key keeps its place and takes the new value. -/
theorem entries_insert_of_mem [DecidableEq κ] {t : Table κ β} {k : κ} (v : β) (h : k ∈ t.keys) :
    (t.insert k v).entries = t.entries.map fun e => if e.1 = k then (k, v) else e := by
  rw [entries, keys_insert, if_pos h, entries, List.map_filterMap]
  refine filterMap_eq_of_mem fun x hx => ?_
  rw [get?_insert]
  by_cases hxk : x = k
  · obtain ⟨w, hw⟩ := Option.isSome_iff_exists.1 (mem_keys_iff.1 h)
    simp [hxk, hw]
  · cases hw : t.get? x <;> simp [hxk]

/-- Writing to a key that is present adds no entry. -/
theorem size_insert_of_mem {t : Table κ β} {k : κ} (v : β) (h : k ∈ t.keys) :
    (t.insert k v).size = t.size := by
  rw [size, arrivals_insert_of_mem v h, size]

/-- Dropping a key that is present takes an entry away. -/
theorem size_erase_lt {t : Table κ β} {k : κ} (h : k ∈ t.keys) : (t.erase k).size < t.size := by
  rw [size, size, erase]
  exact List.length_filter_lt_length_iff_exists.2 ⟨k, List.mem_reverse.1 h, by simp⟩

end Table

end Enabledness
