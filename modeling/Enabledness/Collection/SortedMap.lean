/-!
# Sorted maps

A finite map over an ordered key type, kept as its list of entries with strictly increasing keys.
Two maps are equal as soon as their entries are.
-/

namespace Enabledness

open Std

/-- A finite map, stored with strictly increasing keys. -/
structure SortedMap (κ β : Type) [Ord κ] where
  /-- The entries by increasing key. -/
  entries : List (κ × β)
  /-- Each key is below all later ones. -/
  increasing : entries.Pairwise (fun a b => compare a.1 b.1 = .lt)

namespace SortedMap

variable {κ β : Type} [Ord κ]

/-- Maps with the same entries are the same map. -/
@[ext]
theorem ext {s t : SortedMap κ β} (h : s.entries = t.entries) : s = t := by
  cases s
  cases t
  simp_all

instance [DecidableEq κ] [DecidableEq β] : DecidableEq (SortedMap κ β) := fun s t =>
  decidable_of_iff (s.entries = t.entries) ⟨ext, fun h => h ▸ rfl⟩

/-- The map without entries. -/
def empty : SortedMap κ β := ⟨[], .nil⟩

instance : Inhabited (SortedMap κ β) := ⟨empty⟩

/-- The value stored for a key. -/
def get? [DecidableEq κ] (m : SortedMap κ β) (k : κ) : Option β :=
  (m.entries.find? fun e => e.1 = k).map Prod.snd

/-- A key has an entry. -/
def contains [DecidableEq κ] (m : SortedMap κ β) (k : κ) : Bool := (m.get? k).isSome

/-- Put an entry at its place, replacing an entry of the same key. -/
def putSorted (k : κ) (v : β) : List (κ × β) → List (κ × β)
  | [] => [(k, v)]
  | e :: rest =>
    match compare k e.1 with
    | .lt => (k, v) :: e :: rest
    | .eq => (k, v) :: rest
    | .gt => e :: putSorted k v rest

theorem mem_putSorted {k : κ} {v : β} {x : κ × β} {l : List (κ × β)} (h : x ∈ putSorted k v l) :
    x = (k, v) ∨ x ∈ l := by
  induction l with
  | nil => simpa [putSorted] using h
  | cons e rest ih =>
    rw [putSorted] at h
    split at h
    · simpa using h
    · rcases List.mem_cons.1 h with h | h
      · exact Or.inl h
      · exact Or.inr (List.mem_cons_of_mem _ h)
    · rcases List.mem_cons.1 h with h | h
      · exact Or.inr (h ▸ List.mem_cons_self)
      · exact (ih h).imp_right (List.mem_cons_of_mem _)

theorem pairwise_putSorted [TransOrd κ] [LawfulEqOrd κ] (k : κ) (v : β) {l : List (κ × β)}
    (h : l.Pairwise (fun a b => compare a.1 b.1 = .lt)) :
    (putSorted k v l).Pairwise (fun a b => compare a.1 b.1 = .lt) := by
  induction l with
  | nil => simp [putSorted]
  | cons e rest ih =>
    obtain ⟨he, hrest⟩ := List.pairwise_cons.1 h
    rw [putSorted]
    split
    · next hk =>
      refine List.pairwise_cons.2 ⟨fun x hx => ?_, h⟩
      rcases List.mem_cons.1 hx with rfl | hx
      · exact hk
      · exact TransCmp.lt_trans hk (he x hx)
    · next hk =>
      have hke : k = e.1 := LawfulEqOrd.eq_of_compare hk
      exact List.pairwise_cons.2 ⟨fun x hx => hke ▸ he x hx, hrest⟩
    · next hk =>
      refine List.pairwise_cons.2 ⟨fun x hx => ?_, ih hrest⟩
      rcases mem_putSorted hx with rfl | hx
      · exact OrientedCmp.lt_of_gt hk
      · exact he x hx

/-- Store a value. -/
def insert [TransOrd κ] [LawfulEqOrd κ] (m : SortedMap κ β) (k : κ) (v : β) : SortedMap κ β :=
  ⟨putSorted k v m.entries, pairwise_putSorted k v m.increasing⟩

end SortedMap

end Enabledness
