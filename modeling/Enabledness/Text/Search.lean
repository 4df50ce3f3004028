/-!
# Search in texts

Whether a text starts with, ends in or contains another one.
-/

namespace Enabledness.Text

/-- One list occurs in another as a contiguous part. -/
def isPartOf (part : List Char) : List Char → Bool
  | [] => part.isEmpty
  | c :: rest => part.isPrefixOf (c :: rest) || isPartOf part rest

/-- The second list starts with, or has inside it, the first one. -/
theorem isPartOf_eq_true {part cs : List Char} :
    isPartOf part cs = true ↔ ∃ before after, cs = before ++ part ++ after := by
  induction cs with
  | nil =>
    simp only [isPartOf, List.isEmpty_iff]
    constructor
    · rintro rfl
      exact ⟨[], [], rfl⟩
    · rintro ⟨b, a, h⟩
      simp_all
  | cons c rest ih =>
    simp only [isPartOf, Bool.or_eq_true, List.isPrefixOf_iff_prefix, ih]
    constructor
    · rintro (⟨t, ht⟩ | ⟨b, a, rfl⟩)
      · exact ⟨[], t, by simp [ht]⟩
      · exact ⟨c :: b, a, rfl⟩
    · rintro ⟨b, a, h⟩
      cases b with
      | nil => exact Or.inl ⟨a, by simpa using h.symm⟩
      | cons d b =>
        refine Or.inr ⟨b, a, ?_⟩
        simp only [List.cons_append, List.cons.injEq] at h
        exact h.2

/-- `text` contains `part`. -/
def contains (text part : String) : Bool := isPartOf part.toList text.toList

/-- `text` starts with `part`. -/
def startsWith (text part : String) : Bool := part.toList.isPrefixOf text.toList

/-- `text` ends in `part`. -/
def endsIn (text part : String) : Bool := part.toList.isSuffixOf text.toList

end Enabledness.Text
