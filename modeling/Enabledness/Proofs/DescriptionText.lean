import Mathlib.Data.List.Forall2
import Mathlib.Data.List.TakeWhile
import Enabledness.Description
import Enabledness.Proofs.JsonText

/-!
# Descriptions as they are written

A description is written as a JSON object with its fields in any order, and so is each of its operations.
A field may be left out if it has its default value, unless it is the name of the class, the list of
operations or the name of an operation.  The procedures are written as an object with its entries in any
order.  Reading any such text gives the description back.

* `Operation.WrittenAs`, `ClassDescription.WrittenAs` : the values that a description is written as.
* `addAll_known` : what is known after some fields, whatever their order.
* `parseAs_of_isText` : a text is read as the value that it is a writing of.
* `ClassDescription.parse_written` : every description can be written, and reading gives it back.
-/

namespace Enabledness

open Json Std

/-! ## Parts of a description -/

namespace Json

/-- A text as a value. -/
def ofText (text : String) : Json := .string (textToken text)

/-- A list of texts as a value. -/
def ofTexts (texts : List String) : Json := .list (.ofList (texts.map ofText))

/-- A text, or `null` if there is none. -/
def ofOptionalText : Option String → Json
  | none => .null
  | some text => ofText text

/-- The entries of a map, in some order. -/
def ofEntries (entries : List (String × String)) : Json :=
  .object (.ofList (entries.map fun e => (e.1, ofText e.2)))

@[simp]
theorem toText_ofText (text : String) : (ofText text).toText = .ok text := rfl

@[simp]
theorem toOptionalText_ofOptionalText (text : Option String) :
    (ofOptionalText text).toOptionalText = .ok text := by
  cases text
  all_goals rfl

theorem Items.toList_ofList {α : Type} {read : Json → Reading α} {js : List Json} {l : List α}
    (h : List.Forall₂ (fun j a => read j = .ok a) js l) : (Items.ofList js).toList read = .ok l := by
  induction h with
  | nil => rfl
  | cons hread _ ih =>
    rw [Items.ofList, Items.toList, hread, ih]
    rfl

@[simp]
theorem toTexts_ofTexts (texts : List String) : (ofTexts texts).toTexts = .ok texts := by
  refine Items.toList_ofList ?_
  rw [List.forall₂_map_left_iff, List.forall₂_same]
  exact fun text _ => rfl

/-- What is read back as it was is not written like anything else. -/
theorem write_inj {α : Type} {write : α → Json} {read : Json → Reading α}
    (h : ∀ a, read (write a) = .ok a) {a b : α} : write a = write b ↔ a = b := by
  refine ⟨fun hwrite => ?_, congrArg write⟩
  have hread := congrArg read hwrite
  rw [h, h] at hread
  exact Except.ok.inj hread

@[simp]
theorem ofText_inj {a b : String} : ofText a = ofText b ↔ a = b := write_inj toText_ofText

@[simp]
theorem ofOptionalText_inj {a b : Option String} : ofOptionalText a = ofOptionalText b ↔ a = b :=
  write_inj toOptionalText_ofOptionalText

@[simp]
theorem ofTexts_inj {a b : List String} : ofTexts a = ofTexts b ↔ a = b := write_inj toTexts_ofTexts

end Json

namespace SortedMap

theorem perm_putSorted {κ β : Type} [Ord κ] [LawfulEqOrd κ] {k : κ} {l : List (κ × β)}
    (h : k ∉ l.map Prod.fst) (v : β) : (putSorted k v l).Perm ((k, v) :: l) := by
  induction l with
  | nil => exact .refl _
  | cons e l ih =>
    rw [List.map_cons, List.mem_cons, not_or] at h
    rw [putSorted]
    split
    · exact .refl _
    · next heq => exact absurd (LawfulEqOrd.eq_of_compare heq) h.1
    · exact ((ih h.2).cons e).trans (.swap _ _ _)

/-- Storing entries one after the other, each under a key of its own, keeps them all. -/
theorem perm_foldl_insert {κ β : Type} [Ord κ] [TransOrd κ] [LawfulEqOrd κ] {l : List (κ × β)}
    {m : SortedMap κ β} (h : ((m.entries ++ l).map Prod.fst).Nodup) :
    (l.foldl (fun m e => m.insert e.1 e.2) m).entries.Perm (m.entries ++ l) := by
  induction l generalizing m with
  | nil => simp
  | cons e l ih =>
    have hfresh : e.1 ∉ m.entries.map Prod.fst := by
      rw [List.map_append, List.map_cons] at h
      exact fun hmem => (List.nodup_append.1 h).2.2 _ hmem _ List.mem_cons_self rfl
    have hperm : (m.insert e.1 e.2).entries.Perm (e :: m.entries) := perm_putSorted hfresh e.2
    have hmove : ((m.insert e.1 e.2).entries ++ l).Perm (m.entries ++ e :: l) :=
      (hperm.append_right l).trans List.perm_middle.symm
    exact (ih ((hmove.map _).nodup_iff.2 h)).trans hmove

theorem nodup_keys_entries {κ β : Type} [Ord κ] [TransOrd κ] (m : SortedMap κ β) :
    (m.entries.map Prod.fst).Nodup := by
  rw [List.Nodup, List.pairwise_map]
  refine m.increasing.imp fun {a b} hlt heq => ?_
  rw [heq] at hlt
  simp at hlt

/-- A map is determined by its entries in any order. -/
theorem eq_of_perm_entries {κ β : Type} [Ord κ] [TransOrd κ] {m m' : SortedMap κ β}
    (h : m.entries.Perm m'.entries) : m = m' := by
  refine ext (h.eq_of_pairwise (fun a b _ _ hab hba => ?_) m.increasing m'.increasing)
  have hgt := OrientedCmp.gt_of_lt hab
  rw [hba] at hgt
  simp at hgt

end SortedMap

namespace Json

theorem Members.toMap_ofList (entries : List (String × String)) (m : SortedMap String String) :
    (Members.ofList (entries.map fun e => (e.1, ofText e.2))).toMap m =
      .ok (entries.foldl (fun m e => m.insert e.1 e.2) m) := by
  induction entries generalizing m with
  | nil => rfl
  | cons e entries ih => exact ih (m.insert e.1 e.2)

/-- A map is read from its entries in any order. -/
theorem toMap_ofEntries {entries : List (String × String)} {m : SortedMap String String}
    (h : entries.Perm m.entries) : (ofEntries entries).toMap = .ok m := by
  have hnodup : (((SortedMap.empty : SortedMap String String).entries ++ entries).map Prod.fst).Nodup :=
    (h.map Prod.fst).nodup_iff.2 m.nodup_keys_entries
  refine (Members.toMap_ofList entries .empty).trans (congrArg _ ?_)
  exact SortedMap.eq_of_perm_entries ((SortedMap.perm_foldl_insert hnodup).trans h)

end Json

/-! ## Fields in any order -/

/-- Some fields of a record are written, in any order; the others may be left out. -/
def KeepsFields (fields omittable kept : List (String × Json)) : Prop :=
  ∃ omitted, (kept ++ omitted).Perm fields ∧ ∀ f ∈ omitted, f ∈ omittable

namespace KeepsFields

theorem all (fields omittable : List (String × Json)) : KeepsFields fields omittable fields :=
  ⟨[], .of_eq (List.append_nil _), fun _ h => absurd h List.not_mem_nil⟩

variable {fields omittable kept : List (String × Json)} (h : KeepsFields fields omittable kept)

include h

theorem mem_fields {f : String × Json} (hf : f ∈ kept) : f ∈ fields := by
  obtain ⟨omitted, hperm, -⟩ := h
  exact hperm.subset (List.mem_append_left _ hf)

theorem nodup_keys (hfields : (fields.map Prod.fst).Nodup) : (kept.map Prod.fst).Nodup := by
  obtain ⟨omitted, hperm, -⟩ := h
  have hnodup := (hperm.map Prod.fst).nodup_iff.2 hfields
  rw [List.map_append] at hnodup
  exact (List.nodup_append.1 hnodup).1

/-- What is not written may be left out. -/
theorem mem_omittable {f : String × Json} (hf : f ∈ fields) (hkey : f.1 ∉ kept.map Prod.fst) :
    f ∈ omittable := by
  obtain ⟨omitted, hperm, homitted⟩ := h
  rcases List.mem_append.1 (hperm.mem_iff.2 hf) with hkept | hleft
  · exact absurd (List.mem_map_of_mem hkept) hkey
  · exact homitted f hleft

end KeepsFields

/-- Members taken up one after the other: if what is known after the fields with some keys is `known`,
then the order in which the fields come does not matter. -/
theorem addAll_known {F : Type} {add : F → String → Json → Reading F} {addAll : F → Members → Reading F}
    (hdone : ∀ f, addAll f .done = .ok f)
    (hmember : ∀ f key value tail, addAll f (.member (textToken key) value tail) =
      add f key value >>= fun f => addAll f tail)
    {fields : List (String × Json)} {known : List String → F}
    (hadd : ∀ keys, ∀ f ∈ fields, f.1 ∉ keys → add (known keys) f.1 f.2 = .ok (known (keys ++ [f.1])))
    {kept : List (String × Json)} {keys : List String} (hkept : ∀ f ∈ kept, f ∈ fields)
    (hnodup : (keys ++ kept.map Prod.fst).Nodup) :
    addAll (known keys) (.ofList kept) = .ok (known (keys ++ kept.map Prod.fst)) := by
  induction kept generalizing keys with
  | nil => rw [Members.ofList, hdone, List.map_nil, List.append_nil]
  | cons f kept ih =>
    obtain ⟨hf, hkept⟩ := List.forall_mem_cons.1 hkept
    -- The key is new, so the field is taken up and not refused as a second one.
    have hkey : f.1 ∉ keys := fun hmem =>
      (List.nodup_append.1 hnodup).2.2 _ hmem _ List.mem_cons_self rfl
    have hmove : keys ++ (f :: kept).map Prod.fst = keys ++ [f.1] ++ kept.map Prod.fst := by simp
    rw [hmove] at hnodup ⊢
    rw [Members.ofList, hmember, hadd keys f hf hkey]
    exact ih hkept hnodup

/-- A field that may be missing is completed by its default. -/
theorem getD_known {α : Type} {key : String} {keys : List String} {a d : α} (h : key ∉ keys → a = d) :
    (if key ∈ keys then some a else none).getD d = a := by
  split
  · rfl
  · next hkey => exact (h hkey).symm

/-! ## Operations -/

namespace Operation

/-- The fields of an operation as values. -/
def fields (op : Operation) : List (String × Json) :=
  [("qualified_name", ofText op.qualifiedName), ("is_static", .bool op.isStatic),
    ("parameter_types", ofTexts op.parameterTypes), ("return_type", ofOptionalText op.returnType)]

/-- The fields that an operation need not have. -/
def omittable : List (String × Json) :=
  [("is_static", .bool false), ("parameter_types", ofTexts []), ("return_type", ofOptionalText none)]

/-- An operation is written as an object. -/
def WrittenAs (op : Operation) (j : Json) : Prop :=
  ∃ kept, KeepsFields op.fields omittable kept ∧ j = .object (.ofList kept)

end Operation

namespace OperationFields

/-- What is known of an operation after the fields with some keys. -/
def of (op : Operation) (keys : List String) : OperationFields where
  qualifiedName := if "qualified_name" ∈ keys then some op.qualifiedName else none
  isStatic := if "is_static" ∈ keys then some op.isStatic else none
  parameterTypes := if "parameter_types" ∈ keys then some op.parameterTypes else none
  returnType := if "return_type" ∈ keys then some op.returnType else none

/-- One more field. -/
theorem add_of {op : Operation} (keys : List String) (f : String × Json) (hf : f ∈ op.fields)
    (hkey : f.1 ∉ keys) : (of op keys).add f.1 f.2 = .ok (of op (keys ++ [f.1])) := by
  simp only [Operation.fields, List.mem_cons, List.not_mem_nil, or_false] at hf
  rcases hf with rfl | rfl | rfl | rfl
  all_goals simp [add, of, hkey, once, toFlag, Except.map]

/-- With the name known, what is missing has its default. -/
theorem complete_of {op : Operation} {keys : List String} (hname : "qualified_name" ∈ keys)
    (hdefault : ∀ f ∈ op.fields, f.1 ∉ keys → f ∈ Operation.omittable) :
    (of op keys).complete = .ok op := by
  have hstatic : "is_static" ∉ keys → op.isStatic = false := by
    intro hkey
    simpa [Operation.omittable] using
      hdefault ("is_static", .bool op.isStatic) (by simp [Operation.fields]) hkey
  have hparameters : "parameter_types" ∉ keys → op.parameterTypes = [] := by
    intro hkey
    simpa [Operation.omittable] using
      hdefault ("parameter_types", ofTexts op.parameterTypes) (by simp [Operation.fields]) hkey
  have hreturn : "return_type" ∉ keys → op.returnType = none := by
    intro hkey
    simpa [Operation.omittable] using
      hdefault ("return_type", ofOptionalText op.returnType) (by simp [Operation.fields]) hkey
  simp only [complete, of, if_pos hname, getD_known hstatic, getD_known hparameters,
    getD_known hreturn]
  rfl

end OperationFields

namespace Operation

theorem ofJson_of_writtenAs {op : Operation} {j : Json} (h : op.WrittenAs j) : ofJson j = .ok op := by
  obtain ⟨kept, hkept, rfl⟩ := h
  have hadded : (OperationFields.of op []).addAll (.ofList kept) =
      .ok (OperationFields.of op ([] ++ kept.map Prod.fst)) :=
    addAll_known (fun _ => rfl) (fun _ _ _ _ => rfl) OperationFields.add_of
      (fun _ => hkept.mem_fields) (hkept.nodup_keys (by simp [fields]))
  -- A name is none of the fields that may be left out.
  have hname : "qualified_name" ∈ kept.map Prod.fst := by
    by_contra hkey
    simpa [omittable] using hkept.mem_omittable (f := ("qualified_name", ofText op.qualifiedName))
      (by simp [fields]) hkey
  show ((OperationFields.of op []).addAll (.ofList kept) >>= OperationFields.complete) = _
  rw [hadded]
  exact OperationFields.complete_of hname fun _ => hkept.mem_omittable

end Operation

/-! ## Whole descriptions -/

namespace ClassDescription

/-- The fields of a description as values, given its operations as values and the entries of its map of
procedures. -/
def fields (d : ClassDescription) (operations : List Json) (entries : List (String × String)) :
    List (String × Json) :=
  [("class", ofText d.name), ("operations", .list (.ofList operations)), ("preamble", ofText d.preamble),
    ("fragments", ofEntries entries), ("modifies", ofTexts d.modifies),
    ("initial_state", ofTexts d.initialState)]

/-- The fields that a description need not have. -/
def omittable : List (String × Json) :=
  [("preamble", ofText ""), ("fragments", ofEntries []), ("modifies", ofTexts []),
    ("initial_state", ofTexts [])]

/-- A description is written as an object, with its operations and its procedures. -/
def WrittenAs (d : ClassDescription) (j : Json) : Prop :=
  ∃ operations entries kept, List.Forall₂ Operation.WrittenAs d.operations operations ∧
    entries.Perm d.fragments.entries ∧ KeepsFields (d.fields operations entries) omittable kept ∧
    j = .object (.ofList kept)

end ClassDescription

namespace DescriptionFields

/-- What is known of a description after the fields with some keys. -/
def of (d : ClassDescription) (keys : List String) : DescriptionFields where
  name := if "class" ∈ keys then some d.name else none
  operations := if "operations" ∈ keys then some d.operations else none
  preamble := if "preamble" ∈ keys then some d.preamble else none
  fragments := if "fragments" ∈ keys then some d.fragments else none
  modifies := if "modifies" ∈ keys then some d.modifies else none
  initialState := if "initial_state" ∈ keys then some d.initialState else none

variable {d : ClassDescription} {operations : List Json} {entries : List (String × String)}

/-- One more field. -/
theorem add_of (hoperations : List.Forall₂ Operation.WrittenAs d.operations operations)
    (hentries : entries.Perm d.fragments.entries) (keys : List String) (f : String × Json)
    (hf : f ∈ d.fields operations entries) (hkey : f.1 ∉ keys) :
    (of d keys).add f.1 f.2 = .ok (of d (keys ++ [f.1])) := by
  have hlist : toList Operation.ofJson (.list (.ofList operations)) = .ok d.operations :=
    Items.toList_ofList (hoperations.flip.imp fun _ _ => Operation.ofJson_of_writtenAs)
  simp only [ClassDescription.fields, List.mem_cons, List.not_mem_nil, or_false] at hf
  rcases hf with rfl | rfl | rfl | rfl | rfl | rfl
  all_goals simp [add, of, hkey, once, hlist, toMap_ofEntries hentries, Except.map]

/-- With the name and the operations known, what is missing has its default. -/
theorem complete_of {keys : List String} (hentries : entries.Perm d.fragments.entries)
    (hname : "class" ∈ keys) (hoperations : "operations" ∈ keys)
    (hdefault : ∀ f ∈ d.fields operations entries, f.1 ∉ keys → f ∈ ClassDescription.omittable) :
    (of d keys).complete = .ok d := by
  have hpreamble : "preamble" ∉ keys → d.preamble = "" := by
    intro hkey
    simpa [ClassDescription.omittable] using
      hdefault ("preamble", ofText d.preamble) (by simp [ClassDescription.fields]) hkey
  have hfragments : "fragments" ∉ keys → d.fragments = .empty := by
    intro hkey
    have hempty : ofEntries entries = ofEntries [] := by
      simpa [ClassDescription.omittable] using
        hdefault ("fragments", ofEntries entries) (by simp [ClassDescription.fields]) hkey
    have hread := toMap_ofEntries hentries
    rw [hempty] at hread
    exact (Except.ok.inj hread).symm
  have hmodifies : "modifies" ∉ keys → d.modifies = [] := by
    intro hkey
    simpa [ClassDescription.omittable] using
      hdefault ("modifies", ofTexts d.modifies) (by simp [ClassDescription.fields]) hkey
  have hinitial : "initial_state" ∉ keys → d.initialState = [] := by
    intro hkey
    simpa [ClassDescription.omittable] using
      hdefault ("initial_state", ofTexts d.initialState) (by simp [ClassDescription.fields]) hkey
  simp only [complete, of, if_pos hname, if_pos hoperations, getD_known hpreamble,
    getD_known hfragments, getD_known hmodifies, getD_known hinitial]
  rfl

end DescriptionFields

namespace ClassDescription

theorem ofJson_of_writtenAs {d : ClassDescription} {j : Json} (h : d.WrittenAs j) :
    ofJson j = .ok d := by
  obtain ⟨operations, entries, kept, hoperations, hentries, hkept, rfl⟩ := h
  have hadded : (DescriptionFields.of d []).addAll (.ofList kept) =
      .ok (DescriptionFields.of d ([] ++ kept.map Prod.fst)) :=
    addAll_known (fun _ => rfl) (fun _ _ _ _ => rfl) (DescriptionFields.add_of hoperations hentries)
      (fun _ => hkept.mem_fields) (hkept.nodup_keys (by simp [fields]))
  have hname : "class" ∈ kept.map Prod.fst := by
    by_contra hkey
    simpa [omittable] using hkept.mem_omittable (f := ("class", ofText d.name)) (by simp [fields]) hkey
  have hlist : "operations" ∈ kept.map Prod.fst := by
    by_contra hkey
    simpa [omittable] using
      hkept.mem_omittable (f := ("operations", .list (.ofList operations))) (by simp [fields]) hkey
  show ((DescriptionFields.of d []).addAll (.ofList kept) >>= DescriptionFields.complete) = _
  rw [hadded]
  exact DescriptionFields.complete_of hentries hname hlist fun _ => hkept.mem_omittable

end ClassDescription

/-! ## Texts -/

namespace Json

/-- A text is a writing of a value and space. -/
def IsText (j : Json) (text : String) : Prop := ∃ rest, Writes text.toList j rest ∧ Blank rest

theorem skipSpace_of_blank {space : List Char} (h : Blank space) : skipSpace space = [] :=
  List.dropWhile_eq_nil_iff.2 fun c hc => isSpace_of_blank (h c hc)

/-- A text is read as the value that it is a writing of. -/
theorem parseAs_of_isText {α : Type} (read : Json → Reading α) {j : Json} {text : String}
    (h : j.IsText text) : parseAs read text = read j := by
  obtain ⟨rest, hwrites, hblank⟩ := h
  obtain ⟨hlt, hvalue⟩ := (readValue_of_writes hwrites).exists_eq
  rw [parseAs, hvalue]
  simp [skipSpace_of_blank hblank]

theorem CanWrite.exists_isText {j : Json} (h : CanWrite j) : ∃ text, j.IsText text := by
  obtain ⟨cs, hcs⟩ := h []
  refine ⟨String.ofList cs, [], ?_, blank_nil⟩
  rwa [String.toList_ofList]

theorem canWrite_ofFlag (flag : Bool) : CanWrite (.bool flag) := by
  cases flag
  · have hword : ("false", Json.bool false) ∈ literals := by simp [literals]
    exact canWrite_literal hword
  · have hword : ("true", Json.bool true) ∈ literals := by simp [literals]
    exact canWrite_literal hword

theorem canWrite_ofOptionalText (text : Option String) : CanWrite (ofOptionalText text) := by
  cases text with
  | none =>
    have hword : ("null", ofOptionalText none) ∈ literals := by simp [literals, ofOptionalText]
    exact canWrite_literal hword
  | some text => exact canWrite_text text

theorem canWrite_ofTexts (texts : List String) : CanWrite (ofTexts texts) := by
  refine canWrite_list fun j hj => ?_
  obtain ⟨text, -, rfl⟩ := List.mem_map.1 hj
  exact canWrite_text text

theorem canWrite_ofEntries (entries : List (String × String)) : CanWrite (ofEntries entries) := by
  refine canWrite_object fun m hm => ?_
  obtain ⟨e, -, rfl⟩ := List.mem_map.1 hm
  exact canWrite_text e.2

end Json

theorem Operation.canWrite_of_writtenAs {op : Operation} {j : Json} (h : op.WrittenAs j) :
    CanWrite j := by
  obtain ⟨kept, hkept, rfl⟩ := h
  refine canWrite_object fun f hf => ?_
  have hfield := hkept.mem_fields hf
  simp only [fields, List.mem_cons, List.not_mem_nil, or_false] at hfield
  rcases hfield with rfl | rfl | rfl | rfl
  · exact canWrite_text op.qualifiedName
  · exact canWrite_ofFlag op.isStatic
  · exact canWrite_ofTexts op.parameterTypes
  · exact canWrite_ofOptionalText op.returnType

namespace ClassDescription

theorem canWrite_of_writtenAs {d : ClassDescription} {j : Json} (h : d.WrittenAs j) : CanWrite j := by
  obtain ⟨operations, entries, kept, hoperations, -, hkept, rfl⟩ := h
  refine canWrite_object fun f hf => ?_
  have hfield := hkept.mem_fields hf
  simp only [fields, List.mem_cons, List.not_mem_nil, or_false] at hfield
  rcases hfield with rfl | rfl | rfl | rfl | rfl | rfl
  · exact canWrite_text d.name
  · refine canWrite_list fun j hj => ?_
    have hboth := hoperations.flip.imp fun j op hop => And.intro (Operation.canWrite_of_writtenAs hop) hop
    exact ((List.forall₂_and_left _ _).1 hboth).1 j hj
  · exact canWrite_text d.preamble
  · exact canWrite_ofEntries entries
  · exact canWrite_ofTexts d.modifies
  · exact canWrite_ofTexts d.initialState

/-- All fields may be written, in order. -/
theorem exists_writtenAs (d : ClassDescription) : ∃ j, d.WrittenAs j := by
  refine ⟨_, d.operations.map fun op => .object (.ofList op.fields), _, _, ?_, .refl _, .all _ _, rfl⟩
  rw [List.forall₂_map_right_iff, List.forall₂_same]
  exact fun op _ => ⟨_, .all _ _, rfl⟩

/-- Every description can be written.  However it is written, as whichever text, reading the text gives
the description back. -/
theorem parse_written (d : ClassDescription) :
    (∃ j, d.WrittenAs j) ∧
      ∀ j, d.WrittenAs j → (∃ text, j.IsText text) ∧ ∀ text, j.IsText text → parse text = .ok d := by
  refine ⟨d.exists_writtenAs, fun j hj => ⟨(canWrite_of_writtenAs hj).exists_isText, ?_⟩⟩
  intro text htext
  rw [parse, parseAs_of_isText ofJson htext]
  exact ofJson_of_writtenAs hj

/-- A lamp with one operation and two procedures. -/
def lamp : ClassDescription where
  name := "Lamp"
  operations := [⟨"éteindre", false, [], none⟩]
  fragments := (SortedMap.empty.insert "off" "\n").insert "on" ""

/-- The lamp as a value, with some fields left out and the others out of order. -/
def lampJson : Json :=
  .object (.ofList
    [("fragments", ofEntries [("on", ""), ("off", "\n")]),
      ("operations", .list (.ofList [.object (.ofList
        [("return_type", .null), ("qualified_name", ofText "éteindre")])])),
      ("class", ofText "Lamp")])

/-- The lamp as a text, with escapes and space. -/
def lampText : String :=
  "\x7b\"fragments\":\x7b\"on\":\"\",\"off\":\"\\n\"\x7d, \"operations\":[\x7b\"return_type\":null," ++
    "\"qualified_name\":\"\\u00E9teindre\"\x7d],\"class\":\"Lamp\"\x7d\n"

theorem lamp_writtenAs : lamp.WrittenAs lampJson := by
  have hoperation : Operation.WrittenAs ⟨"éteindre", false, [], none⟩
      (.object (.ofList [("return_type", .null), ("qualified_name", ofText "éteindre")])) :=
    ⟨_, ⟨[("is_static", .bool false), ("parameter_types", ofTexts [])],
      (List.Perm.swap _ _ _).trans (.cons _ (@List.perm_append_comm _ [_] [_, _])),
      by simp [Operation.omittable]⟩, rfl⟩
  have hentries : [("on", ""), ("off", "\n")].Perm lamp.fragments.entries := by decide +kernel
  refine ⟨_, _, _, .cons hoperation .nil, hentries, ?_, rfl⟩
  refine ⟨[("preamble", ofText ""), ("modifies", ofTexts []), ("initial_state", ofTexts [])], ?_,
    by simp [omittable]⟩
  exact (@List.perm_middle _ _ [_, _] _).trans (.cons _ (@List.perm_middle _ _ [_, _] _).symm)

theorem lampText_isText : lampJson.IsText lampText := by
  refine ⟨['\n'], ?_, by decide⟩
  unfold lampText
  rw [String.toList_append]
  -- A literal is a list of characters, which is what the rules take apart.
  change Writes ((String.ofList _).toList ++ (String.ofList _).toList) _ _
  rw [String.toList_ofList, String.toList_ofList]
  apply @Writes.object [] _ _ _ blank_nil
  apply WritesMembers.member
  apply @writesMember_plain "fragments".toList (by decide) [] _ _ _ _ _ blank_nil
  · apply @Writes.object [] _ _ _ blank_nil
    apply WritesMembers.member
    apply @writesMember_plain "on".toList (by decide) [] _ _ _ _ _ blank_nil
    · exact writes_plain [] (by decide)
    apply @WritesMoreMembers.member [] _ _ _ blank_nil
    apply @writesMember_plain "off".toList (by decide) [] _ _ _ _ _ blank_nil
    · exact @Writes.string [] _ ['\n'] _ blank_nil (.short (by decide) .quote)
    exact @WritesMoreMembers.done [] _ blank_nil
  apply @WritesMoreMembers.member [] _ _ _ blank_nil
  apply @writesMember_plain "operations".toList (by decide) [' '] _ _ _ _ _ (by decide)
  · apply @Writes.list [] _ _ _ blank_nil
    apply WritesItems.item
    · apply @Writes.object [] _ _ _ blank_nil
      apply WritesMembers.member
      apply @writesMember_plain "return_type".toList (by decide) [] _ _ _ _ _ blank_nil
      · exact @Writes.literal [] _ "null" .null blank_nil (by simp [literals])
      apply @WritesMoreMembers.member [] _ _ _ blank_nil
      apply @writesMember_plain "qualified_name".toList (by decide) [] _ _ _ _ _ blank_nil
      · apply @Writes.string [] _ "éteindre".toList _ blank_nil
        apply @Spells.unit 'é'
        · exact .digits (by decide) (by decide) (by decide) (by decide)
        exact spells_plain "teindre".toList (by decide) _
      exact @WritesMoreMembers.done [] _ blank_nil
    exact @WritesMoreItems.done [] _ blank_nil
  apply @WritesMoreMembers.member [] _ _ _ blank_nil
  apply @writesMember_plain "class".toList (by decide) [] _ _ _ _ _ blank_nil
  · exact writes_plain "Lamp".toList (by decide)
  exact @WritesMoreMembers.done [] _ blank_nil

theorem parse_written_lamp :
    lamp.WrittenAs lampJson ∧ lampJson.IsText lampText ∧ parse lampText = .ok lamp :=
  ⟨lamp_writtenAs, lampText_isText, (lamp.parse_written.2 _ lamp_writtenAs).2 _ lampText_isText⟩

end ClassDescription

end Enabledness
