import Mathlib.Data.List.Induction
import Enabledness.Program

/-!
# Programs keep the first procedure of each name

A program over its whole life: any additions, one after the other, on one that starts with a base text
only.

* `firsts` : the first addition of each name.
* `contains_after`, `fragments_after` : the names that are taken, and the procedures in their order.  The
  former decide about the next addition, the latter are what the verifier reads.
* `after_firsts` : adding the first ones alone gives the same program.
* `getElem?_answers` : what each addition returns.
* `replays_first_additions` : what follows for every sequence of additions and for every part of it.
-/

namespace Enabledness

namespace Program

/-! ## Fragments -/

/-- Every fragment but the base is a procedure. -/
theorem length_fragments (p : Program) : p.fragments.length = p.size + 1 := by
  have hentries : p.procedures.entries.length = p.procedures.keys.length := by
    rw [← Table.map_fst_entries, List.length_map]
  rw [fragments, List.length_cons, List.length_map, hentries, Table.keys, List.length_reverse, size,
    Table.size]

/-- A procedure is a fragment with its name. -/
theorem get?_eq_some_iff_mem_fragments {p : Program} {name text : String} :
    p.procedures.get? name = some text ↔ (some name, text) ∈ p.fragments := by
  rw [Table.get?_eq_some_iff, fragments]
  simp

/-- An addition appends a fragment if its name is new. -/
theorem fragments_append (p : Program) (name text : String) :
    (p.append name text).fragments =
      p.fragments ++ if p.contains name then [] else [(some name, text)] := by
  by_cases h : p.contains name = true
  · rw [append_of_contains h, if_pos h, List.append_nil]
  · have hkeys : name ∉ p.procedures.keys := fun hmem => h (Table.contains_iff.2 hmem)
    rw [append, if_neg h, if_neg h, fragments, Table.entries_insert_of_not_mem text hkeys,
      List.map_append, ← List.cons_append]
    rfl

/-- The text is that of the fragments, each after a line break. -/
theorem toList_render (p : Program) :
    p.render.toList = p.fragments.flatMap fun f => '\n' :: f.2.toList := by
  rw [render, String.toList_join, List.flatMap_map]
  simp

/-! ## Additions -/

/-- A procedure that is offered to a program. -/
structure Addition where
  /-- Its name. -/
  name : String
  /-- Its text. -/
  text : String

namespace Addition

/-- The program after an addition. -/
def apply (c : Addition) (p : Program) : Program := p.append c.name c.text

/-- The answer of an addition: its name was new. -/
def returns (c : Addition) (p : Program) : Bool := p.isNew c.name

/-- The procedure as a fragment of a program. -/
def fragment (c : Addition) : Option String × String := (some c.name, c.text)

end Addition

/-- The additions whose name no earlier one has. -/
def firsts : List Addition → List Addition
  | [] => []
  | c :: calls => c :: (firsts calls).filter fun d => d.name ≠ c.name

theorem firsts_append (calls more : List Addition) :
    firsts (calls ++ more) =
      firsts calls ++ (firsts more).filter fun d => d.name ∉ calls.map Addition.name := by
  induction calls with
  | nil => exact (List.filter_eq_self.2 fun d _ => decide_eq_true List.not_mem_nil).symm
  | cons c calls ih =>
    rw [List.cons_append, firsts, ih, firsts, List.filter_append, List.filter_filter, List.cons_append]
    simp only [List.map_cons, List.mem_cons, not_or, Bool.decide_and]

/-- One more addition counts if its name is new. -/
theorem firsts_snoc (calls : List Addition) (c : Addition) :
    firsts (calls ++ [c]) =
      firsts calls ++ if c.name ∈ calls.map Addition.name then [] else [c] := by
  rw [firsts_append, firsts, firsts, List.filter_nil]
  by_cases h : c.name ∈ calls.map Addition.name
  · rw [if_pos h, List.filter_cons_of_neg (by simpa using h), List.filter_nil]
  · rw [if_neg h, List.filter_cons_of_pos (by simpa using h), List.filter_nil]

/-- The names stand in the order in which they come first. -/
theorem map_name_firsts (calls : List Addition) :
    (firsts calls).map Addition.name = (calls.map Addition.name).eraseDups := by
  induction calls using List.reverseRecOn with
  | nil => rfl
  | append_singleton calls c ih =>
    rw [firsts_snoc, List.map_append, ih, List.map_append, List.map_singleton, Table.eraseDups_concat]
    by_cases h : c.name ∈ calls.map Addition.name
    · rw [if_pos h, if_pos (List.mem_eraseDups.2 h), List.map_nil, List.append_nil]
    · rw [if_neg h, if_neg fun hmem => h (List.mem_eraseDups.1 hmem), List.map_singleton]

/-- An addition is the first of its name if it is the one that is found by it. -/
theorem mem_firsts_iff {calls : List Addition} {c : Addition} :
    c ∈ firsts calls ↔ calls.find? (fun d => d.name = c.name) = some c := by
  induction calls with
  | nil => simp [firsts]
  | cons d calls ih =>
    rw [firsts, List.mem_cons, List.mem_filter, ih, List.find?_cons]
    by_cases h : d.name = c.name
    · simp [h, eq_comm]
    · have hne : c ≠ d := fun hcd => h (hcd ▸ rfl)
      simp [h, hne, Ne.symm h]

/-! ## A program from its beginning -/

/-- The program that starts from a base text, after some additions. -/
def after (base : String) (calls : List Addition) : Program :=
  calls.foldl (fun p c => c.apply p) (ofBase base)

variable (base : String) (calls : List Addition)

theorem after_snoc (c : Addition) : after base (calls ++ [c]) = c.apply (after base calls) := by
  rw [after, List.foldl_append, List.foldl_cons, List.foldl_nil, after]

/-- The names that are taken are those that were added. -/
theorem contains_after {name : String} :
    (after base calls).contains name = true ↔ name ∈ calls.map Addition.name := by
  induction calls using List.reverseRecOn with
  | nil => simp [after, ofBase, contains, Table.contains]
  | append_singleton calls c ih =>
    rw [after_snoc, Addition.apply, contains_append, Bool.or_eq_true, decide_eq_true_iff, ih,
      List.map_append, List.mem_append, List.map_singleton, List.mem_singleton, or_comm]

/-- The procedures are the first additions. -/
theorem fragments_after :
    (after base calls).fragments = (none, base) :: (firsts calls).map Addition.fragment := by
  induction calls using List.reverseRecOn with
  | nil => rfl
  | append_singleton calls c ih =>
    rw [after_snoc, Addition.apply, fragments_append, ih, firsts_snoc, List.map_append,
      ← List.cons_append]
    -- the same names are taken for the program and for the list of first additions
    by_cases h : c.name ∈ calls.map Addition.name
    · rw [if_pos ((contains_after base calls).2 h), if_pos h, List.map_nil]
    · rw [if_neg fun hc => h ((contains_after base calls).1 hc), if_neg h]
      rfl

/-- A procedure has the text of the first addition of its name. -/
theorem get?_after (name : String) :
    (after base calls).procedures.get? name =
      (calls.find? fun c => c.name = name).map Addition.text := by
  ext text
  rw [get?_eq_some_iff_mem_fragments, fragments_after, Option.map_eq_some_iff]
  simp only [List.mem_cons, List.mem_map, Addition.fragment, Prod.mk.injEq, reduceCtorEq, false_and,
    false_or, Option.some.injEq]
  constructor
  · rintro ⟨c, hc, rfl, rfl⟩
    exact ⟨c, mem_firsts_iff.1 hc, rfl⟩
  · rintro ⟨c, hc, rfl⟩
    obtain rfl : c.name = name := by simpa using List.find?_some hc
    exact ⟨c, mem_firsts_iff.2 hc, rfl, rfl⟩

/-- Later additions of a name can be left out. -/
theorem after_firsts : after base (firsts calls) = after base calls := by
  induction calls using List.reverseRecOn with
  | nil => rfl
  | append_singleton calls c ih =>
    rw [firsts_snoc, after_snoc]
    by_cases h : c.name ∈ calls.map Addition.name
    · rw [if_pos h, List.append_nil, ih, Addition.apply,
        append_of_contains ((contains_after base calls).2 h)]
    · rw [if_neg h, after_snoc, ih]

/-! ## What additions return -/

/-- The answers of additions, one after the other. -/
def answersFrom (p : Program) : List Addition → List Bool
  | [] => []
  | c :: calls => c.returns p :: (c.apply p).answersFrom calls

/-- Each answer is given by the program after the additions before. -/
theorem getElem?_answersFrom (p : Program) (i : Nat) :
    (p.answersFrom calls)[i]? =
      calls[i]?.map fun c => c.returns ((calls.take i).foldl (fun p c => c.apply p) p) := by
  induction calls generalizing p i with
  | nil => rfl
  | cons c calls ih =>
    cases i with
    | zero => rfl
    | succ i => exact ih (c.apply p) i

/-- The answers of additions to a program that has a base text only. -/
def answers : List Bool := (ofBase base).answersFrom calls

/-- An addition returns true if its name was not added before. -/
theorem returns_after (c : Addition) :
    c.returns (after base calls) = decide (c.name ∉ calls.map Addition.name) := by
  rw [Addition.returns, isNew, Bool.eq_iff_iff, Bool.not_eq_true', ← Bool.not_eq_true, contains_after,
    decide_eq_true_iff]

/-- Each addition returns whether no earlier one has its name. -/
theorem getElem?_answers (i : Nat) :
    (answers base calls)[i]? =
      calls[i]?.map fun c => decide (c.name ∉ (calls.take i).map Addition.name) := by
  rw [answers, getElem?_answersFrom]
  exact congrArg (calls[i]?.map ·) (funext (returns_after base (calls.take i)))

/-! ## What was there stays in its place -/

theorem fragments_grow (more : List Addition) :
    (after base calls).fragments <+: (after base (calls ++ more)).fragments := by
  rw [fragments_after, fragments_after, firsts_append, List.map_append, ← List.cons_append]
  exact List.prefix_append _ _

theorem render_grows (more : List Addition) :
    (after base calls).render.toList <+: (after base (calls ++ more)).render.toList := by
  obtain ⟨added, hadded⟩ := fragments_grow base calls more
  rw [toList_render, toList_render, ← hadded, List.flatMap_append]
  exact List.prefix_append _ _

/-- **Programs replay the first addition of each name.**  After any additions to a program that has a
base text only:

* an addition returned true if and only if no earlier one has its name;
* the fragments are the base, without a name, and the first additions of each name with their texts;
* these come once for each name, in the order in which the names came first, and give the same program
  if they are all that is added;
* the procedures are counted by the fragments other than the base;
* a name is taken if and only if it was added;
* the whole text is that of the fragments, each after a line break;
* more additions leave this text as it is and write behind it. -/
theorem replays_first_additions :
    (∀ i, (answers base calls)[i]? =
      calls[i]?.map fun c => decide (c.name ∉ (calls.take i).map Addition.name)) ∧
    (after base calls).fragments = (none, base) :: (firsts calls).map Addition.fragment ∧
    (firsts calls).map Addition.name = (calls.map Addition.name).eraseDups ∧
    (∀ c, c ∈ firsts calls ↔ calls.find? (fun d => d.name = c.name) = some c) ∧
    after base (firsts calls) = after base calls ∧
    (after base calls).fragments.length = (after base calls).size + 1 ∧
    (∀ name, (after base calls).contains name = true ↔ name ∈ calls.map Addition.name) ∧
    (after base calls).render.toList =
      (after base calls).fragments.flatMap (fun f => '\n' :: f.2.toList) ∧
    ∀ more, (after base calls).render.toList <+: (after base (calls ++ more)).render.toList := by
  exact ⟨getElem?_answers base calls, fragments_after base calls, map_name_firsts calls,
    fun c => mem_firsts_iff, after_firsts base calls, length_fragments _,
    fun name => contains_after base calls, toList_render _, render_grows base calls⟩

example : (after "" [⟨"q", "one"⟩, ⟨"r", "two"⟩, ⟨"q", "three"⟩]).render = "\n\none\ntwo" := by
  decide +kernel

end Program

end Enabledness
