import Mathlib.Data.Set.Function
import Enabledness.Proofs.Run
import Enabledness.Text.Character

/-!
# Names tell queries apart

The name of a query is made of parts with `_` between them, none of which has a `_` of its own.  A tag of
a state is made of tags of actions with `$` between them; a `$` inside a tag of an action comes before
`2` or `5`, and no identifier starts with a digit, so that it is clear where a tag ends.

* `mangleChars_append_inj` : a tag of an action can be read off the front of a text.
* `State.tag_inj` : a state can be read off its tag.
* `Query.eq_of_nameParts_eq` : a query can be read off the parts of its name.
* `Query.name_injOn_iff` : where the names of actions are identifiers, the names of queries tell the
  queries about these actions apart exactly if the names of the actions tell the actions apart.
-/

namespace Enabledness

/-! ## Tags of actions -/

/-- A tag ends here: the text is over, or a `$` follows that escapes nothing. -/
def EndsTag (text : List Char) : Prop :=
  text = [] ∨ ∃ rest, text = '$' :: rest ∧ rest.head? ≠ some '2' ∧ rest.head? ≠ some '5'

/-- A mangled name does not end before its last character. -/
theorem not_endsTag_mangleChars_cons (c : Char) (cs rest : List Char) :
    ¬ EndsTag (mangleChars (c :: cs) ++ rest) := by
  rintro (h | ⟨r, h, h2, h5⟩)
  · unfold mangleChars at h
    split_ifs at h
    all_goals simp at h
  · unfold mangleChars at h
    split_ifs at h with hdollar hlow
    · obtain rfl := (List.cons.inj h).2
      exact h2 rfl
    · obtain rfl := (List.cons.inj h).2
      exact h5 rfl
    · exact hdollar (List.cons.inj h).1

/-- A mangled name can be read off the front of a text, up to where the tag ends. -/
theorem mangleChars_append_inj {cs cs' rest rest' : List Char} (hrest : EndsTag rest)
    (hrest' : EndsTag rest') (h : mangleChars cs ++ rest = mangleChars cs' ++ rest') :
    cs = cs' ∧ rest = rest' := by
  -- by induction on the first name; where one name is over, so is the other
  induction cs generalizing cs' with
  | nil =>
    cases cs' with
    | nil => exact ⟨rfl, h⟩
    | cons c' cs' =>
      have h : rest = mangleChars (c' :: cs') ++ rest' := h
      rw [h] at hrest
      exact absurd hrest (not_endsTag_mangleChars_cons c' cs' rest')
  | cons c cs ih =>
    cases cs' with
    | nil =>
      have h : mangleChars (c :: cs) ++ rest = rest' := h
      rw [← h] at hrest'
      exact absurd hrest' (not_endsTag_mangleChars_cons c cs rest)
    | cons c' cs' =>
      -- both texts start with the same character, which is escaped in the same way
      have hhead : c = c' ∧ mangleChars cs ++ rest = mangleChars cs' ++ rest' := by
        simp only [mangleChars] at h
        split_ifs at h
        all_goals grind
      obtain ⟨rfl, htail⟩ := hhead
      obtain ⟨rfl, rfl⟩ := ih htail
      exact ⟨rfl, rfl⟩

/-- The separator of the parts of a name does not occur in a mangled name. -/
theorem not_mem_mangleChars (cs : List Char) : '_' ∉ mangleChars cs := by
  induction cs with
  | nil => exact List.not_mem_nil
  | cons c cs ih =>
    unfold mangleChars
    split_ifs with hdollar hlow
    all_goals simp_all [eq_comm]

theorem Action.toList_tag (a : Action) : a.tag.toList = mangleChars a.name.toList :=
  String.toList_ofList

/-- The name of an action can be read off its tag. -/
theorem Action.tag_inj {a b : Action} (h : a.tag = b.tag) : a.name = b.name := by
  have hchars : mangleChars a.name.toList ++ [] = mangleChars b.name.toList ++ [] := by
    rw [← toList_tag, ← toList_tag, h]
  exact String.toList_inj.1 (mangleChars_append_inj (.inl rfl) (.inl rfl) hchars).1

/-! ## Tags of states -/

/-- No identifier starts with a digit, mangled or not. -/
theorem head?_mangleChars {name : String} (h : Text.isIdentifier name = true) (rest : List Char) :
    ∃ c, (mangleChars name.toList ++ rest).head? = some c ∧ c ≠ '2' ∧ c ≠ '5' := by
  unfold Text.isIdentifier at h
  split at h
  · simp at h
  · next c cs hname =>
    have hstart : Text.isIdentifierStart c = true := (Bool.and_eq_true_iff.1 h).1
    rw [hname]
    unfold mangleChars
    split_ifs
    · exact ⟨'$', rfl, by decide⟩
    · exact ⟨'$', rfl, by decide⟩
    · refine ⟨c, rfl, ?_, ?_⟩
      · rintro rfl
        exact absurd hstart (by decide +kernel)
      · rintro rfl
        exact absurd hstart (by decide +kernel)

/-- The tags of some names, divided by `$`. -/
def joinTags (names : List String) : List Char :=
  ['$'].intercalate (names.map fun name => mangleChars name.toList)

/-- What follows the first tag. -/
def tailTags : List String → List Char
  | [] => []
  | name :: names => '$' :: joinTags (name :: names)

theorem joinTags_cons (name : String) (names : List String) :
    joinTags (name :: names) = mangleChars name.toList ++ tailTags names := by
  cases names with
  | nil => simp [joinTags, tailTags]
  | cons name' names => simp [joinTags, tailTags]

theorem endsTag_tailTags {names : List String}
    (h : ∀ name ∈ names, Text.isIdentifier name = true) : EndsTag (tailTags names) := by
  cases names with
  | nil => exact .inl rfl
  | cons name names =>
    obtain ⟨c, hc, h2, h5⟩ := head?_mangleChars (h name List.mem_cons_self) (tailTags names)
    refine .inr ⟨_, rfl, ?_⟩
    rw [joinTags_cons, hc]
    exact ⟨fun hx => h2 (Option.some.inj hx), fun hx => h5 (Option.some.inj hx)⟩

/-- Identifiers can be read off their tags. -/
theorem joinTags_inj {names names' : List String}
    (hnames : ∀ name ∈ names, Text.isIdentifier name = true)
    (hnames' : ∀ name ∈ names', Text.isIdentifier name = true)
    (h : joinTags names = joinTags names') : names = names' := by
  have hne : ∀ name names, Text.isIdentifier name = true → joinTags (name :: names) ≠ [] := by
    intro name names hname hnil
    obtain ⟨c, hc, -⟩ := head?_mangleChars hname (tailTags names)
    rw [← joinTags_cons, hnil] at hc
    simp at hc
  induction names generalizing names' with
  | nil =>
    cases names' with
    | nil => rfl
    | cons name' names' => exact absurd h.symm (hne name' names' (hnames' name' List.mem_cons_self))
  | cons name names ih =>
    cases names' with
    | nil => exact absurd h (hne name names (hnames name List.mem_cons_self))
    | cons name' names' =>
      rw [List.forall_mem_cons] at hnames hnames'
      rw [joinTags_cons, joinTags_cons] at h
      -- the `$` before the next tag escapes nothing, since an identifier follows
      obtain ⟨hname, htail⟩ := mangleChars_append_inj (endsTag_tailTags hnames.2)
        (endsTag_tailTags hnames'.2) h
      have hrest : names = names' := by
        cases names with
        | nil =>
          cases names' with
          | nil => rfl
          | cons _ _ => simp [tailTags] at htail
        | cons _ _ =>
          cases names' with
          | nil => simp [tailTags] at htail
          | cons _ _ => exact ih hnames.2 hnames'.2 (List.cons.inj htail).2
      rw [String.toList_inj.1 hname, hrest]

theorem State.toList_tag (state : State) :
    state.tag.toList = joinTags (state.toList.map Action.name) := by
  simp [State.tag, joinTags, Function.comp_def, Action.toList_tag]

/-- A state can be read off its tag, if the names of the actions tell them apart. -/
theorem State.tag_inj {A : Set Action} (hnames : ∀ a ∈ A, Text.isIdentifier a.name = true)
    (hdistinct : A.InjOn Action.name) {state state' : State} (hstate : ∀ a ∈ state, a ∈ A)
    (hstate' : ∀ a ∈ state', a ∈ A) (h : state.tag = state'.tag) : state = state' := by
  have hidentifier : ∀ state : State, (∀ a ∈ state, a ∈ A) →
      ∀ name ∈ state.toList.map Action.name, Text.isIdentifier name = true := by
    intro state hstate name hname
    obtain ⟨a, ha, rfl⟩ := List.mem_map.1 hname
    exact hnames a (hstate a ha)
  have hmap : state.toList.map Action.name = state'.toList.map Action.name := by
    apply joinTags_inj (hidentifier state hstate) (hidentifier state' hstate')
    rw [← toList_tag, ← toList_tag, h]
  have hsub : ∀ {state state' : State}, (∀ a ∈ state, a ∈ A) → (∀ a ∈ state', a ∈ A) →
      state.toList.map Action.name = state'.toList.map Action.name → ∀ a ∈ state, a ∈ state' := by
    intro state state' hstate hstate' hmap a ha
    have hname : a.name ∈ state.toList.map Action.name := List.mem_map_of_mem ha
    rw [hmap] at hname
    obtain ⟨b, hb, hba⟩ := List.mem_map.1 hname
    rwa [← hdistinct (hstate' b hb) (hstate a ha) hba]
  exact SortedSet.ext_mem fun a => ⟨hsub hstate hstate' hmap a, hsub hstate' hstate hmap.symm a⟩

theorem State.not_mem_tag (state : State) : '_' ∉ state.tag.toList := by
  rw [State.toList_tag]
  induction state.toList.map Action.name with
  | nil => exact List.not_mem_nil
  | cons name names ih =>
    rw [joinTags_cons, List.mem_append, not_or]
    refine ⟨not_mem_mangleChars _, ?_⟩
    cases names with
    | nil => exact List.not_mem_nil
    | cons name' names =>
      rw [tailTags, List.mem_cons, not_or]
      exact ⟨by decide, ih⟩

/-! ## Names of queries -/

/-- The parts of the name of a query. -/
def Query.nameParts (q : Query) : List String :=
  match q.kind with
  | .invariant completion => ["q", "inv", completion.tag, "", q.source.tag, "", q.main.tag]
  | .transition completion target =>
    ["q", "tr", completion.tag, "", q.source.tag, "", q.main.tag, "", target.tag]
  | .necessity polarity .atSource tested =>
    ["q", polarity.tag, "l", "", q.source.tag, "", q.main.tag, "", tested.tag]
  | .necessity polarity .global tested =>
    ["q", polarity.tag, "g", "", q.main.tag, "", tested.tag]

theorem Query.toList_name (q : Query) :
    q.name.toList = ['_'].intercalate (q.nameParts.map String.toList) := by
  unfold name nameParts
  rcases q.kind with c | ⟨c, target⟩ | ⟨p, _ | _, tested⟩
  all_goals simp

theorem Query.not_mem_of_mem_nameParts (q : Query) :
    ∀ part ∈ q.nameParts.map String.toList, '_' ∉ part := by
  have hcompletion : ∀ c : Completion, '_' ∉ c.tag.toList := by
    intro c
    cases c
    all_goals decide
  have hpolarity : ∀ p : Polarity, '_' ∉ p.tag.toList := by
    intro p
    cases p
    all_goals decide
  have haction : ∀ a : Action, '_' ∉ a.tag.toList := fun a => by
    rw [a.toList_tag]
    exact not_mem_mangleChars _
  unfold nameParts
  split
  all_goals simp [hcompletion, hpolarity, haction, State.not_mem_tag]

/-- The parts of a name can be read off it. -/
theorem Query.nameParts_eq {q q' : Query} (h : q.name = q'.name) : q.nameParts = q'.nameParts := by
  have hsplit : ∀ q : Query, q.name.toList.splitOn '_' = q.nameParts.map String.toList := by
    intro q
    rw [q.toList_name]
    refine List.splitOn_intercalate '_' q.not_mem_of_mem_nameParts ?_
    unfold nameParts
    split
    all_goals simp
  have hparts : q.nameParts.map String.toList = q'.nameParts.map String.toList := by
    rw [← hsplit, ← hsplit, h]
  exact List.map_injective_iff.2 (fun _ _ => String.toList_inj.1) hparts

theorem Completion.tag_inj {c c' : Completion} (h : c.tag = c'.tag) : c = c' := by
  cases c
  all_goals cases c'
  all_goals first | rfl | exact absurd h (by decide)

theorem Polarity.tag_inj {p p' : Polarity} (h : p.tag = p'.tag) : p = p' := by
  cases p
  all_goals cases p'
  all_goals first | rfl | exact absurd h (by decide)

/-- The source, the tested action and the target of a query have actions of a set only. -/
structure Query.Within (A : Set Action) (q : Query) : Prop where
  mem_of_source : ∀ a ∈ q.source, a ∈ A
  mem_of_tested : ∀ t, q.tested? = some t → t ∈ A
  mem_of_target : ∀ target, q.target? = some target → ∀ a ∈ target, a ∈ A

theorem Query.IsOver.within {c : ActionSet} {q : Query} (h : q.IsOver c) :
    q.Within {a | a ∈ c.actions} :=
  ⟨h.mem_of_source, h.mem_of_tested, h.mem_of_target⟩

/-- A query can be read off the parts of its name, if the names of the actions are identifiers and
tell the actions apart. -/
theorem Query.eq_of_nameParts_eq {A : Set Action} {q q' : Query}
    (hnames : ∀ a ∈ A, Text.isIdentifier a.name = true) (hdistinct : A.InjOn Action.name)
    (hq : q.Within A) (hq' : q'.Within A) (hparts : q.nameParts = q'.nameParts) : q = q' := by
  have haction : ∀ {a b : Action}, a ∈ A → b ∈ A → a.tag = b.tag → a = b :=
    fun ha hb htag => hdistinct ha hb (Action.tag_inj htag)
  have hmain := haction (hq.mem_of_source _ q.main_mem_source)
    (hq'.mem_of_source _ q'.main_mem_source)
  have hsource := State.tag_inj hnames hdistinct hq.mem_of_source hq'.mem_of_source
  have hword : ∀ p : Polarity, "inv" ≠ p.tag ∧ "tr" ≠ p.tag := by
    intro p
    cases p
    all_goals decide
  have hword' := fun p => And.intro (hword p).1.symm (hword p).2.symm
  unfold nameParts at hparts
  -- the second and the third part tell the kinds apart, so that four cases are left
  rcases hk : q.kind with c | ⟨c, target⟩ | ⟨p, _ | _, tested⟩
  all_goals rcases hk' : q'.kind with c' | ⟨c', target'⟩ | ⟨p', _ | _, tested'⟩
  all_goals simp only [hk, hk', hword, hword', List.cons.injEq, String.reduceEq, true_and, and_true,
    false_and, and_false] at hparts
  · obtain ⟨hc, hs, hm⟩ := hparts
    exact ext_of (hsource hs) (hmain hm) (by rw [hk, hk', Completion.tag_inj hc])
  · obtain ⟨hc, hs, hm, ht⟩ := hparts
    have htarget := State.tag_inj hnames hdistinct (hq.mem_of_target target (by simp [target?, hk]))
      (hq'.mem_of_target target' (by simp [target?, hk'])) ht
    exact ext_of (hsource hs) (hmain hm) (by rw [hk, hk', Completion.tag_inj hc, htarget])
  · obtain ⟨hp, hs, hm, ht⟩ := hparts
    have htested := haction (hq.mem_of_tested tested (by simp [tested?, hk]))
      (hq'.mem_of_tested tested' (by simp [tested?, hk'])) ht
    exact ext_of (hsource hs) (hmain hm) (by rw [hk, hk', Polarity.tag_inj hp, htested])
  · obtain ⟨hp, hm, ht⟩ := hparts
    have htested := haction (hq.mem_of_tested tested (by simp [tested?, hk]))
      (hq'.mem_of_tested tested' (by simp [tested?, hk'])) ht
    -- the name leaves out the source, which the main action determines
    refine ext_of ?_ (hmain hm) (by rw [hk, hk', Polarity.tag_inj hp, htested])
    exact source_eq_of_isGlobal (by simp [isGlobal, hk]) (by simp [isGlobal, hk']) (hmain hm)

/-- Names tell the queries about a class apart, if the names of its actions are identifiers and tell the
actions apart. -/
theorem Query.eq_of_name_eq {set : ActionSet} {q q' : Query}
    (hnames : ∀ a ∈ set.actions, Text.isIdentifier a.name = true)
    (hdistinct : ∀ a ∈ set.actions, ∀ b ∈ set.actions, a.name = b.name → a = b)
    (hq : q.IsOver set) (hq' : q'.IsOver set) (h : q.name = q'.name) : q = q' :=
  eq_of_nameParts_eq (A := {a | a ∈ set.actions}) hnames
    (fun _ ha _ hb hname => hdistinct _ ha _ hb hname) hq.within hq'.within (nameParts_eq h)

/-- The query whether the invariant survives the only action of its state. -/
def Action.invariantQuery (a : Action) : Query :=
  ⟨SortedSet.empty.insert a, a, .invariant .normal,
    faultless_invariant (SortedSet.mem_insert.2 (.inl rfl)) _⟩

theorem Action.within_invariantQuery {A : Set Action} {a : Action} (ha : a ∈ A) :
    a.invariantQuery.Within A where
  mem_of_source b hb := by rwa [List.mem_singleton.1 hb]
  mem_of_tested t ht := by simp [Query.tested?, invariantQuery] at ht
  mem_of_target target ht := by simp [Query.target?, invariantQuery] at ht

/-- The name of this query says of its action what the action is called. -/
theorem Action.name_invariantQuery {a b : Action} (h : a.name = b.name) :
    a.invariantQuery.name = b.invariantQuery.name := by
  have htag : a.tag = b.tag := by rw [tag, tag, h]
  have hstate : State.tag (SortedSet.empty.insert a) = State.tag (SortedSet.empty.insert b) := by
    simp only [State.tag, SortedSet.insert, SortedSet.empty, SortedSet.insertSorted, List.map_cons,
      htag]
  simp only [Query.name, invariantQuery, hstate, htag]

/-- **Names tell queries apart.**  Let the names of some actions be identifiers.  The names of the
queries about these actions tell the queries apart, also those that leave out the source, exactly if the
names of the actions tell the actions apart. -/
theorem Query.name_injOn_iff {A : Set Action}
    (hnames : ∀ a ∈ A, Text.isIdentifier a.name = true) :
    {q : Query | q.Within A}.InjOn Query.name ↔ A.InjOn Action.name := by
  constructor
  · intro hqueries a ha b hb hname
    have hq : a.invariantQuery = b.invariantQuery :=
      hqueries (Action.within_invariantQuery ha) (Action.within_invariantQuery hb)
        (Action.name_invariantQuery hname)
    exact congrArg Query.main hq
  · intro hdistinct q hq q' hq' hname
    exact eq_of_nameParts_eq hnames hdistinct hq hq' (nameParts_eq hname)

/-- Actions whose names have the separators of names and tags in them, and what these are escaped to. -/
def escapeActions : List Action :=
  ["x", "x_", "x$", "x$5f", "$24", "_5f", "é٣"].map fun name =>
    ⟨{ qualifiedName := "Escape#" ++ name ++ "_pre" }, { qualifiedName := "Escape#" ++ name }⟩

theorem Query.name_injOn_escapeActions :
    (∀ a ∈ escapeActions, Text.isIdentifier a.name = true) ∧
      {q : Query | q.Within {a | a ∈ escapeActions}}.InjOn Query.name := by
  have hnames : ∀ a ∈ escapeActions, Text.isIdentifier a.name = true := by decide +kernel
  have hdistinct : ∀ a ∈ escapeActions, ∀ b ∈ escapeActions, a.name = b.name → a = b := by
    decide +kernel
  exact ⟨hnames, (Query.name_injOn_iff hnames).2 fun _ ha _ hb => hdistinct _ ha _ hb⟩

end Enabledness
