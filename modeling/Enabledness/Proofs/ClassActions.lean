import Enabledness.ActionSet
import Enabledness.Exploration.Rank
import Enabledness.Verifier.Concrete

/-!
# The actions of an accepted class

Which actions an accepted class has, and what this means for the class of a concrete model.

* `ClassTable.declared_of_mem_actions`, `ClassTable.exists_action_of_declared` : the actions of an
  accepted class are the names that are declared together with a precondition, each once.
* `ClassTable.eq_of_qualifiedName_eq`, `ClassTable.invariant_of_actionSet` : no two actions share a name,
  and the invariant is not taken for a precondition.
* `ConcreteModel.classTable` : the class of a concrete model, an operation and a precondition for each
  action.
* `ConcreteModel.mem_actions_iff` : if this class is accepted, its actions are those of the model, one
  for each name.
* `ConcreteModel.NamesApart` : what an action is called does not name another one.
-/

namespace Enabledness

/-- Each member of a list has its result in a successful `mapM`. -/
theorem exists_mem_of_mapM {α β ε : Type} {f : α → Except ε β} {l : List α} {r : List β}
    (h : l.mapM f = .ok r) {a : α} (ha : a ∈ l) : ∃ b ∈ r, f a = .ok b := by
  induction l generalizing r with
  | nil => exact absurd ha List.not_mem_nil
  | cons a' l ih =>
    rw [List.mapM_cons] at h
    cases hf : f a' with
    | error fault => simp [hf, bind, Except.bind] at h
    | ok b =>
      cases hl : l.mapM f with
      | error fault => simp [hf, hl, bind, Except.bind] at h
      | ok bs =>
        simp only [hf, hl, bind, Except.bind, pure, Except.pure, Except.ok.injEq] at h
        subst h
        rcases List.mem_cons.1 ha with rfl | ha
        · exact ⟨b, List.mem_cons_self, hf⟩
        · obtain ⟨b', hb', hf'⟩ := ih hl ha
          exact ⟨b', List.mem_cons_of_mem _ hb', hf'⟩

namespace ClassTable

/-! ## Groups of operations -/

/-- The instance operations with a qualified name, in order of declaration. -/
def declared (c : ClassTable) (name : String) : List Operation :=
  c.operations.filter fun op => !op.isStatic && decide (op.qualifiedName = name)

theorem mem_declared {c : ClassTable} {name : String} {op : Operation} :
    op ∈ c.declared name ↔
      op ∈ c.operations ∧ op.isStatic = false ∧ op.qualifiedName = name := by
  simp [declared]

/-- Adding operations to groups one after the other. -/
theorem get?_foldl_groups (l : List Operation) (groups : Table String (List Operation))
    (name : String) :
    (l.foldl (fun groups op => groups.alter op.qualifiedName [] (· ++ [op])) groups).get? name =
      if l.filter (fun op => op.qualifiedName = name) = [] then groups.get? name
      else some ((groups.get? name).getD [] ++ l.filter fun op => op.qualifiedName = name) := by
  induction l generalizing groups with
  | nil => rfl
  | cons op l ih =>
    rw [List.foldl_cons, ih, Table.get?_alter]
    by_cases hname : op.qualifiedName = name
    · subst hname
      by_cases hrest : l.filter (fun op' => op'.qualifiedName = op.qualifiedName) = []
      · simp [hrest]
      · simp [hrest]
    · have hne : name ≠ op.qualifiedName := Ne.symm hname
      simp only [List.filter_cons, hname, hne, decide_false, if_false, Bool.false_eq_true]

/-- The group of a name holds what is declared under that name. -/
theorem get?_instanceGroups (c : ClassTable) (name : String) :
    c.instanceGroups.get? name =
      if c.declared name = [] then none else some (c.declared name) := by
  have hfilter : (c.operations.filter fun op => !op.isStatic).filter
      (fun op => op.qualifiedName = name) = c.declared name := by
    rw [List.filter_filter, declared]
    congr 1
    funext op
    exact Bool.and_comm _ _
  rw [instanceGroups, get?_foldl_groups, hfilter, Table.get?_empty]
  rfl

/-! ## Actions of an accepted class -/

/-- A name has no precondition, or it is an action: its operation and its precondition are the only
declarations of their names. -/
theorem actionOf_cases {groups : Table String (List Operation)} {name : String}
    {operations : List Operation} {found : Option Action}
    (h : actionOf groups name operations = .ok found) :
    (groups.get? (name ++ preconditionSuffix) = none ∧ found = none) ∨
    ∃ a, found = some a ∧ operations = [a.operation] ∧
      groups.get? (name ++ preconditionSuffix) = some [a.precondition] ∧
      a.precondition.returnsBool = true ∧ Text.isIdentifier a.name = true := by
  have honly : ∀ {n ops op}, only n ops = .ok op → ops = [op] := by
    intro n ops op hop
    unfold only at hop
    split at hop
    · rw [Except.ok.inj hop]
    · simp at hop
  unfold actionOf at h
  simp only at h
  split at h
  · next hnone =>
    refine Or.inl ⟨hnone, ?_⟩
    split at h
    · split at h
      · exact (Except.ok.inj h).symm
      · simp at h
    · exact (Except.ok.inj h).symm
  · next preconditions hpre =>
    cases hop : only name operations with
    | error fault => simp [hop, bind, Except.bind] at h
    | ok operation =>
      cases hp : only (name ++ preconditionSuffix) preconditions with
      | error fault => simp [hop, hp, bind, Except.bind] at h
      | ok precondition =>
        simp only [hop, hp, bind, Except.bind] at h
        -- the three checks of a declared action
        split at h
        · simp at h
        · next hname =>
          split at h
          · simp at h
          · next hbool =>
            split at h
            · simp at h
            · refine Or.inr ⟨_, (Except.ok.inj h).symm, honly hop, ?_, by simpa using hbool,
                Bool.of_not_eq_false hname⟩
              rw [hpre, honly hp]

section Accepted

variable {c : ClassTable} {s : ActionSet} (h : c.actionSet = .ok s)

include h

/-- An accepted class has gone through all its names. -/
theorem exists_found_of_actionSet : ∃ found,
    (c.instanceGroups.entries.mapM fun group => actionOf c.instanceGroups group.1 group.2) =
      .ok found ∧ s.actions = SortedSet.ofList (found.filterMap id) := by
  unfold actionSet at h
  simp only [bind, Except.bind] at h
  split at h
  · simp at h
  · split at h
    · simp at h
    · next found hfound => exact ⟨found, hfound, by rw [← Except.ok.inj h]⟩

/-- Each action was found under a name. -/
theorem exists_actionOf_of_mem {a : Action} (ha : a ∈ s.actions) : ∃ group ∈
    c.instanceGroups.entries, actionOf c.instanceGroups group.1 group.2 = .ok (some a) := by
  obtain ⟨found, hfound, hactions⟩ := exists_found_of_actionSet h
  rw [hactions, SortedSet.mem_ofList, List.mem_filterMap] at ha
  obtain ⟨_, hx, rfl⟩ := ha
  exact Exploration.exists_of_mem_mapM hfound hx

/-- The name of an action, without the class, is an identifier. -/
theorem isIdentifier_of_mem_actions {a : Action} (ha : a ∈ s.actions) :
    Text.isIdentifier a.name = true := by
  obtain ⟨group, -, haction⟩ := exists_actionOf_of_mem h ha
  obtain ⟨-, hnone⟩ | ⟨a', ha', -, -, -, hname⟩ := actionOf_cases haction
  · simp at hnone
  rw [Option.some.inj ha']
  exact hname

/-- The operation and the precondition of an action are the only declarations of their names. -/
theorem declared_of_mem_actions {a : Action} (ha : a ∈ s.actions) : ∃ name,
    c.declared name = [a.operation] ∧ c.declared (name ++ preconditionSuffix) = [a.precondition] ∧
      a.precondition.returnsBool = true := by
  obtain ⟨⟨name, operations⟩, hentry, haction⟩ := exists_actionOf_of_mem h ha
  obtain ⟨-, hnone⟩ | ⟨a', ha', rfl, hpre, hbool, -⟩ := actionOf_cases haction
  · simp at hnone
  obtain rfl := Option.some.inj ha'
  have hname := Table.get?_eq_some_iff.2 hentry
  rw [get?_instanceGroups] at hname hpre
  refine ⟨name, ?_, ?_, hbool⟩
  · split at hname
    · simp at hname
    · exact Option.some.inj hname
  · split at hpre
    · simp at hpre
    · exact Option.some.inj hpre

/-- A name that is declared with a precondition is an action. -/
theorem exists_action_of_declared {name : String} (hname : c.declared name ≠ [])
    (hpre : c.declared (name ++ preconditionSuffix) ≠ []) : ∃ a ∈ s.actions,
    c.declared name = [a.operation] ∧ c.declared (name ++ preconditionSuffix) = [a.precondition] := by
  obtain ⟨found, hfound, hactions⟩ := exists_found_of_actionSet h
  have hget : c.instanceGroups.get? name = some (c.declared name) := by
    rw [get?_instanceGroups, if_neg hname]
  have hgetPre : c.instanceGroups.get? (name ++ preconditionSuffix) =
      some (c.declared (name ++ preconditionSuffix)) := by
    rw [get?_instanceGroups, if_neg hpre]
  obtain ⟨x, hx, haction⟩ := exists_mem_of_mapM hfound (Table.get?_eq_some_iff.1 hget)
  obtain ⟨hnone, -⟩ | ⟨a, rfl, hop, hprecondition, -⟩ := actionOf_cases haction
  · rw [hgetPre] at hnone
    simp at hnone
  refine ⟨a, ?_, hop, ?_⟩
  · rw [hactions, SortedSet.mem_ofList, List.mem_filterMap]
    exact ⟨some a, hx, rfl⟩
  · exact Option.some.inj (hgetPre.symm.trans hprecondition)

/-- The operation and the precondition of an action are operations of the class. -/
theorem mem_operations_of_mem_actions {a : Action} (ha : a ∈ s.actions) :
    a.operation ∈ c.operations ∧ a.precondition ∈ c.operations := by
  obtain ⟨name, hop, hpre, -⟩ := declared_of_mem_actions h ha
  have hmem : a.operation ∈ c.declared name := by simp [hop]
  have hmem' : a.precondition ∈ c.declared (name ++ preconditionSuffix) := by simp [hpre]
  exact ⟨(mem_declared.1 hmem).1, (mem_declared.1 hmem').1⟩

/-- The precondition of an action is named for its operation. -/
theorem qualifiedName_precondition {a : Action} (ha : a ∈ s.actions) :
    a.precondition.qualifiedName = a.operation.qualifiedName ++ preconditionSuffix := by
  obtain ⟨name, hop, hpre, -⟩ := declared_of_mem_actions h ha
  have hmem : a.operation ∈ c.declared name := by simp [hop]
  have hmem' : a.precondition ∈ c.declared (name ++ preconditionSuffix) := by simp [hpre]
  rw [(mem_declared.1 hmem).2.2, (mem_declared.1 hmem').2.2]

/-- Actions with the same name are the same action. -/
theorem eq_of_qualifiedName_eq {a b : Action} (ha : a ∈ s.actions) (hb : b ∈ s.actions)
    (hab : a.operation.qualifiedName = b.operation.qualifiedName) : a = b := by
  have hnamed : ∀ {a : Action}, a ∈ s.actions →
      c.declared a.operation.qualifiedName = [a.operation] ∧
        c.declared (a.operation.qualifiedName ++ preconditionSuffix) = [a.precondition] := by
    intro a ha
    obtain ⟨name, hop, hpre, -⟩ := declared_of_mem_actions h ha
    have hmem : a.operation ∈ c.declared name := by simp [hop]
    rw [(mem_declared.1 hmem).2.2]
    exact ⟨hop, hpre⟩
  obtain ⟨hop, hpre⟩ := hnamed ha
  obtain ⟨hop', hpre'⟩ := hnamed hb
  rw [hab, hop'] at hop
  rw [hab, hpre'] at hpre
  cases a
  cases b
  simp_all

/-- The invariant is an operation of the class, and it is no precondition. -/
theorem invariant_of_actionSet : s.invariant ∈ c.operations ∧
    ∀ a ∈ s.actions, s.invariant ≠ a.precondition := by
  have hfind : c.findInvariant = .ok s.invariant := by
    unfold actionSet at h
    simp only [bind, Except.bind] at h
    split at h
    · simp at h
    · next op hop =>
      split at h
      · simp at h
      · rw [← Except.ok.inj h]
        exact hop
  have hmem : s.invariant ∈ c.declared (c.qualify invariantName) := by
    unfold findInvariant at hfind
    simp only [get?_instanceGroups] at hfind
    by_cases hnone : c.declared (c.qualify invariantName) = []
    · simp [hnone] at hfind
    · simp only [hnone, if_false] at hfind
      split at hfind
      · simp at hfind
      · next op hop =>
        split at hfind
        · simp at hfind
        · split at hfind
          · simp at hfind
          · rw [Option.some.inj hop, ← Except.ok.inj hfind]
            exact List.mem_singleton_self _
      · simp at hfind
  obtain ⟨hop, -, hname⟩ := mem_declared.1 hmem
  refine ⟨hop, fun a ha heq => ?_⟩
  -- one name ends in `v`, the other in `e`
  have hpre := qualifiedName_precondition h ha
  rw [← heq, hname] at hpre
  have hlast := congrArg (fun text => text.toList.getLast?) hpre
  simp [qualify, invariantName, preconditionSuffix] at hlast

end Accepted

end ClassTable

/-! ## The class of a concrete model -/

namespace ConcreteModel

/-- The operation of an action name. -/
def operationOf (className name : String) : Operation :=
  { qualifiedName := className ++ "#" ++ name }

/-- The precondition of an action name. -/
def preconditionOf (className name : String) : Operation :=
  { qualifiedName := className ++ "#" ++ name ++ preconditionSuffix, returnType := some boolType }

/-- The action of a name. -/
def actionNamed (className name : String) : Action :=
  ⟨preconditionOf className name, operationOf className name⟩

/-- The class of a model: the invariant, and an operation and a precondition for each action. -/
def classTable (m : ConcreteModel) (className : String) : ClassTable where
  name := className
  operations :=
    { qualifiedName := className ++ "#" ++ invariantName, returnType := some boolType } ::
      m.actions.flatMap fun a => [operationOf className a.1, preconditionOf className a.1]

/-- The names of the actions. -/
def names (m : ConcreteModel) : List String := m.actions.map Prod.fst

/-- The part of a name after its last `#`; the whole name if there is none. -/
def lastPart (name : String) : String := String.ofList (Operation.afterHash name.toList)

/-- No action is called by what stands after the last `#` in the name of another. -/
def NamesApart (m : ConcreteModel) : Prop :=
  ∀ name ∈ m.names, lastPart name ∈ m.names → lastPart name = name

instance (m : ConcreteModel) : Decidable m.NamesApart :=
  List.decidableBAll _ m.names

/-- The actions of a class are those of the model, and each is called by its own name. -/
structure Describes (m : ConcreteModel) (className : String) (c : ActionSet) : Prop where
  nodup : m.names.Nodup
  mem_actions_iff : ∀ a, a ∈ c.actions ↔ ∃ name ∈ m.names, actionNamed className name = a
  name_eq : ∀ name ∈ m.names, (actionNamed className name).name = name

variable {m : ConcreteModel} {className : String}

/-- An action is called by the last part of its name, since `#` separates a class from its members. -/
theorem name_actionNamed (className name : String) :
    (actionNamed className name).name = lastPart name := by
  have hlast : Operation.afterHash (className ++ "#" ++ name).toList =
      Operation.afterHash name.toList := by
    simp only [Operation.afterHash, String.toList_append, List.reverse_append,
      List.takeWhile_append]
    split
    · next hlength =>
      -- the name has no `#`, and the next character is one
      rw [(List.takeWhile_prefix _).eq_of_length hlength]
      simp
    · rfl
  rw [Action.name, Operation.simpleName, actionNamed, operationOf, hlast, lastPart]

theorem actionNamed_inj {name name' : String}
    (h : actionNamed className name = actionNamed className name') : name = name' := by
  have hqualified := congrArg (fun a => a.operation.qualifiedName) h
  exact (String.append_right_inj _).1 hqualified

theorem mem_operations_classTable {op : Operation} :
    op ∈ (m.classTable className).operations ↔
      op = { qualifiedName := className ++ "#" ++ invariantName, returnType := some boolType } ∨
      ∃ name ∈ m.names, op = operationOf className name ∨ op = preconditionOf className name := by
  simp [classTable, names]

/-- Each action name counts as a declaration of its operation. -/
theorem count_names_le (m : ConcreteModel) (className name : String) :
    m.names.count name ≤
      ((m.classTable className).declared (className ++ "#" ++ name)).length := by
  -- the operations of the actions stand among all operations in the same order
  let p : Operation → Bool := fun op =>
    !op.isStatic && decide (op.qualifiedName = className ++ "#" ++ name)
  have hsub : ∀ l : List (String × Behaviour), (l.map fun a => operationOf className a.1).Sublist
      (l.flatMap fun a => [operationOf className a.1, preconditionOf className a.1]) := by
    intro l
    induction l with
    | nil => exact .slnil
    | cons a l ih => exact (ih.cons _).cons_cons _
  calc m.names.count name = m.actions.countP (fun a => a.1 == name) := by
        rw [names, List.count_eq_countP, List.countP_map]
        rfl
    _ ≤ m.actions.countP (p ∘ fun a => operationOf className a.1) := by
        refine List.countP_mono_left fun a _ ha => ?_
        rw [beq_iff_eq] at ha
        subst ha
        simp [p, operationOf]
    _ = (m.actions.map fun a => operationOf className a.1).countP p := List.countP_map.symm
    _ ≤ (m.classTable className).operations.countP p := ((hsub m.actions).cons _).countP_le
    _ = ((m.classTable className).declared (className ++ "#" ++ name)).length :=
        List.countP_eq_length_filter

theorem operationOf_mem_declared (className : String) {name : String} (hn : name ∈ m.names) :
    operationOf className name ∈
      (m.classTable className).declared (className ++ "#" ++ name) :=
  ClassTable.mem_declared.2
    ⟨mem_operations_classTable.2 (Or.inr ⟨name, hn, Or.inl rfl⟩), rfl, rfl⟩

theorem preconditionOf_mem_declared (className : String) {name : String} (hn : name ∈ m.names) :
    preconditionOf className name ∈
      (m.classTable className).declared (className ++ "#" ++ name ++ preconditionSuffix) :=
  ClassTable.mem_declared.2
    ⟨mem_operations_classTable.2 (Or.inr ⟨name, hn, Or.inr rfl⟩), rfl, rfl⟩

section Accepted

variable {c : ActionSet} (h : (m.classTable className).actionSet = .ok c)

include h

/-- Each name is declared once, and is an action. -/
theorem action_of_name {name : String} (hn : name ∈ m.names) :
    (m.classTable className).declared (className ++ "#" ++ name) = [operationOf className name] ∧
      actionNamed className name ∈ c.actions := by
  have hop := operationOf_mem_declared className hn
  have hpre := preconditionOf_mem_declared className hn
  obtain ⟨a, ha, hop', hpre'⟩ := ClassTable.exists_action_of_declared h
    (List.ne_nil_of_mem hop) (List.ne_nil_of_mem hpre)
  rw [hop', List.mem_singleton] at hop
  rw [hpre', List.mem_singleton] at hpre
  rw [hop', actionNamed, hop, hpre]
  exact ⟨rfl, ha⟩

/-- There are no other actions: neither the invariant nor an operation can be a precondition. -/
theorem exists_name_of_mem_actions {a : Action} (ha : a ∈ c.actions) :
    ∃ name ∈ m.names, actionNamed className name = a := by
  obtain ⟨qualified, hop, hpre, hbool⟩ := ClassTable.declared_of_mem_actions h ha
  have hmem : a.precondition ∈
      (m.classTable className).declared (qualified ++ preconditionSuffix) := by
    rw [hpre]
    exact List.mem_singleton_self _
  obtain ⟨hmem, -, hqualified⟩ := ClassTable.mem_declared.1 hmem
  -- the precondition is the invariant, an operation or a precondition of the model
  rcases mem_operations_classTable.1 hmem with hinv | ⟨name, hn, hvoid | hname⟩
  · have hlast := congrArg (fun text => text.toList.getLast?) hqualified
    simp [hinv, invariantName, preconditionSuffix] at hlast
  · rw [hvoid] at hbool
    simp [operationOf, Operation.returnsBool] at hbool
  · rw [hname, preconditionOf] at hqualified
    obtain rfl := (String.append_left_inj _).1 hqualified
    have hdecl := operationOf_mem_declared className hn
    rw [hop, List.mem_singleton] at hdecl
    exact ⟨name, hn, by rw [actionNamed, hdecl, ← hname]⟩

/-- **The actions of the class are those of the model.**  The rules for classes leave no room for two
actions of one name, nor for an action that is taken for the invariant or for a precondition. -/
theorem mem_actions_iff {a : Action} :
    a ∈ c.actions ↔ ∃ name ∈ m.names, actionNamed className name = a := by
  constructor
  · exact exists_name_of_mem_actions h
  · rintro ⟨name, hn, rfl⟩
    exact (action_of_name h hn).2

theorem nodup_names : m.names.Nodup := by
  refine List.nodup_iff_count.2 fun name => ?_
  by_cases hn : name ∈ m.names
  · have hle := m.count_names_le className name
    rwa [(action_of_name h hn).1] at hle
  · rw [List.count_eq_zero_of_not_mem hn]
    omega

/-- If the names of the model are apart and it knows what its actions are called, they are called by
their names. -/
theorem describes_of_actionSet (hapart : m.NamesApart) (hknown : ∀ a ∈ c.actions, a.name ∈ m.names) :
    m.Describes className c where
  nodup := nodup_names h
  mem_actions_iff _ := mem_actions_iff h
  name_eq name hn := by
    have hname := hknown _ (action_of_name h hn).2
    rw [name_actionNamed] at hname ⊢
    exact hapart name hn hname

end Accepted

end ConcreteModel

end Enabledness
