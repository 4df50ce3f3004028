import Mathlib.Data.List.Basic
import Enabledness.Proofs.Candidates
import Enabledness.Proofs.ClassActions

/-!
# The rules for classes

Which classes are accepted, which actions they have, and which fault is reported of the others.  The
rules speak of the names of instance operations; static operations do not count.

* `ClassTable.IsWellFormed` : the rules; `ClassTable.IsActionPair` : the pairs that they make actions.
* `ClassTable.InvariantFault`, `ClassTable.NameFault` : how the invariant or a name can break a rule.
* `ClassTable.FirstFault` : the fault that is met first, in order of declaration.
* `ClassTable.findSome?_keys_instanceGroups` : names are gone through in order of first declaration.
* `ClassTable.accepts_iff_wellFormed` : the well-formed classes are accepted with exactly their pairs, and
  of all others the first fault is reported.
* `ClassTable.actionSet_ok_iff_of_perm` : whether a class is accepted, and with which actions, does not
  depend on the order of declaration.
-/

namespace Enabledness

namespace ClassTable

/-! ## The rules -/

/-- Some instance operation has this qualified name. -/
def IsName (c : ClassTable) (name : String) : Prop :=
  ∃ op ∈ c.operations, op.isStatic = false ∧ op.qualifiedName = name

/-- The class has one invariant, and this returns a boolean and has no parameters. -/
structure HasInvariant (c : ClassTable) (op : Operation) : Prop where
  declared_eq : c.declared (c.qualify invariantName) = [op]
  returnsBool : op.returnsBool = true
  parameterTypes_eq : op.parameterTypes = []

/-- A name and its precondition are declared once each, the name is an identifier, and the precondition
returns a boolean and has the same parameters. -/
structure IsGuarded (c : ClassTable) (name : String) (a : Action) : Prop where
  operation_eq : c.declared name = [a.operation]
  precondition_eq : c.declared (name ++ preconditionSuffix) = [a.precondition]
  isIdentifier : Text.isIdentifier a.operation.simpleName = true
  returnsBool : a.precondition.returnsBool = true
  parameterTypes_eq : a.operation.parameterTypes = a.precondition.parameterTypes

/-- What the rules ask of a name: if it has a precondition, the two fit together; if it has none, but is
named like a precondition, it is the precondition of a name. -/
structure Obeys (c : ClassTable) (name : String) : Prop where
  guarded : c.IsName (name ++ preconditionSuffix) → ∃ a, c.IsGuarded name a
  base : ¬ c.IsName (name ++ preconditionSuffix) →
    ∀ base, name = base ++ preconditionSuffix → c.IsName base

/-- The rules for classes. -/
structure IsWellFormed (c : ClassTable) : Prop where
  invariant : ∃ op, c.HasInvariant op
  names : ∀ name, c.IsName name → c.Obeys name

/-- An instance operation and the instance operation that is named as its precondition. -/
structure IsActionPair (c : ClassTable) (a : Action) : Prop where
  operation_mem : a.operation ∈ c.operations
  operation_instance : a.operation.isStatic = false
  precondition_mem : a.precondition ∈ c.operations
  precondition_instance : a.precondition.isStatic = false
  qualifiedName_eq : a.precondition.qualifiedName = a.operation.qualifiedName ++ preconditionSuffix

/-! ## Faults -/

/-- What is wrong with the invariant: it is missing, or not the only one, or it returns no boolean, or
else it has parameters. -/
inductive InvariantFault (c : ClassTable) : ClassFault → Prop
  | missing (h : c.declared (c.qualify invariantName) = []) :
      InvariantFault c (.invariantMissing (c.qualify invariantName))
  | ambiguous (h : 2 ≤ (c.declared (c.qualify invariantName)).length) :
      InvariantFault c (.invariantAmbiguous (c.qualify invariantName)
        (c.declared (c.qualify invariantName)).length)
  | notBoolean {op : Operation} (h : c.declared (c.qualify invariantName) = [op])
      (hbool : op.returnsBool = false) :
      InvariantFault c (.invariantNotBoolean (c.qualify invariantName))
  | hasArguments {op : Operation} (h : c.declared (c.qualify invariantName) = [op])
      (hbool : op.returnsBool = true) (hargs : op.parameterTypes ≠ []) :
      InvariantFault c (.invariantHasArguments (c.qualify invariantName) op.parameterTypes.length)

/-- What is wrong with a name.  If it has a precondition, the name or else the precondition is overloaded,
or the name is no identifier, or the precondition returns no boolean, or else has other parameters.  If it
has none, it is a precondition without a name. -/
inductive NameFault (c : ClassTable) (name : String) : ClassFault → Prop
  | overloaded (hpre : c.IsName (name ++ preconditionSuffix)) (h : 2 ≤ (c.declared name).length) :
      NameFault c name (.overloaded name (c.declared name).length)
  | overloadedPrecondition {op : Operation} (hop : c.declared name = [op])
      (h : 2 ≤ (c.declared (name ++ preconditionSuffix)).length) :
      NameFault c name (.overloaded (name ++ preconditionSuffix)
        (c.declared (name ++ preconditionSuffix)).length)
  | invalidName {op pre : Operation} (hop : c.declared name = [op])
      (hpre : c.declared (name ++ preconditionSuffix) = [pre])
      (h : Text.isIdentifier op.simpleName = false) : NameFault c name (.invalidName name)
  | notBoolean {op pre : Operation} (hop : c.declared name = [op])
      (hpre : c.declared (name ++ preconditionSuffix) = [pre])
      (hname : Text.isIdentifier op.simpleName = true) (h : pre.returnsBool = false) :
      NameFault c name (.preconditionNotBoolean (name ++ preconditionSuffix))
  | signatureMismatch {op pre : Operation} (hop : c.declared name = [op])
      (hpre : c.declared (name ++ preconditionSuffix) = [pre])
      (hname : Text.isIdentifier op.simpleName = true) (hbool : pre.returnsBool = true)
      (h : op.parameterTypes ≠ pre.parameterTypes) :
      NameFault c name (.signatureMismatch name (name ++ preconditionSuffix))
  | orphan {base : String} (hpre : ¬ c.IsName (name ++ preconditionSuffix))
      (hname : name = base ++ preconditionSuffix) (h : ¬ c.IsName base) :
      NameFault c name (.orphanPrecondition name base)

/-- The fault of a class that is met first: that of the invariant, or else that of the first instance
operation whose name breaks a rule. -/
inductive FirstFault (c : ClassTable) : ClassFault → Prop
  | invariant {fault : ClassFault} (h : c.InvariantFault fault) : FirstFault c fault
  | name {fault : ClassFault} {before after : List Operation} {op : Operation}
      (hinvariant : ∃ inv, c.HasInvariant inv) (hoperations : c.operations = before ++ op :: after)
      (hbefore : ∀ op' ∈ before, op'.isStatic = false → c.Obeys op'.qualifiedName)
      (hop : op.isStatic = false) (h : c.NameFault op.qualifiedName fault) : FirstFault c fault

/-! ## Names and their declarations -/

section Declared

variable {c : ClassTable} {name : String}

theorem isName_iff : c.IsName name ↔ c.declared name ≠ [] := by
  constructor
  · rintro ⟨op, hop⟩
    exact List.ne_nil_of_mem (mem_declared.2 hop)
  · intro h
    obtain ⟨op, hop⟩ := List.exists_mem_of_ne_nil _ h
    exact ⟨op, mem_declared.1 hop⟩

theorem not_isName_iff : ¬ c.IsName name ↔ c.declared name = [] := by
  rw [isName_iff, not_not]

theorem get?_instanceGroups_of_isName (h : c.IsName name) :
    c.instanceGroups.get? name = some (c.declared name) := by
  rw [get?_instanceGroups, if_neg (isName_iff.1 h)]

theorem get?_instanceGroups_of_not_isName (h : ¬ c.IsName name) : c.instanceGroups.get? name = none := by
  rw [get?_instanceGroups, if_pos (not_isName_iff.1 h)]

theorem mem_keys_instanceGroups : name ∈ c.instanceGroups.keys ↔ c.IsName name := by
  rw [Table.mem_keys_iff]
  by_cases h : c.IsName name
  · simp [get?_instanceGroups_of_isName h, h]
  · simp [get?_instanceGroups_of_not_isName h, h]

/-- The groups hold, for each name, what is declared under it. -/
theorem entries_instanceGroups (c : ClassTable) :
    c.instanceGroups.entries = c.instanceGroups.keys.map fun name => (name, c.declared name) := by
  rw [Table.entries, ← List.filterMap_eq_map]
  refine Table.filterMap_eq_of_mem fun name hname => ?_
  rw [get?_instanceGroups_of_isName (mem_keys_instanceGroups.1 hname)]
  rfl

/-- A name is declared once or it is overloaded. -/
theorem declared_cases (h : c.IsName name) :
    (∃ op, c.declared name = [op]) ∨ 2 ≤ (c.declared name).length := by
  rcases hdeclared : c.declared name with _ | ⟨op, _ | ⟨op', rest⟩⟩
  · exact absurd hdeclared (isName_iff.1 h)
  · exact Or.inl ⟨op, rfl⟩
  · exact Or.inr (by simp)

end Declared

/-! ## The invariant -/

section Invariant

variable {c : ClassTable} {op : Operation} {fault : ClassFault}

theorem findInvariant_of_declared (h : c.declared (c.qualify invariantName) = [op]) :
    c.findInvariant =
      if op.returnsBool = false then .error (.invariantNotBoolean (c.qualify invariantName))
      else if op.arity ≠ 0 then
        .error (.invariantHasArguments (c.qualify invariantName) op.arity)
      else .ok op := by
  simp [findInvariant, get?_instanceGroups, h]

theorem findInvariant_of_overloaded (h : 2 ≤ (c.declared (c.qualify invariantName)).length) :
    c.findInvariant = .error (.invariantAmbiguous (c.qualify invariantName)
      (c.declared (c.qualify invariantName)).length) := by
  rcases hdeclared : c.declared (c.qualify invariantName) with _ | ⟨op, _ | ⟨op', rest⟩⟩
  · simp [hdeclared] at h
  · simp [hdeclared] at h
  · simp [findInvariant, get?_instanceGroups, hdeclared]

/-- An invariant that is found is as the rules ask. -/
theorem findInvariant_eq_ok_iff : c.findInvariant = .ok op ↔ c.HasInvariant op := by
  constructor
  · intro h
    by_cases hname : c.IsName (c.qualify invariantName)
    · obtain ⟨inv, hinv⟩ | hmany := declared_cases hname
      · rw [findInvariant_of_declared hinv] at h
        split at h
        · simp at h
        · next hbool =>
          split at h
          · simp at h
          · next hargs =>
            obtain rfl := Except.ok.inj h
            exact ⟨hinv, by simpa using hbool, List.length_eq_zero_iff.1 (not_not.1 hargs)⟩
      · rw [findInvariant_of_overloaded hmany] at h
        simp at h
    · simp [findInvariant, get?_instanceGroups_of_not_isName hname] at h
  · intro h
    simp [findInvariant_of_declared h.declared_eq, h.returnsBool, Operation.arity, h.parameterTypes_eq]

theorem findInvariant_eq_error_iff : c.findInvariant = .error fault ↔ c.InvariantFault fault := by
  constructor
  · intro h
    by_cases hname : c.IsName (c.qualify invariantName)
    · obtain ⟨inv, hinv⟩ | hmany := declared_cases hname
      · rw [findInvariant_of_declared hinv] at h
        split at h
        · next hbool =>
          obtain rfl := Except.error.inj h
          exact .notBoolean hinv hbool
        · next hbool =>
          split at h
          · next hargs =>
            obtain rfl := Except.error.inj h
            exact .hasArguments hinv (by simpa using hbool) (mt List.length_eq_zero_iff.2 hargs)
          · simp at h
      · rw [findInvariant_of_overloaded hmany] at h
        obtain rfl := Except.error.inj h
        exact .ambiguous hmany
    · simp only [findInvariant, get?_instanceGroups_of_not_isName hname] at h
      obtain rfl := Except.error.inj h
      exact .missing (not_isName_iff.1 hname)
  · intro h
    cases h with
    | missing h => simp [findInvariant, get?_instanceGroups, h]
    | ambiguous h => exact findInvariant_of_overloaded h
    | notBoolean h hbool => simp [findInvariant_of_declared h, hbool]
    | hasArguments h hbool hargs => simp [findInvariant_of_declared h, hbool, Operation.arity, hargs]

end Invariant

/-! ## One name -/

theorem withoutEnding?_eq_some_iff {text ending base : String} :
    withoutEnding? text ending = some base ↔ text = base ++ ending := by
  unfold withoutEnding? Text.endsIn
  constructor
  · intro h
    split at h
    · next hsuffix =>
      obtain ⟨front, hfront⟩ := List.isSuffixOf_iff_suffix.1 hsuffix
      rw [← hfront] at h
      rw [← Option.some.inj h, ← String.toList_inj, ← hfront]
      simp
    · simp at h
  · rintro rfl
    have hsuffix : ending.toList.isSuffixOf (base ++ ending).toList = true := by simp
    rw [if_pos hsuffix]
    simp

section Name

variable {c : ClassTable} {name : String} {fault : ClassFault} {a : Action}

/-- What is found under a name of the class. -/
def actionNamed (c : ClassTable) (name : String) : Except ClassFault (Option Action) :=
  actionOf c.instanceGroups name (c.declared name)

/-- A name that has no precondition, but is named like one, may be an orphan. -/
theorem actionNamed_of_base {base : String} (hpre : ¬ c.IsName (name ++ preconditionSuffix))
    (hbase : withoutEnding? name preconditionSuffix = some base) :
    c.actionNamed name =
      if c.instanceGroups.contains base then .ok none else .error (.orphanPrecondition name base) := by
  simp only [actionNamed, actionOf, get?_instanceGroups_of_not_isName hpre, hbase]

theorem actionNamed_of_no_base (hpre : ¬ c.IsName (name ++ preconditionSuffix))
    (hbase : withoutEnding? name preconditionSuffix = none) : c.actionNamed name = .ok none := by
  simp only [actionNamed, actionOf, get?_instanceGroups_of_not_isName hpre, hbase]

theorem actionNamed_of_overloaded (hpre : c.IsName (name ++ preconditionSuffix))
    (h : 2 ≤ (c.declared name).length) :
    c.actionNamed name = .error (.overloaded name (c.declared name).length) := by
  rcases hdeclared : c.declared name with _ | ⟨op, _ | ⟨op', rest⟩⟩
  · simp [hdeclared] at h
  · simp [hdeclared] at h
  · simp [actionNamed, actionOf, get?_instanceGroups_of_isName hpre, hdeclared, only, bind, Except.bind]

theorem actionNamed_of_overloaded_precondition {op : Operation} (hop : c.declared name = [op])
    (h : 2 ≤ (c.declared (name ++ preconditionSuffix)).length) :
    c.actionNamed name = .error (.overloaded (name ++ preconditionSuffix)
      (c.declared (name ++ preconditionSuffix)).length) := by
  rcases hdeclared : c.declared (name ++ preconditionSuffix) with _ | ⟨pre, _ | ⟨pre', rest⟩⟩
  · simp [hdeclared] at h
  · simp [hdeclared] at h
  · simp [actionNamed, actionOf, get?_instanceGroups, hop, hdeclared, only, bind, Except.bind]

theorem actionNamed_of_declared {op pre : Operation} (hop : c.declared name = [op])
    (hpre : c.declared (name ++ preconditionSuffix) = [pre]) :
    c.actionNamed name =
      if Text.isIdentifier op.simpleName = false then .error (.invalidName name)
      else if pre.returnsBool = false then
        .error (.preconditionNotBoolean (name ++ preconditionSuffix))
      else if op.parameterTypes ≠ pre.parameterTypes then
        .error (.signatureMismatch name (name ++ preconditionSuffix))
      else .ok (some ⟨pre, op⟩) := by
  simp [actionNamed, actionOf, get?_instanceGroups, hop, hpre, only, bind, Except.bind]

theorem contains_instanceGroups : c.instanceGroups.contains name = true ↔ c.IsName name :=
  Table.contains_iff.trans mem_keys_instanceGroups

/-- A name breaks a rule, or it obeys the rules and is an action or none. -/
theorem actionNamed_cases (hname : c.IsName name) :
    (∃ fault, c.actionNamed name = .error fault ∧ c.NameFault name fault) ∨
    (∃ a, c.actionNamed name = .ok (some a) ∧ c.IsGuarded name a) ∨
    (c.actionNamed name = .ok none ∧ ¬ c.IsName (name ++ preconditionSuffix) ∧
      ∀ base, name = base ++ preconditionSuffix → c.IsName base) := by
  by_cases hpre : c.IsName (name ++ preconditionSuffix)
  · obtain ⟨op, hop⟩ | hmany := declared_cases hname
    · obtain ⟨pre, hpre⟩ | hmany := declared_cases hpre
      · have heq := actionNamed_of_declared hop hpre
        split_ifs at heq with hid hbool hargs
        · exact Or.inl ⟨_, heq, .invalidName hop hpre hid⟩
        · exact Or.inl ⟨_, heq, .notBoolean hop hpre (by simpa using hid) hbool⟩
        · exact Or.inl ⟨_, heq, .signatureMismatch hop hpre (by simpa using hid) (by simpa using hbool)
            hargs⟩
        · exact Or.inr (Or.inl ⟨_, heq, hop, hpre, by simpa using hid, by simpa using hbool,
            not_not.1 hargs⟩)
      · exact Or.inl ⟨_, actionNamed_of_overloaded_precondition hop hmany,
          .overloadedPrecondition hop hmany⟩
    · exact Or.inl ⟨_, actionNamed_of_overloaded hpre hmany, .overloaded hpre hmany⟩
  · cases hending : withoutEnding? name preconditionSuffix with
    | none =>
      refine Or.inr (Or.inr ⟨actionNamed_of_no_base hpre hending, hpre, fun base hbase => ?_⟩)
      rw [withoutEnding?_eq_some_iff.2 hbase] at hending
      simp at hending
    | some base =>
      have heq := actionNamed_of_base hpre hending
      have hbase := withoutEnding?_eq_some_iff.1 hending
      split_ifs at heq with hcontains
      · refine Or.inr (Or.inr ⟨heq, hpre, fun base' hbase' => ?_⟩)
        rw [(String.append_left_inj _).1 (hbase'.symm.trans hbase)]
        exact contains_instanceGroups.1 hcontains
      · exact Or.inl ⟨_, heq, .orphan hpre hbase (mt contains_instanceGroups.2 hcontains)⟩

/-- The fault of a name is reported. -/
theorem NameFault.actionNamed_eq (h : c.NameFault name fault) : c.actionNamed name = .error fault := by
  cases h with
  | overloaded hpre h => exact actionNamed_of_overloaded hpre h
  | overloadedPrecondition hop h => exact actionNamed_of_overloaded_precondition hop h
  | invalidName hop hpre h => simp [actionNamed_of_declared hop hpre, h]
  | notBoolean hop hpre hname h => simp [actionNamed_of_declared hop hpre, hname, h]
  | signatureMismatch hop hpre hname hbool h =>
    simp [actionNamed_of_declared hop hpre, hname, hbool, h]
  | orphan hpre hname h =>
    rw [actionNamed_of_base hpre (withoutEnding?_eq_some_iff.2 hname)]
    exact if_neg (mt contains_instanceGroups.1 h)

theorem actionNamed_eq_error_iff (hname : c.IsName name) :
    c.actionNamed name = .error fault ↔ c.NameFault name fault := by
  refine ⟨fun h => ?_, NameFault.actionNamed_eq⟩
  obtain ⟨fault', h', hfault⟩ | ⟨a, h', -⟩ | ⟨h', -⟩ := actionNamed_cases hname
  · rw [h] at h'
    rwa [Except.error.inj h']
  · simp [h] at h'
  · simp [h] at h'

theorem IsGuarded.actionNamed_eq (h : c.IsGuarded name a) : c.actionNamed name = .ok (some a) := by
  simp [actionNamed_of_declared h.operation_eq h.precondition_eq, h.isIdentifier, h.returnsBool,
    h.parameterTypes_eq]

theorem actionNamed_eq_some_iff (hname : c.IsName name) :
    c.actionNamed name = .ok (some a) ↔ c.IsGuarded name a := by
  refine ⟨fun h => ?_, IsGuarded.actionNamed_eq⟩
  obtain ⟨fault, h', -⟩ | ⟨a', h', hguarded⟩ | ⟨h', -⟩ := actionNamed_cases hname
  · simp [h] at h'
  · rw [h] at h'
    rwa [Option.some.inj (Except.ok.inj h')]
  · simp [h] at h'

/-- The names that obey the rules are those without a fault. -/
theorem obeys_iff (hname : c.IsName name) :
    c.Obeys name ↔ ∃ found, c.actionNamed name = .ok found := by
  constructor
  · intro h
    by_cases hpre : c.IsName (name ++ preconditionSuffix)
    · obtain ⟨a, ha⟩ := h.guarded hpre
      exact ⟨_, ha.actionNamed_eq⟩
    · cases hending : withoutEnding? name preconditionSuffix with
      | none => exact ⟨none, actionNamed_of_no_base hpre hending⟩
      | some base =>
        have hbase := h.base hpre base (withoutEnding?_eq_some_iff.1 hending)
        exact ⟨none, (actionNamed_of_base hpre hending).trans
          (if_pos (contains_instanceGroups.2 hbase))⟩
  · rintro ⟨found, hfound⟩
    obtain ⟨fault, h', -⟩ | ⟨a, -, ha⟩ | ⟨-, hpre, hbase⟩ := actionNamed_cases hname
    · simp [hfound] at h'
    · refine ⟨fun _ => ⟨a, ha⟩, fun hpre => absurd ?_ hpre⟩
      exact isName_iff.2 (by simp [ha.precondition_eq])
    · exact ⟨fun h => absurd h hpre, fun _ => hbase⟩

end Name

/-! ## All names in order -/

/-- What is found first among the groups is found first among the operations that were added. -/
theorem findSome?_keys_foldl {β : Type} (f : String → Option β) (l : List Operation)
    (groups : Table String (List Operation)) :
    (l.foldl (fun groups op => groups.alter op.qualifiedName [] (· ++ [op])) groups).keys.findSome? f =
      (groups.keys.findSome? f).or (l.findSome? fun op => f op.qualifiedName) := by
  induction l generalizing groups with
  | nil => simp
  | cons op l ih =>
    rw [List.foldl_cons, ih, Table.alter, Table.keys_insert, ← List.singleton_append (l := l),
      List.findSome?_append, List.findSome?_singleton]
    by_cases hmem : op.qualifiedName ∈ groups.keys
    · rw [if_pos hmem]
      -- a known name finds nothing that was not found before
      cases hfirst : groups.keys.findSome? f with
      | some b => rfl
      | none => rw [List.findSome?_eq_none_iff.1 hfirst _ hmem, Option.none_or, Option.none_or]
    · rw [if_neg hmem, List.findSome?_append, List.findSome?_singleton, Option.or_assoc]

/-- **Names are gone through in order of first declaration**: what is found first under a name is found
first among the operations. -/
theorem findSome?_keys_instanceGroups {β : Type} (c : ClassTable) (f : String → Option β) :
    c.instanceGroups.keys.findSome? f =
      c.operations.findSome? fun op => if op.isStatic then none else f op.qualifiedName := by
  rw [instanceGroups, findSome?_keys_foldl]
  show Option.or none _ = _
  rw [Option.none_or]
  induction c.operations with
  | nil => rfl
  | cons op l ih =>
    cases hstatic : op.isStatic with
    | true => simp [hstatic, ih]
    | false => simp [hstatic, List.findSome?_cons, ih]

/-- The fault of a result, if it is one. -/
def faultOf? {ε α : Type} : Except ε α → Option ε
  | .error fault => some fault
  | .ok _ => none

theorem faultOf?_eq_none_iff {ε α : Type} {r : Except ε α} : faultOf? r = none ↔ ∃ a, r = .ok a := by
  cases r with
  | error fault => simp [faultOf?]
  | ok a => simp [faultOf?]

theorem faultOf?_eq_some_iff {ε α : Type} {r : Except ε α} {fault : ε} :
    faultOf? r = some fault ↔ r = .error fault := by
  cases r with
  | error fault => simp [faultOf?]
  | ok a => simp [faultOf?]

/-- The fault of a list is that of its first member that has one. -/
theorem faultOf?_mapM {α β ε : Type} (f : α → Except ε β) (l : List α) :
    faultOf? (l.mapM f) = l.findSome? fun a => faultOf? (f a) := by
  induction l with
  | nil => rfl
  | cons a l ih =>
    rw [List.mapM_cons, List.findSome?_cons, ← ih]
    cases f a with
    | error fault => rfl
    | ok b =>
      cases l.mapM f with
      | error fault => rfl
      | ok bs => rfl

section Accepted

variable {c : ClassTable} {s : ActionSet} {fault : ClassFault}

/-- The invariant is looked for first, then the names are gone through. -/
theorem actionSet_eq (c : ClassTable) :
    c.actionSet = c.findInvariant >>= fun inv => c.instanceGroups.keys.mapM c.actionNamed >>= fun found =>
      .ok ⟨SortedSet.ofList (found.filterMap id), inv⟩ := by
  unfold actionSet
  dsimp only
  rw [entries_instanceGroups, List.mapM_map]
  rfl

/-- All names obey the rules exactly if nothing is reported of them. -/
theorem exists_mapM_actionNamed_iff :
    (∃ found, c.instanceGroups.keys.mapM c.actionNamed = .ok found) ↔
      ∀ name, c.IsName name → c.Obeys name := by
  rw [← faultOf?_eq_none_iff, faultOf?_mapM, List.findSome?_eq_none_iff]
  constructor
  · intro h name hname
    exact (obeys_iff hname).2 (faultOf?_eq_none_iff.1 (h name (mem_keys_instanceGroups.2 hname)))
  · intro h name hname
    have hname := mem_keys_instanceGroups.1 hname
    exact faultOf?_eq_none_iff.2 ((obeys_iff hname).1 (h name hname))

/-- What is reported of the names is the fault of the first operation whose name has one. -/
theorem mapM_actionNamed_eq_error_iff :
    c.instanceGroups.keys.mapM c.actionNamed = .error fault ↔
      ∃ before op after, c.operations = before ++ op :: after ∧
        (∀ op' ∈ before, op'.isStatic = false → c.Obeys op'.qualifiedName) ∧ op.isStatic = false ∧
        c.NameFault op.qualifiedName fault := by
  have hisName : ∀ op ∈ c.operations, op.isStatic = false → c.IsName op.qualifiedName :=
    fun op hop hinstance => ⟨op, hop, hinstance, rfl⟩
  rw [← faultOf?_eq_some_iff, faultOf?_mapM, findSome?_keys_instanceGroups, List.findSome?_eq_some_iff]
  refine exists_congr fun before => exists_congr fun op => exists_congr fun after =>
    and_congr_right fun hoperations => ?_
  have hop : op ∈ c.operations := by simp [hoperations]
  have hbefore : ∀ op' ∈ before, op' ∈ c.operations := fun op' h => by simp [hoperations, h]
  rw [and_comm]
  refine and_congr (forall₂_congr fun op' hop' => ?_) ?_
  · cases hstatic : op'.isStatic with
    | true => simp
    | false => simp [faultOf?_eq_none_iff, obeys_iff (hisName op' (hbefore op' hop') hstatic)]
  · cases hstatic : op.isStatic with
    | true => simp
    | false => simp [faultOf?_eq_some_iff, actionNamed_eq_error_iff (hisName op hop hstatic)]

/-- **The first fault is reported.** -/
theorem actionSet_eq_error_iff : c.actionSet = .error fault ↔ c.FirstFault fault := by
  rw [actionSet_eq]
  cases hinv : c.findInvariant with
  | error fault' =>
    constructor
    · intro h
      obtain rfl := Except.error.inj h
      exact .invariant (findInvariant_eq_error_iff.1 hinv)
    · intro h
      cases h with
      | invariant h =>
        rw [findInvariant_eq_error_iff.2 h] at hinv
        rw [Except.error.inj hinv]
        rfl
      | name hinvariant =>
        obtain ⟨inv, hinvariant⟩ := hinvariant
        rw [findInvariant_eq_ok_iff.2 hinvariant] at hinv
        simp at hinv
  | ok inv =>
    have hinvariant := findInvariant_eq_ok_iff.1 hinv
    have hnames : (c.instanceGroups.keys.mapM c.actionNamed >>= fun found =>
        Except.ok (ActionSet.mk (SortedSet.ofList (found.filterMap id)) inv)) = .error fault ↔
        c.instanceGroups.keys.mapM c.actionNamed = .error fault := by
      cases c.instanceGroups.keys.mapM c.actionNamed with
      | error fault' => simp [bind, Except.bind]
      | ok found => simp [bind, Except.bind]
    refine hnames.trans (mapM_actionNamed_eq_error_iff.trans ?_)
    constructor
    · rintro ⟨before, op, after, hoperations, hbefore, hop, h⟩
      exact .name ⟨inv, hinvariant⟩ hoperations hbefore hop h
    · intro h
      cases h with
      | invariant h =>
        rw [findInvariant_eq_error_iff.2 h] at hinv
        simp at hinv
      | name _ hoperations hbefore hop h => exact ⟨_, _, _, hoperations, hbefore, hop, h⟩

/-- An accepted class has gone through its invariant and all its names. -/
theorem actionSet_eq_ok_iff : c.actionSet = .ok s ↔ c.HasInvariant s.invariant ∧
    ∃ found, c.instanceGroups.keys.mapM c.actionNamed = .ok found ∧
      s.actions = SortedSet.ofList (found.filterMap id) := by
  rw [actionSet_eq, ← findInvariant_eq_ok_iff]
  cases c.findInvariant with
  | error fault => simp [bind, Except.bind]
  | ok inv =>
    cases c.instanceGroups.keys.mapM c.actionNamed with
    | error fault => simp [bind, Except.bind]
    | ok found =>
      obtain ⟨actions, invariant⟩ := s
      simp [bind, Except.bind, eq_comm, and_comm]

/-- **The well-formed classes are accepted.** -/
theorem exists_actionSet_iff : (∃ s, c.actionSet = .ok s) ↔ c.IsWellFormed := by
  constructor
  · rintro ⟨s, hs⟩
    obtain ⟨hinvariant, found, hfound, -⟩ := actionSet_eq_ok_iff.1 hs
    exact ⟨⟨_, hinvariant⟩, exists_mapM_actionNamed_iff.1 ⟨found, hfound⟩⟩
  · rintro ⟨⟨inv, hinvariant⟩, hnames⟩
    obtain ⟨found, hfound⟩ := exists_mapM_actionNamed_iff.2 hnames
    exact ⟨⟨_, inv⟩, actionSet_eq_ok_iff.2 ⟨hinvariant, found, hfound, rfl⟩⟩

/-- The actions of an accepted class are its guarded names. -/
theorem mem_actions_iff_isGuarded (h : c.actionSet = .ok s) {a : Action} :
    a ∈ s.actions ↔ ∃ name, c.IsGuarded name a := by
  obtain ⟨-, found, hfound, hactions⟩ := actionSet_eq_ok_iff.1 h
  rw [hactions, SortedSet.mem_ofList, List.mem_filterMap]
  constructor
  · rintro ⟨_, hx, rfl⟩
    obtain ⟨name, hname, haction⟩ := Exploration.exists_of_mem_mapM hfound hx
    exact ⟨name, (actionNamed_eq_some_iff (mem_keys_instanceGroups.1 hname)).1 haction⟩
  · rintro ⟨name, hguarded⟩
    have hname : c.IsName name := isName_iff.2 (by simp [hguarded.operation_eq])
    obtain ⟨x, hx, haction⟩ := exists_mem_of_mapM hfound (mem_keys_instanceGroups.2 hname)
    rw [hguarded.actionNamed_eq] at haction
    exact ⟨x, hx, (Except.ok.inj haction).symm⟩

/-- **The actions of an accepted class are its pairs of an operation and a precondition.** -/
theorem mem_actions_iff_isActionPair (h : c.actionSet = .ok s) {a : Action} :
    a ∈ s.actions ↔ c.IsActionPair a := by
  rw [mem_actions_iff_isGuarded h]
  constructor
  · rintro ⟨name, hguarded⟩
    have hdeclared : a.operation ∈ c.declared name := by simp [hguarded.operation_eq]
    have hdeclared' : a.precondition ∈ c.declared (name ++ preconditionSuffix) := by
      simp [hguarded.precondition_eq]
    obtain ⟨hop, hinstance, hname⟩ := mem_declared.1 hdeclared
    obtain ⟨hpre, hinstance', hname'⟩ := mem_declared.1 hdeclared'
    exact ⟨hop, hinstance, hpre, hinstance', by rw [hname', hname]⟩
  · rintro ⟨hop, hinstance, hpre, hinstance', hname⟩
    have hnames := (exists_actionSet_iff.1 ⟨s, h⟩).names
    obtain ⟨a', ha'⟩ := (hnames _ ⟨_, hop, hinstance, rfl⟩).guarded ⟨_, hpre, hinstance', hname⟩
    -- both are the only declarations of their names
    have heq := mem_declared.2 ⟨hop, hinstance, rfl⟩
    have heq' := mem_declared.2 ⟨hpre, hinstance', hname⟩
    rw [ha'.operation_eq, List.mem_singleton] at heq
    rw [ha'.precondition_eq, List.mem_singleton] at heq'
    obtain rfl : a = a' := by
      cases a
      cases a'
      simp_all
    exact ⟨_, ha'⟩

/-- A class is accepted with an action set exactly if it is well-formed and these are its invariant and
its pairs. -/
theorem actionSet_eq_ok_iff_pairs : c.actionSet = .ok s ↔
    c.IsWellFormed ∧ c.HasInvariant s.invariant ∧ ∀ a, a ∈ s.actions ↔ c.IsActionPair a := by
  constructor
  · intro h
    exact ⟨exists_actionSet_iff.1 ⟨s, h⟩, (actionSet_eq_ok_iff.1 h).1, fun a =>
      mem_actions_iff_isActionPair h⟩
  · rintro ⟨hwell, hinvariant, hactions⟩
    obtain ⟨s', h⟩ := exists_actionSet_iff.2 hwell
    -- the invariant and the actions leave no choice
    have hinv : s'.invariant = s.invariant := by
      have heq := (actionSet_eq_ok_iff.1 h).1.declared_eq
      rw [hinvariant.declared_eq] at heq
      exact (List.cons.inj heq).1.symm
    have hsame : s'.actions = s.actions := SortedSet.ext_mem fun a =>
      (mem_actions_iff_isActionPair h).trans (hactions a).symm
    cases s
    cases s'
    simp_all

end Accepted

/-- **Exactly the well-formed classes are accepted, with exactly their pairs as actions**, and of every
other class the first fault is reported. -/
theorem accepts_iff_wellFormed (c : ClassTable) :
    ((∃ s, c.actionSet = .ok s) ↔ c.IsWellFormed) ∧
    (∀ s, c.actionSet = .ok s ↔
      c.IsWellFormed ∧ c.HasInvariant s.invariant ∧ ∀ a, a ∈ s.actions ↔ c.IsActionPair a) ∧
    (∀ fault, c.actionSet = .error fault ↔ c.FirstFault fault) :=
  ⟨exists_actionSet_iff, fun _ => actionSet_eq_ok_iff_pairs, fun _ => actionSet_eq_error_iff⟩

/-! ## The order of declaration -/

section Perm

variable {c c' : ClassTable} (hname : c.name = c'.name) (hperm : c.operations.Perm c'.operations)

include hperm

theorem isName_iff_of_perm {name : String} : c.IsName name ↔ c'.IsName name := by
  unfold IsName
  simp only [hperm.mem_iff]

theorem declared_eq_singleton_of_perm {name : String} {op : Operation} (h : c.declared name = [op]) :
    c'.declared name = [op] := by
  have hdeclared : (c.declared name).Perm (c'.declared name) := hperm.filter _
  rw [h] at hdeclared
  exact (List.singleton_perm.1 hdeclared).symm

theorem Obeys.of_perm {name : String} (h : c.Obeys name) : c'.Obeys name := by
  refine ⟨fun hpre => ?_, fun hpre base hbase => ?_⟩
  · obtain ⟨a, ha⟩ := h.guarded ((isName_iff_of_perm hperm).2 hpre)
    exact ⟨a, declared_eq_singleton_of_perm hperm ha.operation_eq,
      declared_eq_singleton_of_perm hperm ha.precondition_eq, ha.isIdentifier, ha.returnsBool,
      ha.parameterTypes_eq⟩
  · exact (isName_iff_of_perm hperm).1
      (h.base (mt (isName_iff_of_perm hperm).1 hpre) base hbase)

include hname

theorem HasInvariant.of_perm {op : Operation} (h : c.HasInvariant op) : c'.HasInvariant op := by
  refine ⟨?_, h.returnsBool, h.parameterTypes_eq⟩
  have hdeclared := declared_eq_singleton_of_perm hperm h.declared_eq
  rwa [qualify, hname, ← qualify] at hdeclared

theorem IsWellFormed.of_perm (h : c.IsWellFormed) : c'.IsWellFormed := by
  obtain ⟨op, hop⟩ := h.invariant
  exact ⟨⟨op, hop.of_perm hname hperm⟩, fun name hisName =>
    (h.names name ((isName_iff_of_perm hperm).2 hisName)).of_perm hperm⟩

/-- The order of declaration matters for nothing but the fault that is reported. -/
theorem actionSet_ok_iff_of_perm {s : ActionSet} : c.actionSet = .ok s ↔ c'.actionSet = .ok s := by
  have hpair : ∀ a, c.IsActionPair a ↔ c'.IsActionPair a := by
    intro a
    exact ⟨fun ⟨hop, hi, hpre, hi', hq⟩ => ⟨hperm.mem_iff.1 hop, hi, hperm.mem_iff.1 hpre, hi', hq⟩,
      fun ⟨hop, hi, hpre, hi', hq⟩ => ⟨hperm.mem_iff.2 hop, hi, hperm.mem_iff.2 hpre, hi', hq⟩⟩
  rw [actionSet_eq_ok_iff_pairs, actionSet_eq_ok_iff_pairs]
  refine and_congr ⟨.of_perm hname hperm, .of_perm hname.symm hperm.symm⟩
    (and_congr ⟨.of_perm hname hperm, .of_perm hname.symm hperm.symm⟩ ?_)
  exact forall_congr' fun a => iff_congr Iff.rfl (hpair a)

end Perm

end ClassTable

end Enabledness
