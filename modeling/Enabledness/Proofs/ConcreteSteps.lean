import Enabledness.Proofs.ClassActions
import Enabledness.Proofs.LeastFixpoint

/-!
# Constructions of concrete models

What the automaton of a class says about the concrete values of a model of it, when the queries are
answered by searching these values.

* `exists_verdict_iff` : which queries the model judges.
* `shows_iff` : a value shows a state if the state is its pattern, the set of actions that it enables.
* `HasStep`, `existence?_of_verdict` : transition queries ask for concrete steps.
* `Forces`, `answer_eq_yes_iff` : necessity queries ask what all returns of an action agree about.
-/

namespace Enabledness

open Exploration

namespace ConcreteModel

/-! ## Patterns -/

/-- The pattern of a value: the actions of the class that it enables. -/
def pattern (m : ConcreteModel) (className : String) (value : Nat) : State :=
  .ofList ((m.actions.filter fun x => x.2.enabled value).map fun x => actionNamed className x.1)

/-- The behaviour of an action of the class. -/
def behaviourOf? (m : ConcreteModel) (className : String) (a : Action) : Option Behaviour :=
  (m.actions.find? fun x => actionNamed className x.1 = a).map Prod.snd

/-- The value that an action leaves if it is called in a value and completes as asked. -/
def leaves? (m : ConcreteModel) (className : String) (a : Action) (completion : Completion)
    (value : Nat) : Option Nat :=
  (m.behaviourOf? className a).bind fun b => (b.body value).value? completion

variable {m : ConcreteModel} {className : String} {c : ActionSet}

theorem mem_pattern {value : Nat} {a : Action} :
    a ∈ m.pattern className value ↔
      ∃ x ∈ m.actions, x.2.enabled value = true ∧ actionNamed className x.1 = a := by
  rw [pattern, SortedSet.mem_ofList]
  simp only [List.mem_map, List.mem_filter, and_assoc]

/-- In a model without two actions of one name, a search by something that tells the names apart finds
each action. -/
theorem find?_of_mem (h : m.names.Nodup) {α : Type} [DecidableEq α] (key : String → α)
    (hkey : ∀ name name', key name = key name' → name = name') {x : String × Behaviour}
    (hx : x ∈ m.actions) : (m.actions.find? fun y => key y.1 = key x.1) = some x := by
  cases hf : m.actions.find? fun y => key y.1 = key x.1 with
  | none =>
    have hne := List.find?_eq_none.1 hf x hx
    simp at hne
  | some y =>
    have hy : key y.1 = key x.1 := by simpa using List.find?_some hf
    rw [List.inj_on_of_nodup_map h (List.mem_of_find?_eq_some hf) hx (hkey _ _ hy)]

theorem behaviour?_of_mem (h : m.names.Nodup) {x : String × Behaviour} (hx : x ∈ m.actions) :
    m.behaviour? x.1 = some x.2 := by
  have hfind := find?_of_mem h id (fun _ _ heq => heq) hx
  simp only [id] at hfind
  rw [behaviour?, hfind]
  rfl

theorem behaviourOf?_of_mem (h : m.names.Nodup) (className : String) {x : String × Behaviour}
    (hx : x ∈ m.actions) :
    m.behaviourOf? className (actionNamed className x.1) = some x.2 := by
  rw [behaviourOf?, find?_of_mem h (actionNamed className) (fun _ _ => actionNamed_inj) hx]
  rfl

theorem actionNamed_mem_pattern (h : m.names.Nodup) (className : String) {x : String × Behaviour}
    (hx : x ∈ m.actions) (value : Nat) :
    actionNamed className x.1 ∈ m.pattern className value ↔ x.2.enabled value = true := by
  rw [mem_pattern]
  constructor
  · rintro ⟨y, hy, henabled, hname⟩
    rwa [← List.inj_on_of_nodup_map h hy hx (actionNamed_inj hname)]
  · exact fun henabled => ⟨x, hx, henabled, rfl⟩

section Describes

variable (h : m.Describes className c)

include h

theorem Describes.exists_behaviour {a : Action} (ha : a ∈ c.actions) :
    ∃ b, m.behaviour? a.name = some b ∧ (a.name, b) ∈ m.actions ∧
      actionNamed className a.name = a := by
  obtain ⟨name, hn, rfl⟩ := (h.mem_actions_iff a).1 ha
  have hname := h.name_eq name hn
  obtain ⟨x, hx, rfl⟩ := List.mem_map.1 hn
  rw [hname]
  exact ⟨x.2, behaviour?_of_mem h.nodup hx, hx, rfl⟩

/-- The behaviour that is found by what an action is called is its own. -/
theorem Describes.behaviourOf?_eq {a : Action} (ha : a ∈ c.actions) :
    m.behaviourOf? className a = m.behaviour? a.name := by
  obtain ⟨b, hb, hmem, hname⟩ := h.exists_behaviour ha
  have hown := behaviourOf?_of_mem h.nodup className hmem
  rw [hname] at hown
  rw [hown, hb]

theorem Describes.leaves?_eq {a : Action} (ha : a ∈ c.actions) {b : Behaviour}
    (hb : m.behaviour? a.name = some b) (completion : Completion) (value : Nat) :
    m.leaves? className a completion value = (b.body value).value? completion := by
  rw [leaves?, h.behaviourOf?_eq ha, hb]
  rfl

theorem Describes.mem_pattern_iff {a : Action} (ha : a ∈ c.actions) {b : Behaviour}
    (hb : m.behaviour? a.name = some b) {value : Nat} :
    a ∈ m.pattern className value ↔ b.enabled value = true := by
  obtain ⟨b', hb', hmem, hname⟩ := h.exists_behaviour ha
  obtain rfl : b' = b := Option.some.inj (hb'.symm.trans hb)
  have hiff := actionNamed_mem_pattern h.nodup className hmem value
  rwa [hname] at hiff

theorem Describes.mem_of_mem_pattern {a : Action} {value : Nat}
    (ha : a ∈ m.pattern className value) : a ∈ c.actions := by
  obtain ⟨x, hx, -, hname⟩ := mem_pattern.1 ha
  exact (h.mem_actions_iff a).2 ⟨x.1, List.mem_map_of_mem hx, hname⟩

theorem Describes.contains_name_iff {state : State} (hs : ∀ a ∈ state, a ∈ c.actions) {a : Action}
    (ha : a ∈ c.actions) :
    (state.toList.map Action.name).contains a.name = true ↔ a ∈ state := by
  rw [List.contains_iff_mem, List.mem_map]
  constructor
  · rintro ⟨a', ha', hname⟩
    obtain ⟨name, hn, rfl⟩ := (h.mem_actions_iff a).1 ha
    obtain ⟨name', hn', rfl⟩ := (h.mem_actions_iff a').1 (hs a' ha')
    rw [h.name_eq name hn, h.name_eq name' hn'] at hname
    rwa [← hname]
  · exact fun hm => ⟨a, hm, rfl⟩

/-- **A value shows its pattern.**  Comparing names is comparing sets of actions. -/
theorem Describes.shows_iff {state : State} (hs : ∀ a ∈ state, a ∈ c.actions) {value : Nat} :
    m.shows value state = true ↔ m.pattern className value = state := by
  -- all names of the state are known, so only the other half of the comparison counts
  have hknown : ((state.toList.map Action.name).all fun name => (m.behaviour? name).isSome) =
      true := by
    rw [List.all_eq_true]
    intro name hn
    obtain ⟨a, ha, rfl⟩ := List.mem_map.1 hn
    obtain ⟨b, hb, -⟩ := h.exists_behaviour (hs a ha)
    rw [hb]
    rfl
  unfold shows
  rw [hknown, Bool.and_true, List.all_eq_true]
  constructor
  · intro hall
    apply SortedSet.ext_mem
    intro a
    by_cases ha : a ∈ c.actions
    · obtain ⟨b, hb, hmem, -⟩ := h.exists_behaviour ha
      have heq := beq_iff_eq.1 (hall _ hmem)
      rw [h.mem_pattern_iff ha hb, heq]
      exact h.contains_name_iff hs ha
    · exact ⟨fun hm => absurd (h.mem_of_mem_pattern hm) ha, fun hm => absurd (hs a hm) ha⟩
  · rintro rfl x hx
    have hn := List.mem_map_of_mem (f := Prod.fst) hx
    have ha := (h.mem_actions_iff _).2 ⟨x.1, hn, rfl⟩
    have hcontains := h.contains_name_iff hs ha
    rw [h.name_eq x.1 hn] at hcontains
    rw [beq_iff_eq, Bool.eq_iff_iff, hcontains, actionNamed_mem_pattern h.nodup className hx value]

end Describes

/-! ## What the queries ask -/

/-- A concrete step: in some value with the invariant and the pattern of the source, the action
completes as asked and leaves a value with the pattern of the target. -/
def HasStep (m : ConcreteModel) (className : String) (completion : Completion) (source : State)
    (a : Action) (target : State) : Prop :=
  ∃ v ∈ m.values, m.invariant v = true ∧ m.pattern className v = source ∧
    (m.leaves? className a completion v).map (m.pattern className) = some target

instance (m : ConcreteModel) (className : String) (completion : Completion) (source : State)
    (a : Action) (target : State) : Decidable (m.HasStep className completion source a target) :=
  inferInstanceAs (Decidable (∃ v ∈ m.values, _))

/-- The values that a necessity query starts from. -/
def IsStart (m : ConcreteModel) (className : String) (source : State) (a : Action) : Scope → Nat → Prop
  | .global, v => m.invariant v = true ∧ a ∈ m.pattern className v
  | .atSource, v => m.invariant v = true ∧ m.pattern className v = source

instance (m : ConcreteModel) (className : String) (source : State) (a : Action) (scope : Scope) (v : Nat) :
    Decidable (m.IsStart className source a scope v) :=
  match scope with
  | .global => inferInstanceAs (Decidable (_ ∧ _))
  | .atSource => inferInstanceAs (Decidable (_ ∧ _))

/-- All returns of an action leave a tested action enabled, or all leave it disabled. -/
def Forces (m : ConcreteModel) (className : String) (scope : Scope) (source : State) (a : Action)
    (p : Polarity) (tested : Action) : Prop :=
  ∀ v ∈ m.values, m.IsStart className source a scope v → ∀ w ∈ m.leaves? className a .normal v,
    (tested ∈ m.pattern className w ↔ p = .enabled)

instance (m : ConcreteModel) (className : String) (scope : Scope) (source : State) (a : Action)
    (p : Polarity) (tested : Action) : Decidable (m.Forces className scope source a p tested) :=
  inferInstanceAs (Decidable (∀ v ∈ m.values, _ → ∀ w ∈ m.leaves? className a .normal v, _))

/-- What holds wherever the action is enabled also holds in each state that enables it. -/
theorem Forces.atSource {source : State} {a tested : Action} {p : Polarity}
    (h : m.Forces className .global source a p tested) {state : State} (ha : a ∈ state) :
    m.Forces className .atSource state a p tested := by
  intro v hv hstart w hw
  refine h v hv ⟨hstart.1, ?_⟩ w hw
  rw [hstart.2]
  exact ha

/-! ## What the verdicts say -/

theorem hasCounterexample_iff {q : Query} {main : Behaviour} {tested : Option Behaviour} :
    m.hasCounterexample q main tested = true ↔
      ∃ v ∈ m.values, m.isStart q main v = true ∧
        ∃ w, (main.body v).value? q.completion = some w ∧ m.isFinding q tested w = true := by
  unfold hasCounterexample
  rw [List.any_eq_true]
  refine exists_congr fun v => and_congr_right fun _ => ?_
  rw [Bool.and_eq_true]
  refine and_congr_right fun _ => ?_
  cases (main.body v).value? q.completion <;> simp

theorem isSome_behaviour?_iff {name : String} : (m.behaviour? name).isSome ↔ name ∈ m.names := by
  simp [behaviour?, names]

/-- **A verdict needs known names.**  The model judges a query if it knows what the main and the tested
action are called. -/
theorem exists_verdict_iff {q : Query} :
    (∃ v, m.verdict q = .ok v) ↔
      q.main.name ∈ m.names ∧ ∀ t, q.tested? = some t → t.name ∈ m.names := by
  simp only [← isSome_behaviour?_iff]
  unfold verdict
  cases m.behaviour? q.main.name with
  | none => simp
  | some main =>
    cases q.tested? with
    | none =>
      simp only [Option.map_none]
      split_ifs <;> simp
    | some t =>
      cases hb : m.behaviour? t.name with
      | none => simp [hb]
      | some b =>
        simp only [Option.map_some, hb]
        split_ifs <;> simp [hb]

section Verdicts

variable (h : m.Describes className c) {q : Query} (hq : q.IsOver c) {v : Verdict}

include h hq

/-- The verdict of a model on a query about its class. -/
theorem Describes.verdict_eq (hconclusive : m.inconclusive = []) {main : Behaviour}
    (hmain : m.behaviour? q.main.name = some main) :
    m.verdict q = .ok
      (if m.hasCounterexample q main (q.tested?.bind fun t => m.behaviour? t.name) then
        if q.completion = .exceptional then .exceptionalCounterexample else .counterexample
      else .noCounterexample) := by
  have hmatch : m.verdict q =
      if m.hasCounterexample q main (q.tested?.bind fun t => m.behaviour? t.name) then
        if q.target?.isSome && m.inconclusive.contains q.main.name then .ok .inconclusive
        else if q.completion = .exceptional then .ok .exceptionalCounterexample
        else .ok .counterexample
      else .ok .noCounterexample := by
    unfold verdict
    rw [hmain]
    cases ht : q.tested? with
    | none => rfl
    | some t =>
      obtain ⟨b, hb, -⟩ := h.exists_behaviour (hq.mem_of_tested t ht)
      simp only [Option.map_some, Option.bind_some, hb]
  rw [hmatch, hconclusive]
  simp only [List.contains_nil, Bool.and_false, Bool.false_eq_true, if_false]
  split
  · by_cases hc : q.completion = .exceptional <;> simp [hc]
  · rfl

/-- A query starts from the values that its scope names. -/
theorem Describes.isStart_iff {main : Behaviour} (hmain : m.behaviour? q.main.name = some main)
    {v : Nat} :
    m.isStart q main v = true ↔
      m.IsStart className q.source q.main (if q.isGlobal then .global else .atSource) v := by
  unfold isStart
  rw [Bool.and_eq_true]
  by_cases hg : q.isGlobal = true
  · rw [if_pos hg, if_pos hg]
    show _ ↔ m.invariant v = true ∧ q.main ∈ m.pattern className v
    rw [h.mem_pattern_iff (hq.mem_of_source _ q.main_mem_source) hmain]
  · rw [if_neg hg, if_neg hg]
    show _ ↔ m.invariant v = true ∧ m.pattern className v = q.source
    rw [h.shows_iff hq.mem_of_source]

/-- **Transition queries ask for concrete steps.** -/
theorem Describes.existence?_of_verdict (hconclusive : m.inconclusive = [])
    (hv : m.verdict q = .ok v) {completion : Completion} {target : State}
    (hkind : q.kind = .transition completion target) :
    existence? (q.answer v) =
      if m.HasStep className completion q.source q.main target then some .confirmed else none := by
  have hmem := hq.mem_of_source _ q.main_mem_source
  obtain ⟨main, hmain, -⟩ := h.exists_behaviour hmem
  have htarget : ∀ a ∈ target, a ∈ c.actions := hq.mem_of_target target (by simp [Query.target?, hkind])
  have hcompletion : q.completion = completion := by simp [Query.completion, Query.completion?, hkind]
  have hlocal : q.isGlobal = false := by simp [Query.isGlobal, hkind]
  have hstep : m.hasCounterexample q main (q.tested?.bind fun t => m.behaviour? t.name) = true ↔
      m.HasStep className completion q.source q.main target := by
    rw [hasCounterexample_iff]
    refine exists_congr fun v => and_congr_right fun _ => ?_
    rw [h.isStart_iff hq hmain, hlocal, hcompletion, h.leaves?_eq hmem hmain,
      if_neg Bool.false_ne_true, Option.map_eq_some_iff]
    show (_ ∧ _) ∧ _ ↔ _
    rw [and_assoc]
    refine and_congr_right fun _ => and_congr_right fun _ => exists_congr fun w => ?_
    refine and_congr_right fun _ => ?_
    simp only [isFinding, hkind]
    exact h.shows_iff htarget
  rw [h.verdict_eq hq hconclusive hmain] at hv
  rw [← Except.ok.inj hv, Query.answer, hkind, hcompletion]
  by_cases hs : m.HasStep className completion q.source q.main target
  · rw [if_pos (hstep.2 hs), if_pos hs]
    cases completion <;> rfl
  · rw [if_neg (fun hc => hs (hstep.1 hc)), if_neg hs]
    rfl

/-- **Necessity queries ask what all returns agree about.** -/
theorem Describes.answer_eq_yes_iff (hconclusive : m.inconclusive = [])
    (hv : m.verdict q = .ok v) {p : Polarity} {scope : Scope} {tested : Action}
    (hkind : q.kind = .necessity p scope tested) :
    q.answer v = .yes ↔ m.Forces className scope q.source q.main p tested := by
  have hmem := hq.mem_of_source _ q.main_mem_source
  obtain ⟨main, hmain, -⟩ := h.exists_behaviour hmem
  have htested : q.tested? = some tested := by simp [Query.tested?, hkind]
  have ht := hq.mem_of_tested tested htested
  obtain ⟨b, hb, -⟩ := h.exists_behaviour ht
  have hcompletion : q.completion = .normal := by simp [Query.completion, Query.completion?, hkind]
  have hscope : (if q.isGlobal then Scope.global else .atSource) = scope := by
    cases scope <;> simp [Query.isGlobal, hkind]
  -- a counterexample is a return that disagrees with the polarity
  have hforces : m.hasCounterexample q main (q.tested?.bind fun t => m.behaviour? t.name) = false ↔
      m.Forces className scope q.source q.main p tested := by
    rw [Bool.eq_false_iff, ne_eq, hasCounterexample_iff, htested, Option.bind_some, hb, hcompletion]
    unfold Forces
    simp only [h.isStart_iff hq hmain, hscope, h.leaves?_eq hmem hmain, not_exists, not_and]
    refine forall_congr' fun v => forall_congr' fun _ => forall_congr' fun _ => ?_
    refine forall_congr' fun w => forall_congr' fun _ => ?_
    rw [h.mem_pattern_iff ht hb, isFinding, hkind]
    cases p <;> cases hw : b.enabled w <;> simp [hw]
  rw [h.verdict_eq hq hconclusive hmain] at hv
  rw [← Except.ok.inj hv, Query.answer, hkind, hcompletion, ← hforces]
  cases m.hasCounterexample q main (q.tested?.bind fun t => m.behaviour? t.name) <;>
    simp [QueryKind.answer, Verdict.toNecessity]

end Verdicts

end ConcreteModel

end Enabledness
