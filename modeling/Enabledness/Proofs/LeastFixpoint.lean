import Mathlib.Order.Bounds.Basic
import Enabledness.Proofs.Run

/-!
# The automaton is a least fixpoint

A main action leads from a state to a target if the target is a candidate and the verifier does not
rule out the transition (`Leads`).  The states of a finished construction are the least set that holds
the initial state and is closed under this, and each transition stands in the automaton once for each
completion under which its action leads to its target.

* `Complete.mem_transitions_iff`, `Complete.existenceIn?_of_query` : the automaton as answers of the
  verifier.
* `Complete.isLeast_states` : the states are a least fixpoint.
* `constructBy_leastFixpoint` : all of it, for every verifier and every order of the questions.
-/

namespace Enabledness

open Exploration

/-! ## The automaton as answers -/

namespace Complete

variable {s : Setting} {said : Query → Verdict → Prop} {initial : State} {a : Automaton}
  {l : ResultLog} {q : Query} {c : Completion} {target : State}

/-- A transition is in the automaton if the log says that it exists under some completion. -/
theorem mem_transitions_iff (h : Complete s said initial a l) {t : Transition} :
    t ∈ a.transitions ↔ ∃ c, existenceIn? l c t.source t.action t.target = some t.existence := by
  rw [← List.count_pos_iff, h.charted.count_eq, List.countP_pos_iff]
  constructor
  · rintro ⟨c, -, hc⟩
    exact ⟨c, of_decide_eq_true hc⟩
  · rintro ⟨c, hc⟩
    exact ⟨c, by cases c <;> simp, decide_eq_true hc⟩

/-- **Transition queries.**  The log speaks about a transition only if its source is a state of the
automaton and its target is a candidate, and then it says what the verifier said. -/
theorem existenceIn?_of_query (h : Complete s said initial a l)
    (hkind : q.kind = .transition c target) :
    (¬ (q.source ∈ a.states ∧
      IsCandidate s.set (necessityAnswer? l q.source q.main) q.main target) ∧
      existenceIn? l c q.source q.main target = none) ∨
    (q.source ∈ a.states ∧ IsCandidate s.set (necessityAnswer? l q.source q.main) q.main target ∧
      ∃ v, said q v ∧ existenceIn? l c q.source q.main target = existence? (q.answer v)) := by
  have hasked : IsOpening s q ∨ IsStep s l q ↔
      IsCandidate s.set (necessityAnswer? l q.source q.main) q.main target := by
    simp [IsOpening, IsStep, hkind]
  have hiff := h.answered_iff q
  rw [hasked, hkind] at hiff
  unfold existenceIn?
  cases hanswer : l.answer? q.source q.main (.transition c target) with
  | none =>
    refine Or.inl ⟨fun hq => ?_, rfl⟩
    exact hiff.2 hq hanswer
  | some answer =>
    obtain ⟨hs, hcand⟩ := hiff.1 (by simp [hanswer])
    obtain ⟨v, hv, rfl⟩ := (h.truthful q answer (by rw [hkind, hanswer])).of_not_atSource fun p t => by
      simp [hkind]
    exact Or.inr ⟨hs, hcand, v, hv, rfl⟩

/-- What is asked as soon as a state is explored has an answer, and the verifier is behind it. -/
theorem exists_answer_of_isOpening (h : Complete s said initial a l) (hs : q.source ∈ a.states)
    (hopen : IsOpening s q) :
    ∃ answer, l.answer? q.source q.main q.kind = some answer ∧ Backed said q answer := by
  have hne := (h.answered_iff q).2 ⟨hs, Or.inl hopen⟩
  obtain ⟨answer, hanswer⟩ := Option.ne_none_iff_exists'.1 hne
  exact ⟨answer, hanswer, h.truthful q answer hanswer⟩

/-- **Necessity queries.**  All necessity answers of a state of the automaton are known, and the
verifier is behind them. -/
theorem exists_necessityAnswer (h : Complete s said initial a l) (hs : q.source ∈ a.states)
    {p : Polarity} {t : Action} (hkind : q.kind = .necessity p (scopeOf q.source) t)
    (ht : t ∈ s.set.actions) :
    ∃ answer, necessityAnswer? l q.source q.main p t = some answer ∧ Backed said q answer := by
  have hopen : IsOpening s q := by
    simp only [IsOpening, hkind, true_and]
    exact ht
  obtain ⟨answer, hanswer, hbacked⟩ := h.exists_answer_of_isOpening hs hopen
  rw [hkind] at hanswer
  exact ⟨answer, hanswer, hbacked⟩

end Complete

/-! ## Steps that the verifier does not rule out -/

/-- What the verifier says about the existence of a transition under a completion. -/
def existenceBy? (verdict : Query → Verdict) (source : State) (main : Action) (c : Completion)
    (target : State) : Option Existence :=
  match Query.make source main (.transition c target) with
  | .ok q => existence? (q.answer (verdict q))
  | .error _ => none

theorem existenceBy?_of_mem (verdict : Query → Verdict) {source : State} {main : Action}
    (hm : main ∈ source) (c : Completion) (target : State) :
    existenceBy? verdict source main c target =
      existence? (Query.answer ⟨source, main, _, faultless_transition hm c target⟩
        (verdict ⟨source, main, _, faultless_transition hm c target⟩)) := by
  rw [existenceBy?, Query.make_of_faultless (faultless_transition hm c target)]

instance (c : ActionSet) (answer? : Polarity → Action → Option Answer) (main : Action)
    (target : State) : Decidable (IsCandidate c answer? main target) :=
  decidable_of_iff
    ((∀ t ∈ target.toList, t ∈ c.actions) ∧
      (∀ t ∈ c.actions.toList, t ≠ main → answer? .enabled t = some .yes →
        answer? .disabled t ≠ some .yes → t ∈ target) ∧
      ∀ t ∈ c.actions.toList, t ≠ main → answer? .disabled t = some .yes →
        answer? .enabled t ≠ some .yes → t ∉ target)
    ⟨fun h => ⟨h.1, h.2.1, h.2.2⟩, fun h => ⟨h.mem_actions, h.mem_of_enabled,
      h.not_mem_of_disabled⟩⟩

/-- A main action of a state leads to a candidate target: the verifier answers the transition query
under a completion with YES or MAYBE. -/
def Leads (c : ActionSet) (l : ResultLog) (verdict : Query → Verdict) (source : State)
    (main : Action) (completion : Completion) (target : State) (existence : Existence) : Prop :=
  main ∈ source ∧ IsCandidate c (necessityAnswer? l source main) main target ∧
    existenceBy? verdict source main completion target = some existence

instance (c : ActionSet) (l : ResultLog) (verdict : Query → Verdict) (source : State)
    (main : Action) (completion : Completion) (target : State) (existence : Existence) :
    Decidable (Leads c l verdict source main completion target existence) :=
  inferInstanceAs (Decidable (_ ∧ _ ∧ _))

/-- A set of states is closed under the steps that the verifier does not rule out. -/
def ClosedUnderSteps (c : ActionSet) (l : ResultLog) (verdict : Query → Verdict) (P : Set State) :
    Prop :=
  ∀ source ∈ P, ∀ main completion target existence,
    Leads c l verdict source main completion target existence → target ∈ P

section Verdict

variable {s : Setting} {verdict : Query → Verdict} {initial : State} {a : Automaton} {l : ResultLog}
  (h : Complete s (fun q v => v = verdict q) initial a l)

include h

/-- The log says of the actions of a state what the verifier says. -/
theorem Complete.existenceIn?_eq_some_iff {source : State} {main : Action} (hm : main ∈ source)
    {c : Completion} {target : State} {existence : Existence} :
    existenceIn? l c source main target = some existence ↔
      source ∈ a.states ∧ Leads s.set l verdict source main c target existence := by
  let q : Query := ⟨source, main, _, faultless_transition hm c target⟩
  unfold Leads
  rw [existenceBy?_of_mem verdict hm]
  rcases h.existenceIn?_of_query (q := q) rfl with ⟨hno, hnone⟩ | ⟨hs, hcand, v, rfl, heq⟩
  · rw [show existenceIn? l c source main target = none from hnone]
    constructor
    · intro hsome
      simp at hsome
    · rintro ⟨hs, -, hcand, -⟩
      exact absurd ⟨hs, hcand⟩ hno
  · rw [show existenceIn? l c source main target = _ from heq]
    exact ⟨fun hx => ⟨hs, hm, hcand, hx⟩, fun hx => hx.2.2.2⟩

/-- A transition stands in the automaton once for each completion under which its action leads to
its target. -/
theorem Complete.count_transitions (t : Transition) :
    a.transitions.count t = [Completion.normal, .exceptional].countP fun c =>
      t.source ∈ a.states ∧ Leads s.set l verdict t.source t.action c t.target t.existence := by
  by_cases hm : t.action ∈ t.source
  · rw [h.charted.count_eq]
    apply List.countP_congr
    intro c _
    rw [decide_eq_true_iff, decide_eq_true_iff]
    exact h.existenceIn?_eq_some_iff hm
  · -- neither the automaton nor the verifier knows transitions with an action that is not enabled
    have hnot : t ∉ a.transitions := fun ht => hm (h.charted.mem_source t ht).2
    rw [List.count_eq_zero_of_not_mem hnot, eq_comm, List.countP_eq_zero]
    intro c _ hc
    exact hm (of_decide_eq_true hc).2.1

/-- **The states are a least fixpoint.**  They are closed since every step adds its target, and
least since each of them is reached by such steps. -/
theorem Complete.isLeast_states :
    IsLeast {P : Set State | initial ∈ P ∧ ClosedUnderSteps s.set l verdict P}
      {state | state ∈ a.states} := by
  refine ⟨⟨h.charted.initial_mem, ?_⟩, ?_⟩
  · intro source hs main c target existence hl
    have hx := (h.existenceIn?_eq_some_iff hl.1).2 ⟨hs, hl⟩
    exact h.charted.mem_target ⟨source, target, main, existence⟩ (h.mem_transitions_iff.2 ⟨c, hx⟩)
  · -- by induction on how the state is reached
    rintro P ⟨hinitial, hclosed⟩ state hs
    have hreach := h.charted.reaches state hs
    clear hs
    induction hreach with
    | initial =>
      rw [h.charted.initial_eq]
      exact hinitial
    | @step t ht _ ih =>
      obtain ⟨c, hc⟩ := h.mem_transitions_iff.1 ht
      have hm := (h.charted.mem_source t ht).2
      exact hclosed t.source ih t.action c t.target t.existence
        ((h.existenceIn?_eq_some_iff hm).1 hc).2

end Verdict

/-! ## Every construction -/

/-- **Constructions compute the least fixpoint.**  For every verifier that gives each query a verdict
of its own, every initial state of the class and every order of the questions, a finished
construction

* knows all necessity answers of its states, each given by the verifier to the query itself or, if it
  is a YES, to the global query;
* has as states the least set that holds the initial state and is closed under the steps that the
  verifier does not rule out;
* has as transitions one for each such step and completion, and no others. -/
theorem constructBy_leastFixpoint {s : Setup} {verdict : Query → Verdict} {schedule : Schedule}
    {initial : State} {r : Construction}
    (hverdict : ∀ n program q run, s.verifier n program q = .ran run → run.verdict = verdict q)
    (hinitial : ∀ a ∈ initial, a ∈ s.set.actions)
    (h : s.constructBy schedule initial = .ok r) :
    (∀ q : Query, q.source ∈ r.automaton.states → ∀ p, ∀ t ∈ s.set.actions,
      q.kind = .necessity p (scopeOf q.source) t →
        ∃ answer, necessityAnswer? r.log q.source q.main p t = some answer ∧
          Backed (fun q v => v = verdict q) q answer) ∧
    IsLeast {P : Set State | initial ∈ P ∧ ClosedUnderSteps s.set r.log verdict P}
      {state | state ∈ r.automaton.states} ∧
    ∀ t, r.automaton.transitions.count t = [Completion.normal, .exceptional].countP fun c =>
      t.source ∈ r.automaton.states ∧
        Leads s.set r.log verdict t.source t.action c t.target t.existence := by
  have hgives : s.Gives fun q v => v = verdict q := hverdict
  have hcomplete := Setup.complete_of_constructBy hgives hinitial h
  refine ⟨fun q hs p t ht hkind => ?_, hcomplete.isLeast_states, hcomplete.count_transitions⟩
  exact hcomplete.exists_necessityAnswer hs hkind ht

/-- A lamp that can be switched on and off. -/
def lampActions : ActionSet where
  actions := .ofList
    [⟨{ qualifiedName := "Lamp#on_pre", returnType := some boolType }, { qualifiedName := "Lamp#on" }⟩,
      ⟨{ qualifiedName := "Lamp#off_pre", returnType := some boolType },
        { qualifiedName := "Lamp#off" }⟩]
  invariant := { qualifiedName := "Lamp#inv", returnType := some boolType }

/-- The lamp under a verifier that always gives up. -/
def lampSetup : Setup where
  set := lampActions
  code := ⟨"", fun _ => "", ClassCode.defaultProcedureName, []⟩
  base := ""
  verifier := .ofVerdicts (fun _ => .inconclusive) (fun _ => "")

/-- If the verifier always gives up, nothing is ruled out: every state of the lamp is found, here with
the newest queries asked first, and each action possibly leads from the first state to every state, by
a return and by an exception. -/
theorem constructBy_leastFixpoint_lamp : ∃ r,
    lampSetup.constructBy (fun p => p.exploration.queue.items.length) lampActions.actions = .ok r ∧
    ∀ target : State, (∀ a ∈ target, a ∈ lampActions.actions) → target ∈ r.automaton.states ∧
      ∀ main ∈ lampActions.actions, r.automaton.transitions.count
        ⟨lampActions.actions, target, main, .possible⟩ = 2 := by
  have hruns : ∀ n program q, q.IsOver lampSetup.set →
      ∃ run, lampSetup.verifier n program q = .ran run := fun _ _ _ _ => ⟨_, rfl⟩
  obtain ⟨r, hr⟩ := Setup.exists_constructBy (fun p => p.exploration.queue.items.length)
    (fun a ha => ha) hruns (by decide) rfl rfl
  have hverdict : ∀ n program q run, lampSetup.verifier n program q = .ran run →
      run.verdict = .inconclusive := fun _ _ _ _ hrun => by rw [← Reply.ran.inj hrun]
  obtain ⟨hanswers, hleast, hcount⟩ := constructBy_leastFixpoint hverdict (fun a ha => ha) hr
  have hfirst : lampActions.actions ∈ r.automaton.states := hleast.1.1
  refine ⟨r, hr, fun target htarget => ?_⟩
  have hleads : ∀ main ∈ lampActions.actions, ∀ c, Leads lampActions r.log (fun _ => .inconclusive)
      lampActions.actions main c target .possible := by
    intro main hm c
    have hmaybe : ∀ p, ∀ t ∈ lampActions.actions, t ≠ main →
        necessityAnswer? r.log lampActions.actions main p t ≠ some .yes := by
      intro p t ht hne hyes
      obtain ⟨answer, ha, hbacked⟩ := hanswers
        ⟨lampActions.actions, main, _, faultless_necessity hm hne p⟩ hfirst p t ht rfl
      obtain rfl : Answer.yes = answer := Option.some.inj (hyes.symm.trans ha)
      rcases hbacked with ⟨v, rfl, hv⟩ | ⟨_, _, g, v, -, -, -, hkind, rfl, hv⟩
      · exact Answer.noConfusion hv
      · rw [Query.answer, hkind] at hv
        exact Answer.noConfusion hv
    refine ⟨hm, ⟨htarget, fun t ht hne he => absurd he (hmaybe _ t ht hne),
      fun t ht hne hd => absurd hd (hmaybe _ t ht hne)⟩, ?_⟩
    rw [existenceBy?_of_mem _ hm]
    rfl
  have hon : (⟨{ qualifiedName := "Lamp#on_pre", returnType := some boolType },
      { qualifiedName := "Lamp#on" }⟩ : Action) ∈ lampActions.actions := by decide
  refine ⟨hleast.1.2 _ hfirst _ .normal target .possible (hleads _ hon .normal), fun main hm => ?_⟩
  rw [hcount]
  exact List.countP_eq_length.2 fun c _ => decide_eq_true ⟨hfirst, hleads main hm c⟩

end Enabledness
