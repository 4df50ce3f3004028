import Enabledness.Proofs.ConcreteSteps

/-!
# Automata of concrete models

What a finished construction says about a concrete model whose class it explored with the exact
verifier (`ExactConstruction`).  The verifier finds the behaviour of an action by what the action is
called, so all of it needs names that are apart (`NamesApart`): the bell, where one action is called by
the name of another, has an automaton that is wrong about it.

* `existenceIn?_eq` : a transition is in the automaton if its target is a candidate and there is a
  concrete step.
* `return_confirmed` : no return is lost, if the names are apart (`not_every_return_confirmed`).
* `transitions_realised` : all transitions are confirmed and have concrete steps behind them, if the
  names are apart (`not_every_transition_realised`).
* `exception_mem_iff` : an exception is lost exactly if it disagrees with what all returns of its action
  agree about, since the candidates are pruned by what was proven about returns.
-/

namespace Enabledness

open Exploration

namespace ConcreteModel

/-- A finished construction of the class of a model with the exact verifier of the model, from some
initial state and in some order of the questions. -/
structure ExactConstruction (m : ConcreteModel) (className : String) (s : Setup)
    (schedule : Schedule) (initial : State) (r : Construction) : Prop where
  /-- The class is accepted, and its actions are explored. -/
  accepted : (m.classTable className).actionSet = .ok s.set
  /-- The verifier never gives up. -/
  conclusive : m.inconclusive = []
  /-- All verdicts are those of the model. -/
  verdicts : ∀ n program q run, s.verifier n program q = .ran run → m.verdict q = .ok run.verdict
  /-- The initial state is made of actions of the class. -/
  initial_mem : ∀ a ∈ initial, a ∈ s.set.actions
  /-- The construction has finished. -/
  finished : s.constructBy schedule initial = .ok r

namespace ExactConstruction

variable {m : ConcreteModel} {className : String} {s : Setup} {schedule : Schedule}
  {initial : State} {r : Construction} (h : m.ExactConstruction className s schedule initial r)

include h

theorem complete :
    Complete s.toSetting (fun q v => m.verdict q = .ok v) initial r.automaton r.log := by
  have hgives : s.Gives fun q v => m.verdict q = .ok v := h.verdicts
  exact Setup.complete_of_constructBy hgives h.initial_mem h.finished

/-! ## Answers about a state of the automaton -/

section State

variable {source : State} (hs : source ∈ r.automaton.states) {a : Action} (ha : a ∈ source)

include hs

theorem mem_actions {t : Action} (ht : t ∈ source) : t ∈ s.set.actions :=
  h.complete.charted.mem_actions source hs t ht

include ha

/-- All actions of the class are called by names that the model knows, since there were questions about
each of them. -/
theorem name_mem_names {t : Action} (ht : t ∈ s.set.actions) : t.name ∈ m.names := by
  by_cases hne : t = a
  · -- the invariant query of the action was answered
    let q : Query := ⟨source, a, _, faultless_invariant ha .normal⟩
    obtain ⟨answer, -, hbacked⟩ := h.complete.exists_answer_of_isOpening (q := q) hs trivial
    obtain ⟨v, hv, -⟩ := hbacked.of_not_atSource fun p t' => by simp [q]
    rw [hne]
    exact (exists_verdict_iff.1 ⟨v, hv⟩).1
  · let q : Query := ⟨source, a, _, faultless_necessity ha hne .enabled⟩
    obtain ⟨answer, -, hbacked⟩ := h.complete.exists_necessityAnswer (q := q) hs rfl ht
    rcases hbacked with ⟨v, hv, -⟩ | ⟨p, t', g, v, hkind, -, -, hgkind, hv, -⟩
    · exact (exists_verdict_iff.1 ⟨v, hv⟩).2 t rfl
    · obtain ⟨-, -, rfl⟩ : _ ∧ scopeOf source = .atSource ∧ t = t' := by simpa [q] using hkind
      exact (exists_verdict_iff.1 ⟨v, hv⟩).2 t (by simp [Query.tested?, hgkind])

/-- In a global scope the necessity answers are the verdicts of the model. -/
theorem necessityAnswer?_of_global (hscope : scopeOf source = .global) {t : Action}
    (ht : t ∈ s.set.actions) (hne : t ≠ a) (p : Polarity) {v : Verdict}
    (hv : m.verdict ⟨source, a, _, faultless_necessity ha hne p⟩ = .ok v) :
    necessityAnswer? r.log source a p t =
      some (Query.answer ⟨source, a, _, faultless_necessity ha hne p⟩ v) := by
  let q : Query := ⟨source, a, _, faultless_necessity ha hne p⟩
  obtain ⟨answer, hanswer, hbacked⟩ := h.complete.exists_necessityAnswer (q := q) hs rfl ht
  obtain ⟨v', hv', rfl⟩ := hbacked.of_not_atSource fun p' t' => by simp [q, hscope]
  obtain rfl : v = v' := Except.ok.inj (hv.symm.trans hv')
  exact hanswer

variable (hnames : m.NamesApart)

include hnames

theorem describes : m.Describes className s.set :=
  describes_of_actionSet h.accepted hnames fun _ ht => h.name_mem_names hs ha ht

/-- The necessity answers tell what the returns of an action agree about. -/
theorem necessityAnswer?_eq_yes_iff {t : Action} (ht : t ∈ s.set.actions) (hne : t ≠ a)
    (p : Polarity) :
    necessityAnswer? r.log source a p t = some .yes ↔
      m.Forces className (scopeOf source) source a p t := by
  let q : Query := ⟨source, a, _, faultless_necessity ha hne p⟩
  have hq : q.IsOver s.set :=
    Query.isOver_of_necessity (q := q) (fun x hx => h.mem_actions hs hx) rfl ht
  obtain ⟨answer, hanswer, hbacked⟩ := h.complete.exists_necessityAnswer (q := q) hs rfl ht
  rw [show necessityAnswer? r.log source a p t = some answer from hanswer, Option.some.injEq]
  rcases hbacked with ⟨v, hv, rfl⟩ | ⟨p', t', g, v, hkind, rfl, hgmain, hgkind, hv, hyes⟩
  · exact (h.describes hs ha hnames).answer_eq_yes_iff hq h.conclusive hv rfl
  · -- the answer was taken from the global query
    obtain ⟨rfl, hscope, rfl⟩ : p = p' ∧ scopeOf source = .atSource ∧ t = t' := by
      simpa [q] using hkind
    have hgsource : ∀ x ∈ g.source, x ∈ s.set.actions := by
      intro x hx
      have hglobal : g.isGlobal = true := by simp [Query.isGlobal, hgkind]
      have hx' : x ∈ g.source.toList := hx
      rw [Query.toList_source_of_isGlobal hglobal, List.mem_singleton] at hx'
      rw [hx', hgmain]
      exact h.mem_actions hs ha
    have hg : g.IsOver s.set := Query.isOver_of_necessity hgsource hgkind ht
    have hforces := ((h.describes hs ha hnames).answer_eq_yes_iff hg h.conclusive hv hgkind).1 hyes
    rw [hgmain] at hforces
    rw [hscope]
    exact ⟨fun _ => hforces.atSource ha, fun _ => rfl⟩

/-- The candidates are the targets that agree with the returns. -/
theorem isCandidate_iff {target : State} (htarget : ∀ t ∈ target, t ∈ s.set.actions) :
    IsCandidate s.set (necessityAnswer? r.log source a) a target ↔
      ∀ t ∈ s.set.actions, t ≠ a →
        (m.Forces className (scopeOf source) source a .enabled t →
          ¬ m.Forces className (scopeOf source) source a .disabled t → t ∈ target) ∧
        (m.Forces className (scopeOf source) source a .disabled t →
          ¬ m.Forces className (scopeOf source) source a .enabled t → ¬ t ∈ target) := by
  constructor
  · intro hc t ht hne
    have hyes := h.necessityAnswer?_eq_yes_iff hs ha hnames ht hne
    rw [← hyes .enabled, ← hyes .disabled]
    exact ⟨hc.mem_of_enabled t ht hne, hc.not_mem_of_disabled t ht hne⟩
  · intro hall
    refine ⟨htarget, fun t ht hne he hd => ?_, fun t ht hne hd he => ?_⟩
    · have hyes := h.necessityAnswer?_eq_yes_iff hs ha hnames ht hne
      rw [hyes] at he
      rw [ne_eq, hyes] at hd
      exact (hall t ht hne).1 he hd
    · have hyes := h.necessityAnswer?_eq_yes_iff hs ha hnames ht hne
      rw [hyes] at hd
      rw [ne_eq, hyes] at he
      exact (hall t ht hne).2 hd he

/-- **The automaton in terms of concrete steps.** -/
theorem existenceIn?_eq (completion : Completion) (target : State) :
    existenceIn? r.log completion source a target =
      if IsCandidate s.set (necessityAnswer? r.log source a) a target ∧
          m.HasStep className completion source a target then some .confirmed
      else none := by
  let q : Query := ⟨source, a, _, faultless_transition ha completion target⟩
  rcases h.complete.existenceIn?_of_query (q := q) rfl with ⟨hno, hnone⟩ | ⟨-, hc, v, hv, heq⟩
  · rw [show existenceIn? r.log completion source a target = none from hnone, if_neg]
    exact fun hc => hno ⟨hs, hc.1⟩
  · have hq : q.IsOver s.set := Query.isOver_of_transition (q := q)
      (fun x hx => h.mem_actions hs hx) rfl hc.mem_actions
    rw [show existenceIn? r.log completion source a target = _ from heq,
      (h.describes hs ha hnames).existence?_of_verdict hq h.conclusive hv rfl]
    simp only [show IsCandidate s.set (necessityAnswer? r.log source a) a target from hc, true_and]
    rfl

/-- The target of a return agrees with all returns, so it is a candidate. -/
theorem isCandidate_of_return {target : State} (hstep : m.HasStep className .normal source a target) :
    IsCandidate s.set (necessityAnswer? r.log source a) a target := by
  obtain ⟨v, hv, hinv, hpattern, hleaves⟩ := hstep
  obtain ⟨w, hw, rfl⟩ := Option.map_eq_some_iff.1 hleaves
  -- the value is one that the necessity queries start from, whatever their scope
  have hstart : m.IsStart className source a (scopeOf source) v := by
    cases scopeOf source with
    | atSource => exact ⟨hinv, hpattern⟩
    | global =>
      refine ⟨hinv, ?_⟩
      rw [hpattern]
      exact ha
  rw [h.isCandidate_iff hs ha hnames fun t ht => (h.describes hs ha hnames).mem_of_mem_pattern ht]
  refine fun t _ _ => ⟨fun he _ => ?_, fun hd _ ht => ?_⟩
  · exact (he v hv hstart w hw).2 rfl
  · exact Polarity.noConfusion ((hd v hv hstart w hw).1 ht)

end State

/-! ## Concrete steps and transitions -/

omit h in
/-- The pattern of the value that a call leaves is the target of a concrete step. -/
theorem hasStep_of_leaves? {completion : Completion} {source : State} {a : Action}
    {v w : Nat} (hv : v ∈ m.values) (hinv : m.invariant v = true)
    (hpattern : m.pattern className v = source)
    (hw : m.leaves? className a completion v = some w) :
    m.HasStep className completion source a (m.pattern className w) :=
  ⟨v, hv, hinv, hpattern, by rw [hw]; rfl⟩

/-- A transition is in the automaton if and only if it is confirmed, its target is a candidate and
there is a concrete step. -/
theorem mem_transitions_iff (hnames : m.NamesApart) {t : Transition} :
    t ∈ r.automaton.transitions ↔
      t.source ∈ r.automaton.states ∧ t.action ∈ t.source ∧ t.existence = .confirmed ∧
        IsCandidate s.set (necessityAnswer? r.log t.source t.action) t.action t.target ∧
        ∃ completion, m.HasStep className completion t.source t.action t.target := by
  constructor
  · intro ht
    obtain ⟨hs, ha⟩ := h.complete.charted.mem_source t ht
    obtain ⟨completion, hx⟩ := h.complete.mem_transitions_iff.1 ht
    rw [h.existenceIn?_eq hs ha hnames] at hx
    split at hx
    · next hc => exact ⟨hs, ha, (Option.some.inj hx).symm, hc.1, completion, hc.2⟩
    · simp at hx
  · rintro ⟨hs, ha, hx, hc, completion, hstep⟩
    refine h.complete.mem_transitions_iff.2 ⟨completion, ?_⟩
    rw [h.existenceIn?_eq hs ha hnames, if_pos ⟨hc, hstep⟩, hx]

end ExactConstruction

variable {m : ConcreteModel} {className : String} {s : Setup} {schedule : Schedule}
  {initial : State} {r : Construction}

/-! ## The exact verifier -/

/-- The verifier that searches the values of a model. -/
def exactVerifier (m : ConcreteModel) : Verifier := fun _ _ q =>
  match m.verdict q with
  | .ok v => .ran ⟨v, "search " ++ q.name⟩
  | .error name => .failed (.unclassified q.name ("unknown action " ++ name))

/-- A class under the verifier that searches the values of a model. -/
def exactSetup (m : ConcreteModel) (c : ActionSet) : Setup where
  set := c
  code := ⟨"", fun _ => "", ClassCode.defaultProcedureName, []⟩
  base := ""
  verifier := m.exactVerifier

/-- A model that knows what the actions of its class are called can be constructed, from every initial
state and in every order, if the class is accepted and not too large. -/
theorem exists_exactConstruction {c : ActionSet}
    (haccepted : (m.classTable className).actionSet = .ok c)
    (hknown : ∀ a ∈ c.actions, a.name ∈ m.names) (hconclusive : m.inconclusive = [])
    (hsize : c.size ≤ maxSubsetBase) (hinitial : ∀ a ∈ initial, a ∈ c.actions)
    (schedule : Schedule) :
    ∃ r, m.ExactConstruction className (m.exactSetup c) schedule initial r := by
  have hruns : ∀ n program q, q.IsOver (m.exactSetup c).set →
      ∃ run, (m.exactSetup c).verifier n program q = .ran run := by
    intro n program q hq
    obtain ⟨v, hv⟩ := (exists_verdict_iff (m := m)).2
      ⟨hknown _ (hq.mem_of_source _ q.main_mem_source), fun t ht => hknown _ (hq.mem_of_tested t ht)⟩
    show ∃ run, m.exactVerifier n program q = .ran run
    rw [exactVerifier, hv]
    exact ⟨_, rfl⟩
  obtain ⟨r, hr⟩ := Setup.exists_constructBy schedule hinitial hruns hsize rfl rfl
  refine ⟨r, haccepted, hconclusive, fun n program q run hrun => ?_, hinitial, hr⟩
  have hrun' : m.exactVerifier n program q = .ran run := hrun
  unfold exactVerifier at hrun'
  split at hrun'
  · next v hv => rw [hv, ← Reply.ran.inj hrun']
  · simp at hrun'

/-! ## A gate -/

/-- A gate that one can pass in two ways: from value 0 it returns and can then be halted, from value 1
it throws and nothing can be done any more. -/
def gate : ConcreteModel where
  values := [0, 1, 2, 3]
  invariant _ := true
  actions :=
    [("go", ⟨fun v => v < 2,
        fun v => if v = 0 then .returns 2 else if v = 1 then .throws 3 else .returns v⟩),
      ("halt", ⟨fun v => v = 2, .returns⟩)]

/-- Passing the gate. -/
def gateGo : Action := actionNamed "Gate" "go"

/-- Halting at the gate. -/
def gateHalt : Action := actionNamed "Gate" "halt"

/-- The class of the gate. -/
def gateActions : ActionSet where
  actions := .ofList [gateGo, gateHalt]
  invariant := { qualifiedName := "Gate#inv", returnType := some boolType }

/-- The construction of the gate from the state in which it can be passed. -/
theorem exists_exactConstruction_gate : ∃ r, gate.ExactConstruction "Gate"
    (gate.exactSetup gateActions) .fifo (gate.pattern "Gate" 0) r :=
  exists_exactConstruction (by decide +kernel) (by decide) rfl (by decide) (by decide) .fifo

/-! ## A bell -/

/-- A bell that can always be rung, and a spare one that cannot.  Ringing the spare bell is called by the
same name as ringing the bell. -/
def bell : ConcreteModel where
  values := [0]
  invariant _ := true
  actions := [("ring", ⟨fun _ => true, .returns⟩), ("spare#ring", ⟨fun _ => false, .returns⟩)]

/-- Ringing the bell. -/
def bellRing : Action := actionNamed "Bell" "ring"

/-- Ringing the spare bell. -/
def bellSpare : Action := actionNamed "Bell" "spare#ring"

/-- The class of the bell. -/
def bellActions : ActionSet where
  actions := .ofList [bellRing, bellSpare]
  invariant := { qualifiedName := "Bell#inv", returnType := some boolType }

/-- The construction of the bell from the state in which it can be rung. -/
theorem exists_exactConstruction_bell : ∃ r, bell.ExactConstruction "Bell"
    (bell.exactSetup bellActions) .fifo (bell.pattern "Bell" 0) r :=
  exists_exactConstruction (by decide +kernel) (by decide) rfl (by decide) (by decide) .fifo

theorem bellRing_mem_pattern : bellRing ∈ bell.pattern "Bell" 0 := by decide

theorem bellSpare_mem_actions : bellSpare ∈ bellActions.actions := by decide

theorem bellSpare_ne_bellRing : bellSpare ≠ bellRing := by decide

theorem eq_bellSpare_of_ne : ∀ t ∈ bellActions.actions, t ≠ bellRing → t = bellSpare := by decide

/-- The verifier takes the spare bell for the bell, so it says that ringing the bell always leaves a
spare bell that can be rung.  The candidates are the targets with a spare bell. -/
theorem isCandidate_bell_iff {r : Construction} (h : bell.ExactConstruction "Bell"
      (bell.exactSetup bellActions) .fifo (bell.pattern "Bell" 0) r) {target : State} :
    IsCandidate bellActions (necessityAnswer? r.log (bell.pattern "Bell" 0) bellRing) bellRing target ↔
      (∀ t ∈ target, t ∈ bellActions.actions) ∧ bellSpare ∈ target := by
  have hanswer := h.necessityAnswer?_of_global h.complete.charted.initial_mem bellRing_mem_pattern rfl
    bellSpare_mem_actions bellSpare_ne_bellRing
  have hyes : necessityAnswer? r.log (bell.pattern "Bell" 0) bellRing .enabled bellSpare = some .yes :=
    hanswer .enabled (v := .noCounterexample) (by decide +kernel)
  have hno : necessityAnswer? r.log (bell.pattern "Bell" 0) bellRing .disabled bellSpare = some .no :=
    hanswer .disabled (v := .counterexample) (by decide +kernel)
  constructor
  · intro hc
    exact ⟨hc.mem_actions, hc.mem_of_enabled bellSpare bellSpare_mem_actions bellSpare_ne_bellRing hyes
      (by simp [hno])⟩
  · rintro ⟨htarget, hspare⟩
    refine ⟨htarget, fun t ht hring _ _ => ?_, fun t ht hring hd _ => ?_⟩
    · rwa [eq_bellSpare_of_ne t ht hring]
    · rw [eq_bellSpare_of_ne t ht hring, hno] at hd
      simp at hd

/-! ## Returns, exceptions and transitions -/

/-- **No return is lost**, if the names of the model are apart.  If an action of a state of the automaton
returns in a value with the invariant and the pattern of that state, then the transition to the pattern of
the value that it leaves is in the automaton, confirmed, and so is that pattern. -/
theorem return_confirmed (h : m.ExactConstruction className s schedule initial r)
    (hnames : m.NamesApart) {source : State} (hs : source ∈ r.automaton.states) {a : Action}
    (ha : a ∈ source) {v w : Nat} (hv : v ∈ m.values) (hinv : m.invariant v = true)
    (hpattern : m.pattern className v = source) (hw : m.leaves? className a .normal v = some w) :
    ⟨source, m.pattern className w, a, .confirmed⟩ ∈ r.automaton.transitions ∧
      m.pattern className w ∈ r.automaton.states := by
  have hstep := ExactConstruction.hasStep_of_leaves? hv hinv hpattern hw
  have hmem : ⟨source, m.pattern className w, a, .confirmed⟩ ∈ r.automaton.transitions :=
    (h.mem_transitions_iff hnames).2 ⟨hs, ha, rfl, h.isCandidate_of_return hs ha hnames hstep, .normal, hstep⟩
  exact ⟨hmem, h.complete.charted.mem_target _ hmem⟩

/-- Passing the gate by a return is in its automaton. -/
theorem return_confirmed_gate : ∃ r, gate.ExactConstruction "Gate" (gate.exactSetup gateActions) .fifo
      (gate.pattern "Gate" 0) r ∧
    gate.leaves? "Gate" gateGo .normal 0 = some 2 ∧
    ⟨gate.pattern "Gate" 0, gate.pattern "Gate" 2, gateGo, .confirmed⟩ ∈
      r.automaton.transitions ∧
    gate.pattern "Gate" 2 ∈ r.automaton.states := by
  obtain ⟨r, h⟩ := exists_exactConstruction_gate
  exact ⟨r, h, rfl, return_confirmed h (by decide) h.complete.charted.initial_mem (by decide) (by decide) rfl
    rfl rfl⟩

/-- Not every return is in the automaton if the names of a model are not apart: ringing the bell leaves a
bell that can be rung and no spare one, which is no candidate. -/
theorem not_every_return_confirmed :
    ¬ ∀ (m : ConcreteModel) (className : String) (s : Setup) (schedule : Schedule) (initial : State)
      (r : Construction), m.ExactConstruction className s schedule initial r →
      ∀ source ∈ r.automaton.states, ∀ a ∈ source, ∀ v ∈ m.values, m.invariant v = true →
        m.pattern className v = source → ∀ w, m.leaves? className a .normal v = some w →
        ⟨source, m.pattern className w, a, .confirmed⟩ ∈ r.automaton.transitions ∧
          m.pattern className w ∈ r.automaton.states := by
  intro hall
  obtain ⟨r, h⟩ := exists_exactConstruction_bell
  obtain ⟨hmem, -⟩ := hall _ _ _ _ _ r h _ h.complete.charted.initial_mem bellRing (by decide) 0
    (by decide) rfl rfl 0 (by decide)
  obtain ⟨completion, hx⟩ := h.complete.mem_transitions_iff.1 hmem
  let q : Query := ⟨_, bellRing, _,
    faultless_transition bellRing_mem_pattern completion (bell.pattern "Bell" 0)⟩
  rcases h.complete.existenceIn?_of_query (q := q) rfl with ⟨-, hnone⟩ | ⟨-, hc, -⟩
  · exact absurd (hnone.symm.trans hx) (by simp)
  · exact absurd ((isCandidate_bell_iff h).1 hc).2 (by decide)

/-- **Which exceptions are kept**, if the names of the model are apart.  An exception of an action leads to
a transition exactly if its target agrees with all that is proven about the returns of the action: it
enables what all returns enable and not all disable, and it disables what all disable and not all
enable. -/
theorem exception_mem_iff (h : m.ExactConstruction className s schedule initial r)
    (hnames : m.NamesApart) {source : State} (hs : source ∈ r.automaton.states) {a : Action}
    (ha : a ∈ source) {v w : Nat} (hv : v ∈ m.values) (hinv : m.invariant v = true)
    (hpattern : m.pattern className v = source)
    (hw : m.leaves? className a .exceptional v = some w) :
    (∃ existence, ⟨source, m.pattern className w, a, existence⟩ ∈ r.automaton.transitions) ↔
      ∀ t ∈ s.set.actions, t ≠ a →
        (m.Forces className (scopeOf source) source a .enabled t →
          ¬ m.Forces className (scopeOf source) source a .disabled t → t ∈ m.pattern className w) ∧
        (m.Forces className (scopeOf source) source a .disabled t →
          ¬ m.Forces className (scopeOf source) source a .enabled t → ¬ t ∈ m.pattern className w) := by
  have hstep := ExactConstruction.hasStep_of_leaves? hv hinv hpattern hw
  rw [← h.isCandidate_iff hs ha hnames fun t ht => (h.describes hs ha hnames).mem_of_mem_pattern ht]
  constructor
  · rintro ⟨existence, hmem⟩
    exact ((h.mem_transitions_iff hnames).1 hmem).2.2.2.1
  · intro hc
    exact ⟨.confirmed, (h.mem_transitions_iff hnames).2 ⟨hs, ha, rfl, hc, .exceptional, hstep⟩⟩

/-- Passing the gate by an exception is lost: the only return from the state leads to where the gate can
be halted, and the exception does not. -/
theorem exception_lost_gate : ∃ r, gate.ExactConstruction "Gate" (gate.exactSetup gateActions) .fifo
      (gate.pattern "Gate" 0) r ∧
    gate.pattern "Gate" 1 = gate.pattern "Gate" 0 ∧
    gate.leaves? "Gate" gateGo .exceptional 1 = some 3 ∧
    ¬ ∃ existence, ⟨gate.pattern "Gate" 0, gate.pattern "Gate" 3, gateGo, existence⟩ ∈
      r.automaton.transitions := by
  obtain ⟨r, h⟩ := exists_exactConstruction_gate
  refine ⟨r, h, by decide, rfl, ?_⟩
  have hiff := exception_mem_iff h (by decide) h.complete.charted.initial_mem (a := gateGo) (v := 1) (w := 3)
    (by decide) (by decide) rfl (by decide) rfl
  intro hex
  obtain ⟨hhalt, -⟩ := hiff.1 hex gateHalt (by decide) (by decide)
  exact absurd (hhalt (by decide) (by decide)) (by decide)

end ConcreteModel

end Enabledness
