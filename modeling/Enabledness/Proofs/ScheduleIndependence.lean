import Mathlib.Data.List.Perm.Basic
import Enabledness.Proofs.LeastFixpoint

/-!
# The order of the questions does not matter

Which necessity answers are taken from the global table, and how many questions are asked, depends on
the order in which queued queries are asked.  What comes out does not, as long as the verifier keeps
its word: what it proves about a main action in general it also proves about it in each state
(`KeepsGlobals`).  Then a necessity answer is what the verifier says about the query itself, wherever
the log has it from (`Complete.necessityAnswer?_eq`), and two finished constructions

* have the same states, since each is closed under the steps of the other (`Complete.states_subset`),
* have the same transitions, each equally often,
* have answered the same queries (`Complete.answered_iff_answered`), each by one question or by one
  global answer (`Setup.Tally`).
-/

namespace Enabledness

open Exploration

/-- What the verifier proves about a main action in general, it proves in every state of the class. -/
def KeepsGlobals (c : ActionSet) (verdict : Query → Verdict) : Prop :=
  ∀ (g q : Query) (p : Polarity) (t : Action), q.IsOver c →
    g.kind = .necessity p .global t → q.kind = .necessity p .atSource t → g.main = q.main →
    verdict g = .noCounterexample → verdict q = .noCounterexample

/-- Only a search without a counterexample proves a necessity. -/
theorem Verdict.toNecessity_eq_yes_iff {v : Verdict} : v.toNecessity = .yes ↔ v = .noCounterexample := by
  cases v <;> simp [toNecessity]

namespace Complete

variable {s : Setting} {verdict : Query → Verdict} {initial : State} {a a' : Automaton}
  {l l' : ResultLog}

/-- **Necessity answers.**  The log has the answer that the verifier gives to the query itself, also
where it was copied from the global table. -/
theorem necessityAnswer?_eq (h : Complete s (fun q v => v = verdict q) initial a l)
    (hkeeps : KeepsGlobals s.set verdict) {q : Query} (hs : q.source ∈ a.states) {p : Polarity}
    {t : Action} (hkind : q.kind = .necessity p (scopeOf q.source) t) (ht : t ∈ s.set.actions) :
    necessityAnswer? l q.source q.main p t = some (q.answer (verdict q)) := by
  obtain ⟨answer, hanswer, hbacked⟩ := h.exists_necessityAnswer hs hkind ht
  rw [hanswer]
  rcases hbacked with ⟨v, rfl, rfl⟩ | ⟨p', t', g, v, hlocal, rfl, hmain, hglobal, rfl, hyes⟩
  · rfl
  · have hover : q.IsOver s.set :=
      Query.isOver_of_necessity (h.charted.mem_actions q.source hs) hkind ht
    have hg : verdict g = .noCounterexample := by
      rw [Query.answer, hglobal] at hyes
      exact Verdict.toNecessity_eq_yes_iff.1 hyes
    have hq := hkeeps g q p' t' hover hglobal hlocal hmain hg
    rw [Query.answer, hlocal, hq]
    rfl

section TwoRuns

variable (h : Complete s (fun q v => v = verdict q) initial a l)
  (h' : Complete s (fun q v => v = verdict q) initial a' l') (hkeeps : KeepsGlobals s.set verdict)

include h h' hkeeps

/-- Two logs agree about the necessity answers of a common state. -/
theorem necessityAnswer?_congr {source : State} (hs : source ∈ a.states) (hs' : source ∈ a'.states)
    {main : Action} (hm : main ∈ source) {t : Action} (ht : t ∈ s.set.actions) (hne : t ≠ main)
    (p : Polarity) :
    necessityAnswer? l' source main p t = necessityAnswer? l source main p t := by
  let q : Query := ⟨source, main, _, faultless_necessity hm hne p⟩
  exact (h'.necessityAnswer?_eq hkeeps (q := q) hs' rfl ht).trans
    (h.necessityAnswer?_eq hkeeps (q := q) hs rfl ht).symm

/-- A step of one construction from a common state is a step of the other one. -/
theorem leads_congr {source : State} (hs : source ∈ a.states) (hs' : source ∈ a'.states)
    {main : Action} {c : Completion} {target : State} {existence : Existence}
    (hl : Leads s.set l verdict source main c target existence) :
    Leads s.set l' verdict source main c target existence := by
  obtain ⟨hm, hcand, hx⟩ := hl
  refine ⟨hm, hcand.congr fun t ht hne p => ?_, hx⟩
  exact h.necessityAnswer?_congr h' hkeeps hs hs' hm ht hne p

/-- The states of one construction are states of the other one. -/
theorem states_subset {state : State} (hs : state ∈ a.states) : state ∈ a'.states := by
  -- the states of both are closed under the steps of the first, whose states are the least such set
  let both : Set State := {state | state ∈ a.states ∧ state ∈ a'.states}
  have hinitial : initial ∈ both := ⟨h.charted.initial_mem, h'.charted.initial_mem⟩
  have hclosed : ClosedUnderSteps s.set l verdict both := by
    rintro source ⟨hs, hs'⟩ main c target existence hl
    constructor
    · exact h.isLeast_states.1.2 source hs main c target existence hl
    · exact h'.isLeast_states.1.2 source hs' main c target existence
        (h.leads_congr h' hkeeps hs hs' hl)
  have hsub := h.isLeast_states.2 (show both ∈ _ from ⟨hinitial, hclosed⟩)
  exact (hsub hs).2

/-- The transitions of two constructions are the same up to their order. -/
theorem perm_transitions : a.transitions.Perm a'.transitions := by
  rw [List.perm_iff_count]
  intro t
  rw [h.count_transitions, h'.count_transitions]
  apply List.countP_congr
  intro c _
  rw [decide_eq_true_iff, decide_eq_true_iff]
  constructor
  · rintro ⟨hs, hl⟩
    have hs' := h.states_subset h' hkeeps hs
    exact ⟨hs', h.leads_congr h' hkeeps hs hs' hl⟩
  · rintro ⟨hs', hl⟩
    have hs := h'.states_subset h hkeeps hs'
    exact ⟨hs, h'.leads_congr h hkeeps hs' hs hl⟩

/-- What has an answer in one log has one in the other. -/
theorem answered_of_answered {q : Query} (hq : l.answer? q.source q.main q.kind ≠ none) :
    l'.answer? q.source q.main q.kind ≠ none := by
  obtain ⟨hs, hasked⟩ := (h.answered_iff q).1 hq
  have hs' := h.states_subset h' hkeeps hs
  refine (h'.answered_iff q).2 ⟨hs', hasked.imp_right fun hstep => ?_⟩
  refine (isStep_congr fun t ht hne p => ?_).1 hstep
  exact h'.necessityAnswer?_congr h hkeeps hs' hs q.main_mem_source ht hne p

theorem answered_iff_answered (q : Query) : l.answer? q.source q.main q.kind ≠ none ↔
    l'.answer? q.source q.main q.kind ≠ none :=
  ⟨h.answered_of_answered h' hkeeps, h'.answered_of_answered h hkeeps⟩

end TwoRuns

end Complete

/-- A finished construction has visited the states of its automaton. -/
theorem Setup.Finished.visited_iff {s : Setup} {said : Query → Verdict → Prop} {initial : State}
    {p : Progress} {r : Construction} (h : Setup.Finished s said initial p r) (state : State) :
    state ∈ r.log.visited ↔ state ∈ r.automaton.states := by
  rw [h.result_eq]
  exact h.inOrder.sound.visited_iff state

/-- A finished construction has listed the queries that have an answer, each once: some were asked, and
the others are its cached answers. -/
theorem Setup.Finished.exists_tally {s : Setup} {said : Query → Verdict → Prop} {initial : State}
    {p : Progress} {r : Construction} (h : Setup.Finished s said initial p r) :
    ∃ settled : List Query, settled.Nodup ∧ settled.length = r.asked.length + r.cachedAnswers ∧
      ∀ q, q ∈ settled ↔ r.log.answer? q.source q.main q.kind ≠ none := by
  obtain ⟨reused, htally⟩ := h.inOrder.tallied
  rw [h.result_eq]
  refine ⟨p.asked.toList ++ reused, htally.nodup, ?_, htally.mem_iff⟩
  rw [List.length_append, ← htally.cachedAnswers_eq]

/-- **The order of the questions does not matter.**  Two finished constructions of a class from the same
initial state, in whatever orders they asked their queries, have the same states, the same transitions
equally often, the same visited states and the same number of questions and cached answers, if the
verifier gives each query a verdict of its own and keeps in each state what it proves in general. -/
theorem constructBy_schedule_irrelevant {s : Setup} {verdict : Query → Verdict}
    {schedule schedule' : Schedule} {initial : State} {r r' : Construction}
    (hverdict : ∀ n program q run, s.verifier n program q = .ran run → run.verdict = verdict q)
    (hkeeps : KeepsGlobals s.set verdict) (hinitial : ∀ a ∈ initial, a ∈ s.set.actions)
    (h : s.constructBy schedule initial = .ok r) (h' : s.constructBy schedule' initial = .ok r') :
    (∀ state, state ∈ r.automaton.states ↔ state ∈ r'.automaton.states) ∧
    r.automaton.transitions.Perm r'.automaton.transitions ∧
    (∀ state, state ∈ r.log.visited ↔ state ∈ r'.log.visited) ∧
    r.asked.length + r.cachedAnswers = r'.asked.length + r'.cachedAnswers := by
  have hgives : s.Gives fun q v => v = verdict q := hverdict
  obtain ⟨p, hp⟩ := Setup.exists_finished_of_constructBy hgives hinitial h
  obtain ⟨p', hp'⟩ := Setup.exists_finished_of_constructBy hgives hinitial h'
  have hc := hp.complete
  have hc' := hp'.complete
  have hstates : ∀ state, state ∈ r.automaton.states ↔ state ∈ r'.automaton.states := fun state =>
    ⟨hc.states_subset hc' hkeeps, hc'.states_subset hc hkeeps⟩
  refine ⟨hstates, hc.perm_transitions hc' hkeeps, fun state => ?_, ?_⟩
  · rw [hp.visited_iff, hp'.visited_iff, hstates]
  · obtain ⟨settled, hnodup, hlength, hmem⟩ := hp.exists_tally
    obtain ⟨settled', hnodup', hlength', hmem'⟩ := hp'.exists_tally
    have hperm : settled.Perm settled' := by
      rw [List.perm_ext_iff_of_nodup hnodup hnodup']
      intro q
      rw [hmem, hmem', hc.answered_iff_answered hc' hkeeps]
    rw [← hlength, ← hlength', hperm.length_eq]

/-- The lamp under a verifier that proves all necessities and gives up on all else. -/
def lampProven : Setup := { lampSetup with
  verifier := .ofVerdicts (fun q => if q.isNecessity then .noCounterexample else .inconclusive)
    (fun _ => "") }

/-- The state in which the lamp can only be switched on. -/
def lampOff : State := lampActions.actions.filter fun a => a.name = "on"

/-- Asking the oldest or the newest queries first makes no difference to the lamp, although the global
answers about switching it off need not be known when the state is explored that could use them. -/
theorem constructBy_schedule_irrelevant_lamp : ∃ r r',
    lampProven.constructBy .fifo lampOff = .ok r ∧
    lampProven.constructBy (fun p => p.exploration.queue.items.length) lampOff = .ok r' ∧
    r.automaton.transitions.Perm r'.automaton.transitions ∧
    r.asked.length + r.cachedAnswers = r'.asked.length + r'.cachedAnswers := by
  have hinitial : ∀ a ∈ lampOff, a ∈ lampProven.set.actions := fun a ha =>
    (SortedSet.mem_filter.1 ha).1
  have hruns : ∀ n program q, q.IsOver lampProven.set →
      ∃ run, lampProven.verifier n program q = .ran run := fun _ _ _ _ => ⟨_, rfl⟩
  have hends : ∀ schedule, ∃ r, lampProven.constructBy schedule lampOff = .ok r := fun schedule =>
    Setup.exists_constructBy schedule hinitial hruns (by decide) rfl rfl
  obtain ⟨r, hr⟩ := hends .fifo
  obtain ⟨r', hr'⟩ := hends fun p => p.exploration.queue.items.length
  have hverdict : ∀ n program q run, lampProven.verifier n program q = .ran run →
      run.verdict = if q.isNecessity then .noCounterexample else .inconclusive :=
    fun _ _ _ _ hrun => by rw [← Reply.ran.inj hrun]
  have hkeeps : KeepsGlobals lampProven.set
      fun q => if q.isNecessity then .noCounterexample else .inconclusive := by
    intro g q p t _ _ hq _ _
    exact if_pos (Query.isNecessity_eq_true_iff.2 ⟨p, .atSource, t, hq⟩)
  obtain ⟨-, hperm, -, hcount⟩ := constructBy_schedule_irrelevant hverdict hkeeps hinitial hr hr'
  exact ⟨r, r', hr, hr', hperm, hcount⟩

end Enabledness
