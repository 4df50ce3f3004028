import Enabledness.Exploration

/-!
# Exploring in small steps

Exploring a state or reacting to an answer touches the queue, the log, the automaton and the table of
pending pairs several times.  A `Chore` is one such operation, and performing it may leave further
chores to do.

* `perform` : one chore, all at once.
* `Performs` : chores one after the other, those that a chore leaves first.
* `performs_opening`, `performs_reaction` : performed without a break, the chores of a state explore
  it, and the chores of an answer react to it.

What happens when others work on the same exploration between two chores is the subject of crews.
-/

namespace Enabledness

open Exploration

/-- One operation of an exploration. -/
inductive Chore where
  /-- Put a query into the queue. -/
  | push (q : Query)
  /-- Start asking about a main action of a state. -/
  | examine (state : State) (main : Action)
  /-- Look up the next necessity question in the global table; some facts and some queries to ask were
  found before. -/
  | consult (state : State) (main : Action) (left : List (Action × Polarity)) (facts : Facts)
      (toAsk : List Query)
  /-- Let a pair wait for the answers to its necessity queries. -/
  | await (state : State) (main : Action) (facts : Facts) (toAsk : List Query)
  /-- Note a necessity answer of a pair that waits. -/
  | note (state : State) (main tested : Action) (polarity : Polarity) (answer : Answer)
  /-- Let a pair wait no longer. -/
  | release (state : State) (main : Action)
  /-- Find the candidate targets of a pair. -/
  | schedule (state : State) (main : Action) (facts : Facts)
  /-- Add a transition to the automaton. -/
  | add (t : Transition)
  /-- Tell the log that a transition discovered its target. -/
  | announce (t : Transition)

/-- The chores of exploring a state. -/
def opening (state : State) : List Chore := state.toList.map (Chore.examine state)

/-- The chores of reacting to the answer to a query. -/
def reaction (q : Query) (answer : Answer) : List Chore :=
  match q.kind with
  | .invariant _ => []
  | .transition _ target =>
    match existence? answer with
    | some existence => [.add ⟨q.source, target, q.main, existence⟩]
    | none => []
  | .necessity polarity _ tested => [.note q.source q.main tested polarity answer]

/-- Perform a chore: what becomes of the exploration, and which chores it leaves. -/
def perform (s : Setting) (e : Exploration) :
    Chore → Except ConstructionFault (Exploration × List Chore)
  | .push q => .ok (e.enqueue [q], [])
  | .examine state main => do
    let invariants ← invariantQueries state main
    return (e, invariants.map .push ++ [.consult state main (necessityKinds s main) {} []])
  | .consult state main [] facts toAsk =>
    .ok (e, [if toAsk.isEmpty then .schedule state main facts else .await state main facts toAsk])
  | .consult state main ((tested, polarity) :: left) facts toAsk => do
    let q ← askAbout state main (.necessity polarity (scopeOf state) tested)
    match e.log.reuseGlobal q with
    | (some answer, log) =>
      return ({ e with log := log, cachedAnswers := e.cachedAnswers + 1 },
        [.consult state main left (facts.insert tested answer polarity) toAsk])
    | (none, _) => return (e, [.consult state main left facts (toAsk ++ [q])])
  | .await state main facts toAsk =>
    let pending := e.pending.insert (state, main) { facts with remaining := toAsk.length }
    .ok ({ e with pending := pending }, toAsk.map .push)
  | .note state main tested polarity answer =>
    match e.pending.get? (state, main) with
    | none => .error (.integrity (.untrackedNecessity state main))
    | some facts =>
      let facts := { facts.insert tested answer polarity with remaining := facts.remaining - 1 }
      .ok ({ e with pending := e.pending.insert (state, main) facts },
        if facts.remaining = 0 then [.release state main] else [])
  | .release state main =>
    match e.pending.get? (state, main) with
    | none => .ok (e, [])
    | some facts =>
      .ok ({ e with pending := e.pending.erase (state, main) }, [.schedule state main facts])
  | .schedule state main facts =>
    match candidates s main facts with
    | .error refusal => .error (.candidates refusal)
    | .ok targets => do
      let queries ← targets.mapM (transitionQueries state main)
      return (e, queries.flatten.map .push)
  | .add t =>
    .ok ({ e with automaton := e.automaton.addTransition t },
      if e.automaton.isDiscovery t then [.announce t] else [])
  | .announce t => .ok ({ e with log := e.log.recordEnqueued t }, opening t.target)

/-- Chores performed without a break, up to the end or to the first fault. -/
inductive Performs (s : Setting) :
    Exploration → List Chore → Except ConstructionFault Exploration → Prop
  | done (e : Exploration) : Performs s e [] (.ok e)
  | step {e e' : Exploration} {chore : Chore} {more rest : List Chore}
      {r : Except ConstructionFault Exploration} :
      perform s e chore = .ok (e', more) → Performs s e' (more ++ rest) r →
      Performs s e (chore :: rest) r
  | fault {e : Exploration} {chore : Chore} {rest : List Chore} {fault : ConstructionFault} :
      perform s e chore = .error fault → Performs s e (chore :: rest) (.error fault)

namespace Performs

variable {s : Setting} {e e' : Exploration} {chore : Chore} {chores more rest : List Chore}

/-- Chores after chores. -/
theorem append {r : Except ConstructionFault Exploration}
    {f : Exploration → Except ConstructionFault Exploration} (h : Performs s e chores r)
    (hrest : ∀ e', Performs s e' rest (f e')) : Performs s e (chores ++ rest) (r >>= f) := by
  induction h with
  | done e => exact hrest e
  | step hp _ ih =>
    rw [List.append_assoc] at ih
    exact .step hp ih
  | fault hp => exact .fault hp

/-- A chore that leaves chores. -/
theorem single {r : Except ConstructionFault Exploration} (hp : perform s e chore = .ok (e', more))
    (h : Performs s e' more r) : Performs s e [chore] r := by
  refine .step hp ?_
  rwa [List.append_nil]

/-- Queries are queued one by one. -/
theorem push (e : Exploration) (queries : List Query) :
    Performs s e (queries.map .push) (.ok (e.enqueue queries)) := by
  induction queries generalizing e with
  | nil =>
    have hnil : e.enqueue [] = e := by simp [enqueue, WorkQueue.pushAll]
    rw [hnil]
    exact .done e
  | cons q queries ih =>
    have hcons : e.enqueue (q :: queries) = (e.enqueue [q]).enqueue queries := by
      simp only [enqueue, WorkQueue.pushAll_eq_foldl, List.foldl_cons, List.foldl_nil]
    rw [hcons]
    exact .step rfl (ih _)

theorem schedule (e : Exploration) (state : State) (main : Action) (facts : Facts) :
    Performs s e [.schedule state main facts] (e.schedule s state main facts) := by
  unfold Exploration.schedule
  cases hc : candidates s main facts with
  | error refusal => exact .fault (by simp only [perform, hc])
  | ok targets =>
    have hp : perform s e (.schedule state main facts) =
        targets.mapM (transitionQueries state main) >>= fun queries =>
          .ok (e, queries.flatten.map .push) := by
      simp only [perform, hc]
      rfl
    show Performs s e _ (targets.mapM (transitionQueries state main) >>= fun queries =>
      .ok (e.enqueue queries.flatten))
    cases hq : targets.mapM (transitionQueries state main) with
    | error fault =>
      rw [hq] at hp
      exact .fault hp
    | ok queries =>
      rw [hq] at hp
      exact single hp (push e queries.flatten)

/-- The necessity questions of a pair are looked up one by one; then the pair waits or has its targets
found. -/
theorem consult (e : Exploration) (state : State) (main : Action) (left : List (Action × Polarity))
    (facts : Facts) (toAsk : List Query) :
    Performs s e [.consult state main left facts toAsk]
      (gather state main left e facts toAsk >>= fun (e, facts, toAsk) =>
        if toAsk.isEmpty then e.schedule s state main facts
        else
          let pending := e.pending.insert (state, main) { facts with remaining := toAsk.length }
          .ok ({ e with pending := pending }.enqueue toAsk)) := by
  induction left generalizing e facts toAsk with
  | nil =>
    refine single rfl ?_
    show Performs s e _ (if toAsk.isEmpty then _ else _)
    by_cases hempty : toAsk.isEmpty = true
    · rw [if_pos hempty, if_pos hempty]
      exact schedule e state main facts
    · rw [if_neg hempty, if_neg hempty]
      exact single rfl (push _ toAsk)
  | cons x left ih =>
    obtain ⟨tested, polarity⟩ := x
    unfold gather
    cases hq : askAbout state main (.necessity polarity (scopeOf state) tested) with
    | error fault => exact .fault (by simp only [perform, hq]; rfl)
    | ok q =>
      rcases hr : e.log.reuseGlobal q with ⟨_ | answer, log⟩
      · have hp : perform s e (.consult state main ((tested, polarity) :: left) facts toAsk) =
            .ok (e, [.consult state main left facts (toAsk ++ [q])]) := by
          simp only [perform, hq, bind, Except.bind, hr]
          rfl
        simp only [bind, Except.bind, hr]
        exact single hp (ih e facts (toAsk ++ [q]))
      · have hp : perform s e (.consult state main ((tested, polarity) :: left) facts toAsk) =
            .ok ({ e with log := log, cachedAnswers := e.cachedAnswers + 1 },
              [.consult state main left (facts.insert tested answer polarity) toAsk]) := by
          simp only [perform, hq, bind, Except.bind, hr]
          rfl
        simp only [bind, Except.bind, hr]
        exact single hp (ih _ _ toAsk)

theorem examine (e : Exploration) (state : State) (main : Action) :
    Performs s e [.examine state main] (explorePair s state e main) := by
  unfold explorePair
  cases hi : invariantQueries state main with
  | error fault => exact .fault (by simp only [perform, hi]; rfl)
  | ok invariants =>
    have hp : perform s e (.examine state main) =
        .ok (e, invariants.map .push ++ [.consult state main (necessityKinds s main) {} []]) := by
      simp only [perform, hi]
      rfl
    exact single hp ((push e invariants).append fun e' => consult e' state main _ {} [])

/-- **Exploring a state** is performing its chores. -/
theorem opening (e : Exploration) (state : State) :
    Performs s e (opening state) (e.explore s state) := by
  unfold Enabledness.opening explore
  induction state.toList generalizing e with
  | nil => exact .done e
  | cons main rest ih =>
    rw [List.map_cons, ← List.singleton_append, List.foldlM_cons]
    exact (examine e state main).append ih

theorem add (e : Exploration) (t : Transition) : Performs s e [.add t] (e.discover s t) := by
  unfold discover
  by_cases hd : e.automaton.isDiscovery t = true
  · have hp : perform s e (.add t) =
        .ok ({ e with automaton := e.automaton.addTransition t }, [.announce t]) := by
      simp only [perform, if_pos hd]
    simp only [if_pos hd]
    exact single hp (single rfl (opening _ t.target))
  · have hp : perform s e (.add t) =
        .ok ({ e with automaton := e.automaton.addTransition t }, []) := by
      simp only [perform, if_neg hd]
    simp only [if_neg hd]
    exact single hp (.done _)

theorem note (e : Exploration) (state : State) (main tested : Action) (polarity : Polarity)
    (answer : Answer) : Performs s e [.note state main tested polarity answer]
      (e.resolve s state main tested polarity answer) := by
  unfold resolve
  cases hf : e.pending.get? (state, main) with
  | none => exact .fault (by simp only [perform, hf])
  | some facts =>
    let facts' := { facts.insert tested answer polarity with remaining := facts.remaining - 1 }
    let e' : Exploration := { e with pending := e.pending.insert (state, main) facts' }
    have hp : perform s e (.note state main tested polarity answer) =
        .ok (e', if facts'.remaining = 0 then [.release state main] else []) := by
      simp only [perform, hf, e', facts']
    show Performs s e _ (if facts'.remaining = 0 then _ else _)
    by_cases hzero : facts'.remaining = 0
    · rw [if_pos hzero] at hp ⊢
      have hrelease : perform s e' (.release state main) =
          .ok ({ e' with pending := e'.pending.erase (state, main) },
            [.schedule state main facts']) := by
        simp only [perform, e', Table.get?_insert, if_true]
      exact single hp (single hrelease (schedule _ state main facts'))
    · rw [if_neg hzero] at hp ⊢
      exact single hp (.done e')

/-- **Reacting to an answer** is performing its chores. -/
theorem reaction (e : Exploration) (q : Query) (answer : Answer) :
    Performs s e (reaction q answer) (e.onAnswer s q answer) := by
  unfold Enabledness.reaction onAnswer
  cases q.kind with
  | invariant c => exact .done e
  | transition c target =>
    cases existence? answer with
    | none => exact .done e
    | some existence => exact add e _
  | necessity polarity scope tested => exact note e q.source q.main tested polarity answer

end Performs

end Enabledness
