import Mathlib.Data.List.Induction
import Enabledness.Proofs.Outcome

/-!
# What a log tells about its past

A result log over its whole life: any calls, one after the other, on a log that starts empty.  Each call
leaves an event or none: a visit, an outcome that is written to a slot, or a discovery.  Taking over a
global answer reads the log and writes to it, so what a call leaves depends on the events before it.

* `Slot`, `found?` : the places that hold one outcome each, and what is found there.
* `Tells` : how a log and the events of its past belong together.
* `Tells.apply` : every call keeps this, and so do all calls (`tells_after`).
* `last_write_wins` : what it means for the slots and for the order of the tables.
-/

namespace Enabledness

/-! ## Slots -/

/-- A place in a result log that holds one outcome. -/
inductive Slot where
  /-- A necessity after a main action, in the global table. -/
  | global (main tested : Action) (polarity : Polarity)
  /-- A necessity after a main action in a state. -/
  | necessity (state : State) (main tested : Action) (polarity : Polarity)
  /-- Whether a main action in a state can break the invariant. -/
  | invariant (state : State) (main : Action) (completion : Completion)
  /-- Whether a main action leads from a state to a target. -/
  | transition (state : State) (main : Action) (target : State) (completion : Completion)
deriving DecidableEq

namespace Slot

/-- The state that a slot stands under; none for the global table. -/
def place? : Slot → Option State
  | global .. => none
  | necessity s .. => some s
  | invariant s .. => some s
  | transition s .. => some s

/-- The main action that a slot stands under. -/
def main : Slot → Action
  | global a .. => a
  | necessity _ a .. => a
  | invariant _ a _ => a
  | transition _ a .. => a

/-- The kind of question that a slot is for. -/
def kind : Slot → QueryKind
  | global _ t p => .necessity p .global t
  | necessity _ _ t p => .necessity p .atSource t
  | invariant _ _ c => .invariant c
  | transition _ _ target c => .transition c target

end Slot

/-- The slot that the outcome of a query belongs to. -/
def Query.slot (q : Query) : Slot :=
  match q.kind with
  | .invariant c => .invariant q.source q.main c
  | .transition c target => .transition q.source q.main target c
  | .necessity p .atSource t => .necessity q.source q.main t p
  | .necessity p .global t => .global q.main t p

namespace Query

variable (q : Query)

@[simp]
theorem place?_slot : q.slot.place? = q.place? := by
  unfold slot place? isGlobal
  rcases q.kind with c | ⟨c, t⟩ | ⟨p, _ | _, t⟩ <;> rfl

@[simp]
theorem main_slot : q.slot.main = q.main := by
  unfold slot
  rcases q.kind with c | ⟨c, t⟩ | ⟨p, _ | _, t⟩ <;> rfl

@[simp]
theorem kind_slot : q.slot.kind = q.kind := by
  unfold slot
  rcases q.kind with c | ⟨c, t⟩ | ⟨p, _ | _, t⟩ <;> rfl

end Query

/-- A slot is known by its table, its main action and its kind, whatever the scope in the kind. -/
theorem Slot.eq_iff {slot slot' : Slot} : slot = slot' ↔
    slot.place? = slot'.place? ∧ slot.main = slot'.main ∧
      slot.kind.unscoped = slot'.kind.unscoped := by
  cases slot <;> cases slot' <;>
    simp [place?, main, kind, QueryKind.unscoped, and_assoc, and_comm, and_left_comm]

namespace ResultLog

/-- What is found in a slot. -/
def found? (l : ResultLog) : Slot → Option Outcome
  | .global main tested p => l.globalOutcome? main tested p
  | .necessity s main tested p => (l.pair? s main).bind fun pair => (pair.necessities p).get? tested
  | .invariant s main c => (l.pair? s main).bind (·.invariant? c)
  | .transition s main target c => (l.pair? s main).bind fun pair => (pair.transitions c).get? target

/-- What is found in a slot, by the place, the main action and the kind of the slot. -/
theorem found?_eq_slot? (l : ResultLog) (slot : Slot) :
    l.found? slot = l.slot? slot.place? slot.main slot.kind := by
  cases slot with
  | global main tested p =>
    show l.globalOutcome? main tested p = _
    unfold globalOutcome?
    cases h : l.global.get? main <;> simp [Slot.place?, Slot.main, Slot.kind, slot?, h, PairLog.outcome?]
  | _ => rfl

/-- Storing an outcome writes one slot and no other. -/
theorem found?_store (l : ResultLog) (q : Query) (o : Outcome) (slot : Slot) :
    (l.store q o).found? slot = if slot = q.slot then some o else l.found? slot := by
  rw [found?_eq_slot?, slot?_store, found?_eq_slot?]
  simp only [Slot.eq_iff, Query.place?_slot, Query.main_slot, Query.kind_slot]

/-! ## Calls and the events that they leave -/

/-- A call of a result log that may change it. -/
inductive Call where
  /-- Visit a state. -/
  | register (state : State)
  /-- Record the run of a query. -/
  | record (query : Query) (run : VerifierRun)
  /-- Note that a transition discovered its target. -/
  | recordEnqueued (transition : Transition)
  /-- Answer a query from the global table. -/
  | reuseGlobal (query : Query)

/-- Something that a call leaves in the log. -/
inductive Event where
  /-- A state was visited. -/
  | visited (state : State)
  /-- An outcome was written to a slot. -/
  | written (slot : Slot) (outcome : Outcome)
  /-- A transition discovered its target. -/
  | discovered (transition : Transition)

/-- The log after a call. -/
def Call.apply : Call → ResultLog → ResultLog
  | register s, l => l.register s
  | record q run, l => l.record q run
  | recordEnqueued t, l => l.recordEnqueued t
  | reuseGlobal q, l => (l.reuseGlobal q).2

/-- The outcome that an event writes to a slot. -/
def Event.writtenTo? (slot : Slot) : Event → Option Outcome
  | visited _ => none
  | written slot' o => if slot = slot' then some o else none
  | discovered _ => none

/-- What was last written to a slot. -/
def lastWritten (past : List Event) (slot : Slot) : Option Outcome :=
  (past.filterMap (Event.writtenTo? slot)).getLast?

/-- What was last written for a question to the global table, if it says YES. -/
def globalYes? (past : List Event) (main tested : Action) (p : Polarity) : Option Outcome :=
  (lastWritten past (.global main tested p)).filter fun o => o.answer = .yes

/-- The outcome that a query takes over from the global table. -/
def takenOver? (past : List Event) (q : Query) : Option Outcome :=
  match q.kind with
  | .necessity p .atSource t => globalYes? past q.main t p
  | _ => none

/-- The events that a call leaves, after those of the past. -/
def Call.events (past : List Event) : Call → List Event
  | register s => [.visited s]
  | record q run => [.written q.slot ⟨q.answer run.verdict, run⟩]
  | recordEnqueued t => [.discovered t]
  | reuseGlobal q => (takenOver? past q).toList.map (.written q.slot)

/-- An empty log after some calls. -/
def after (calls : List Call) : ResultLog := calls.foldl (fun l c => c.apply l) {}

/-- The events that some calls leave in an empty log. -/
def events (calls : List Call) : List Event := calls.foldl (fun past c => past ++ c.events past) []

/-- What the global table has to say to a query: any answer to a global one, a YES or nothing to one
about a state, nothing to other kinds. -/
def reusable? (past : List Event) (q : Query) : Option Answer :=
  match q.kind with
  | .necessity p .global t => (lastWritten past (.global q.main t p)).map Outcome.answer
  | .necessity p .atSource t => (globalYes? past q.main t p).map fun _ => .yes
  | _ => none

/-! ## The tables and what is inserted into them -/

/-- What is known about a main action, in the global table or in a state. -/
def pairAt (l : ResultLog) : Option State → Action → PairLog
  | none, main => (l.global.get? main).getD {}
  | some s, main => (l.pair? s main).getD {}

/-- The main actions of the global table or of a state. -/
def mains (l : ResultLog) : Option State → List Action
  | none => l.global.keys
  | some s => ((l.perState.get? s).getD .empty).keys

/-- The actions that were tested after a main action. -/
def tested (l : ResultLog) (place? : Option State) (main : Action) (p : Polarity) : List Action :=
  ((l.pairAt place? main).necessities p).keys

/-- The targets that a main action was asked about. -/
def targets (l : ResultLog) (place? : Option State) (main : Action) (c : Completion) : List State :=
  ((l.pairAt place? main).transitions c).keys

end ResultLog

namespace QueryKind

/-- The action that is tested for a polarity. -/
def testedFor (p : Polarity) : QueryKind → List Action
  | .necessity p' _ t => if p' = p then [t] else []
  | _ => []

/-- The target that is asked about for a completion. -/
def targetFor (c : Completion) : QueryKind → List State
  | .transition c' target => if c' = c then [target] else []
  | _ => []

end QueryKind

namespace ResultLog

namespace Event

/-- The states that an event adds to the visited ones. -/
def visits : Event → List State
  | visited s => [s]
  | written .. => []
  | discovered t => [t.target]

/-- The states that an event makes entries for. -/
def states : Event → List State
  | visited _ => []
  | written slot _ => slot.place?.toList
  | discovered t => [t.source, t.target]

/-- The main actions that an event makes entries for. -/
def mains (place? : Option State) : Event → List Action
  | visited _ => []
  | written slot _ => if place? = slot.place? then [slot.main] else []
  | discovered t => if place? = some t.source then [t.action] else []

/-- The tested actions that an event makes entries for. -/
def tested (place? : Option State) (main : Action) (p : Polarity) : Event → List Action
  | visited _ => []
  | written slot _ => if place? = slot.place? ∧ main = slot.main then slot.kind.testedFor p else []
  | discovered _ => []

/-- The targets that an event makes entries for. -/
def targets (place? : Option State) (main : Action) (c : Completion) : Event → List State
  | visited _ => []
  | written slot _ => if place? = slot.place? ∧ main = slot.main then slot.kind.targetFor c else []
  | discovered _ => []

end Event

/-- What some events insert, each once, in order of first insertion. -/
def inserted {α : Type} [DecidableEq α] (keys : Event → List α) (past : List Event) : List α :=
  (past.flatMap keys).eraseDups

/-- One more event inserts its keys after those that are there. -/
theorem inserted_snoc {α : Type} [DecidableEq α] (keys : Event → List α) (past : List Event)
    (e : Event) : inserted keys (past ++ [e]) = (past.flatMap keys ++ keys e).eraseDups := by
  rw [inserted, List.flatMap_append, List.flatMap_singleton]

/-- An event without keys inserts nothing. -/
theorem inserted_snoc_of_nil {α : Type} [DecidableEq α] {keys : Event → List α} {e : Event}
    (h : keys e = []) (past : List Event) : inserted keys (past ++ [e]) = inserted keys past := by
  rw [inserted_snoc, h, List.append_nil, inserted]

/-- The last event that writes a slot decides what is in it. -/
theorem lastWritten_snoc (past : List Event) (e : Event) (slot : Slot) :
    lastWritten (past ++ [e]) slot = (e.writtenTo? slot).or (lastWritten past slot) := by
  unfold lastWritten
  rw [List.filterMap_append, List.getLast?_append]
  cases h : e.writtenTo? slot <;> simp [h]

/-- How a log and the events of its past belong together. -/
structure Tells (l : ResultLog) (past : List Event) : Prop where
  /-- A slot holds what was last written to it. -/
  found : ∀ slot, l.found? slot = lastWritten past slot
  /-- The visited states stand in the order of their first visits. -/
  visited : l.visited.toList = inserted Event.visits past
  /-- The states with entries stand in order of first insertion. -/
  states : l.perState.keys = inserted Event.states past
  /-- So do the main actions of the global table and of each state. -/
  mains : ∀ place?, l.mains place? = inserted (Event.mains place?) past
  /-- So do the tested actions of each main action and polarity. -/
  tested : ∀ place? main p, l.tested place? main p = inserted (Event.tested place? main p) past
  /-- So do the targets of each main action and completion. -/
  targets : ∀ place? main c, l.targets place? main c = inserted (Event.targets place? main c) past

/-! ## What a change does to the tables -/

section Change

variable (l : ResultLog) (s : State) (a : Action) (f : PairLog → PairLog)

/-- Altering a pair leaves the other pairs as they are. -/
theorem pairAt_alterPair (place? : Option State) (main : Action) :
    (l.alterPair s a f).pairAt place? main =
      if place? = some s ∧ main = a then f (l.pairAt place? main) else l.pairAt place? main := by
  cases place? with
  | none => rfl
  | some s' =>
    simp only [pairAt, pair?_alterPair, Option.some.injEq]
    split
    · next h => rw [h.1, h.2, Option.getD_some]
    · rfl

/-- Altering a pair adds its main action to the end of those of its place, if it is new. -/
theorem mains_alterPair {place? : Option State} {past : List Action}
    (h : l.mains place? = past.eraseDups) : (l.alterPair s a f).mains place? =
      (past ++ if place? = some s then [a] else []).eraseDups := by
  cases place? with
  | none => simpa [mains, alterPair] using h
  | some s' =>
    simp only [mains, alterPair, Table.get?_alter, Option.some.injEq] at h ⊢
    split
    · next heq =>
      subst heq
      exact Table.keys_insert_of_eq_eraseDups h a _
    · rw [List.append_nil, h]

/-- Make an entry for a state, without outcomes. -/
def touch : ResultLog := { l with perState := l.perState.alter s .empty id }

theorem mains_touch (place? : Option State) : (l.touch s).mains place? = l.mains place? := by
  cases place? with
  | none => rfl
  | some s' =>
    simp only [mains, touch, Table.get?_alter]
    split
    · next heq => rw [heq, Option.getD_some, id]
    · rfl

theorem pair?_touch (s' : State) (main : Action) : (l.touch s).pair? s' main = l.pair? s' main := by
  unfold pair? touch
  simp only [Table.get?_alter]
  by_cases h : s' = s
  · subst h
    cases l.perState.get? s' <;> simp
  · simp [h]

theorem pairAt_touch (place? : Option State) (main : Action) :
    (l.touch s).pairAt place? main = l.pairAt place? main := by
  cases place? with
  | none => rfl
  | some s' => simp only [pairAt, pair?_touch]

end Change

/-- Storing an outcome alters the pair of its query, and no other. -/
theorem pairAt_store (l : ResultLog) (q : Query) (o : Outcome) (place? : Option State)
    (main : Action) : (l.store q o).pairAt place? main =
      if place? = q.place? ∧ main = q.main then (l.pairAt place? main).store q.kind o
      else l.pairAt place? main := by
  unfold store Query.place?
  by_cases hq : q.isGlobal = true
  · simp only [hq, if_true]
    cases place? with
    | none =>
      simp only [pairAt, Table.get?_alter, true_and]
      split
      · next h => rw [h, Option.getD_some]
      · rfl
    | some s => simp [pairAt, pair?]
  · simp only [hq, Bool.false_eq_true, if_false]
    exact pairAt_alterPair l q.source q.main _ place? main

/-- Storing an outcome adds its main action to the end of those of its place, if it is new. -/
theorem mains_store (l : ResultLog) (q : Query) (o : Outcome) {place? : Option State}
    {past : List Action} (h : l.mains place? = past.eraseDups) : (l.store q o).mains place? =
      (past ++ if place? = q.place? then [q.main] else []).eraseDups := by
  unfold store Query.place?
  by_cases hq : q.isGlobal = true
  · simp only [hq, if_true]
    cases place? with
    | none =>
      rw [if_pos rfl]
      exact Table.keys_insert_of_eq_eraseDups h q.main _
    | some s =>
      rw [if_neg (by simp), List.append_nil]
      exact h
  · simp only [hq, Bool.false_eq_true, if_false]
    exact mains_alterPair l q.source q.main _ h

/-- Storing an outcome adds its source to the end of the states, if it is new; a global one has no source. -/
theorem states_store (l : ResultLog) (q : Query) (o : Outcome) {past : List State}
    (h : l.perState.keys = past.eraseDups) :
    (l.store q o).perState.keys = (past ++ q.place?.toList).eraseDups := by
  unfold store Query.place?
  by_cases hq : q.isGlobal = true
  · simpa [hq] using h
  · simp only [hq, Bool.false_eq_true, if_false]
    exact Table.keys_insert_of_eq_eraseDups h q.source _

end ResultLog

namespace PairLog

variable (pair : PairLog) (kind : QueryKind) (o : Outcome)

/-- Storing a necessity outcome adds the tested action to those of its polarity. -/
theorem tested_store {p : Polarity} {past : List Action}
    (h : (pair.necessities p).keys = past.eraseDups) :
    ((pair.store kind o).necessities p).keys = (past ++ kind.testedFor p).eraseDups := by
  have hnew : ∀ t, ((pair.necessities p).insert t o).keys = (past ++ [t]).eraseDups := fun t =>
    Table.keys_insert_of_eq_eraseDups h t o
  rcases kind with (_ | _) | ⟨_ | _, _⟩ | ⟨_ | _, _, t⟩ <;> cases p <;>
    simp_all [store, setInvariant, setTransition, setNecessity, necessities, QueryKind.testedFor]

/-- Storing a transition outcome adds its target to those of its completion. -/
theorem targets_store {c : Completion} {past : List State}
    (h : (pair.transitions c).keys = past.eraseDups) :
    ((pair.store kind o).transitions c).keys = (past ++ kind.targetFor c).eraseDups := by
  have hnew : ∀ t, ((pair.transitions c).insert t o).keys = (past ++ [t]).eraseDups := fun t =>
    Table.keys_insert_of_eq_eraseDups h t o
  rcases kind with (_ | _) | ⟨_ | _, t⟩ | ⟨_ | _, _, _⟩ <;> cases c <;>
    simp_all [store, setInvariant, setTransition, setNecessity, transitions, QueryKind.targetFor]

end PairLog

namespace ResultLog

namespace Tells

/-- The empty log tells of nothing. -/
theorem start : Tells {} [] where
  found slot := by
    cases slot with
    | _ => rfl
  visited := rfl
  states := rfl
  mains place? := by
    cases place? with
    | _ => rfl
  tested place? main p := by
    cases place? <;> cases p <;> rfl
  targets place? main c := by
    cases place? <;> cases c <;> rfl

variable {l : ResultLog} {past : List Event} (h : Tells l past)

include h

/-- **A visit** is told. -/
theorem register (s : State) : Tells (l.register s) (past ++ [.visited s]) where
  found slot := by
    rw [lastWritten_snoc]
    exact h.found slot
  visited := by
    rw [inserted_snoc]
    exact Roster.toList_insert_of_eq_eraseDups h.visited s
  states := h.states.trans (inserted_snoc_of_nil rfl past).symm
  mains place? := (h.mains place?).trans (inserted_snoc_of_nil rfl past).symm
  tested place? main p := (h.tested place? main p).trans (inserted_snoc_of_nil rfl past).symm
  targets place? main c := (h.targets place? main c).trans (inserted_snoc_of_nil rfl past).symm

/-- **A stored outcome** is told. -/
theorem store (q : Query) (o : Outcome) :
    Tells (l.store q o) (past ++ [.written q.slot o]) where
  found slot := by
    rw [lastWritten_snoc, found?_store, h.found, Event.writtenTo?]
    split <;> rfl
  visited := by
    have hsame : (l.store q o).visited = l.visited := by
      unfold ResultLog.store
      split <;> rfl
    rw [hsame, inserted_snoc_of_nil rfl]
    exact h.visited
  states := by
    rw [inserted_snoc, Event.states, Query.place?_slot]
    exact states_store l q o h.states
  mains place? := by
    rw [inserted_snoc, Event.mains, Query.place?_slot, Query.main_slot]
    exact mains_store l q o (h.mains place?)
  tested place? main p := by
    rw [inserted_snoc, Event.tested, Query.place?_slot, Query.main_slot, Query.kind_slot,
      ResultLog.tested, pairAt_store]
    split
    · exact PairLog.tested_store _ _ o (h.tested place? main p)
    · rw [List.append_nil]
      exact h.tested place? main p
  targets place? main c := by
    rw [inserted_snoc, Event.targets, Query.place?_slot, Query.main_slot, Query.kind_slot,
      ResultLog.targets, pairAt_store]
    split
    · exact PairLog.targets_store _ _ o (h.targets place? main c)
    · rw [List.append_nil]
      exact h.targets place? main c

/-- **A discovery** is told. -/
theorem recordEnqueued (t : Transition) :
    Tells (l.recordEnqueued t) (past ++ [.discovered t]) := by
  -- the visit, the note and the entry of the target, one after the other
  have heq : l.recordEnqueued t = ((l.register t.target).alterPair t.source t.action fun pair =>
      { pair with enqueued := pair.enqueued.insert t.target }).touch t.target := rfl
  have hpair : ∀ place? main, ∃ enqueued, (l.recordEnqueued t).pairAt place? main =
      { l.pairAt place? main with enqueued } := by
    intro place? main
    rw [heq, pairAt_touch, pairAt_alterPair]
    split
    · exact ⟨_, rfl⟩
    · exact ⟨(l.pairAt place? main).enqueued, rfl⟩
  refine ⟨fun slot => ?_, ?_, ?_, fun place? => ?_, fun place? main p => ?_, fun place? main c => ?_⟩
  · rw [lastWritten_snoc, found?_eq_slot?, slot?_recordEnqueued, ← found?_eq_slot?]
    exact h.found slot
  · rw [inserted_snoc]
    exact Roster.toList_insert_of_eq_eraseDups h.visited t.target
  · rw [inserted_snoc, Event.states, List.append_cons]
    refine Table.keys_insert_of_eq_eraseDups ?_ t.target _
    exact Table.keys_insert_of_eq_eraseDups h.states t.source _
  · rw [inserted_snoc, heq, mains_touch]
    exact mains_alterPair _ t.source t.action _ (h.mains place?)
  · obtain ⟨enqueued, hpair⟩ := hpair place? main
    rw [inserted_snoc_of_nil rfl, ResultLog.tested, hpair]
    refine Eq.trans ?_ (h.tested place? main p)
    cases p with
    | _ => rfl
  · obtain ⟨enqueued, hpair⟩ := hpair place? main
    rw [inserted_snoc_of_nil rfl, ResultLog.targets, hpair]
    refine Eq.trans ?_ (h.targets place? main c)
    cases c with
    | _ => rfl

/-- A query takes over what its past says, and this is stored for it. -/
theorem reuseGlobal (q : Query) :
    l.reuseGlobal q = (reusable? past q, (takenOver? past q).elim l (l.store q)) := by
  have hglobal : ∀ main t p, l.globalOutcome? main t p = lastWritten past (.global main t p) :=
    fun main t p => h.found (.global main t p)
  unfold ResultLog.reuseGlobal reusable? takenOver? globalYes?
  rcases q.kind with c | ⟨c, t⟩ | ⟨p, _ | _, t⟩
  · rfl
  · rfl
  · simp only [hglobal]
    cases lastWritten past (.global q.main t p) with
    | none => rfl
    | some o => by_cases hy : o.answer = .yes <;> simp [Option.filter, hy]
  · simp only [hglobal]
    cases lastWritten past (.global q.main t p) <;> rfl

/-- **A call keeps what the log tells.** -/
theorem apply (c : Call) : Tells (c.apply l) (past ++ c.events past) := by
  cases c with
  | register s => exact h.register s
  | record q run => exact h.store q _
  | recordEnqueued t => exact h.recordEnqueued t
  | reuseGlobal q =>
    simp only [Call.apply, Call.events, h.reuseGlobal q]
    cases takenOver? past q with
    | none => simpa using h
    | some o => exact h.store q o

end Tells

/-! ## All calls -/

variable (calls : List Call)

theorem after_snoc (c : Call) : after (calls ++ [c]) = c.apply (after calls) := by
  rw [after, List.foldl_append, List.foldl_cons, List.foldl_nil, after]

theorem events_snoc (c : Call) : events (calls ++ [c]) = events calls ++ c.events (events calls) := by
  rw [events, List.foldl_append, List.foldl_cons, List.foldl_nil, events]

/-- **All calls keep what the log tells.** -/
theorem tells_after : Tells (after calls) (events calls) := by
  induction calls using List.reverseRecOn with
  | nil => exact Tells.start
  | append_singleton calls c ih =>
    rw [after_snoc, events_snoc]
    exact ih.apply c

/-- The slot that a call may write. -/
def Call.slot? : Call → Option Slot
  | record q _ => some q.slot
  | reuseGlobal q => some q.slot
  | _ => none

/-- A call writes no slot but its own. -/
theorem lastWritten_events_snoc (c : Call) {slot : Slot} (h : c.slot? ≠ some slot) :
    lastWritten (events (calls ++ [c])) slot = lastWritten (events calls) slot := by
  have hother : ∀ q : Query, q.slot ≠ slot → ∀ o,
      lastWritten (events calls ++ [.written q.slot o]) slot = lastWritten (events calls) slot := by
    intro q hq o
    rw [lastWritten_snoc, Event.writtenTo?, if_neg (Ne.symm hq), Option.none_or]
  rw [events_snoc]
  cases c with
  | register s => rw [Call.events, lastWritten_snoc, Event.writtenTo?, Option.none_or]
  | record q run => exact hother q (fun heq => h (congrArg some heq)) _
  | recordEnqueued t => rw [Call.events, lastWritten_snoc, Event.writtenTo?, Option.none_or]
  | reuseGlobal q =>
    rw [Call.events]
    cases takenOver? (events calls) q with
    | none => simp
    | some o => exact hother q (fun heq => h (congrArg some heq)) o

/-- **The last write wins.**  After any calls on an empty log, and with the events that they left:

* each slot holds what was last written to it, and each table lists its keys once, in order of first
  insertion (`Tells`);
* one more call changes no slot but its own, if it has one;
* the answer that is reused for a query is the last one written to the global table for a global query,
  a YES or nothing for a query about a state, and nothing for other kinds. -/
theorem last_write_wins :
    Tells (after calls) (events calls) ∧
    (∀ (c : Call) (slot : Slot), c.slot? ≠ some slot →
      (after (calls ++ [c])).found? slot = (after calls).found? slot) ∧
    ∀ q, ((after calls).reuseGlobal q).1 = reusable? (events calls) q := by
  refine ⟨tells_after calls, fun c slot hslot => ?_, fun q => ?_⟩
  · rw [(tells_after _).found, (tells_after _).found, lastWritten_events_snoc calls c hslot]
  · rw [(tells_after calls).reuseGlobal]

/-- The action of a latch with a name. -/
def latch (name : String) : Action where
  precondition := { qualifiedName := "Latch#" ++ name ++ "_pre", returnType := some boolType }
  operation := { qualifiedName := "Latch#" ++ name }

/-- Whether lifting the latch always lets it drop again, or never. -/
def latchGlobal (p : Polarity) : Query :=
  ⟨.ofList [latch "lift"], latch "lift", .necessity p .global (latch "drop"), by cases p <;> decide⟩

/-- The same question in a state in which the latch can be dropped already. -/
def latchLocal (p : Polarity) : Query :=
  ⟨.ofList [latch "lift", latch "drop"], latch "lift", .necessity p .atSource (latch "drop"),
    by cases p <;> decide⟩

/-- The question in all states is answered three times, and the second answer is taken over. -/
def latchCalls : List Call :=
  [.record (latchGlobal .enabled) ⟨.counterexample, "first"⟩, .reuseGlobal (latchLocal .enabled),
    .record (latchGlobal .enabled) ⟨.noCounterexample, "second"⟩, .reuseGlobal (latchLocal .enabled),
    .record (latchGlobal .enabled) ⟨.counterexample, "third"⟩, .reuseGlobal (latchLocal .enabled)]

/-- The global slot holds the third outcome, and the slot of the state a copy of the second, which a
visit does not change. -/
theorem last_write_wins_latch :
    (after latchCalls).found? (latchGlobal .enabled).slot = some ⟨.no, ⟨.counterexample, "third"⟩⟩ ∧
      (after latchCalls).found? (latchLocal .enabled).slot = some ⟨.yes, ⟨.noCounterexample, "second"⟩⟩ ∧
      (Call.register (latchLocal .enabled).source).slot? ≠ some (latchLocal .enabled).slot ∧
      (after (latchCalls ++ [.register (latchLocal .enabled).source])).found? (latchLocal .enabled).slot =
        some ⟨.yes, ⟨.noCounterexample, "second"⟩⟩ ∧
      ((after latchCalls).reuseGlobal (latchGlobal .enabled)).1 = some .no ∧
      ((after latchCalls).reuseGlobal (latchLocal .enabled)).1 = none := by
  obtain ⟨htells, hframe, hreuse⟩ := last_write_wins latchCalls
  have hlocal : (after latchCalls).found? (latchLocal .enabled).slot =
      some ⟨.yes, ⟨.noCounterexample, "second"⟩⟩ := (htells.found _).trans (by decide)
  have hslot : (Call.register (latchLocal .enabled).source).slot? ≠ some (latchLocal .enabled).slot := by decide
  exact ⟨(htells.found _).trans (by decide), hlocal, hslot, (hframe _ _ hslot).trans hlocal,
    (hreuse _).trans (by decide), (hreuse _).trans (by decide)⟩

end ResultLog

end Enabledness
