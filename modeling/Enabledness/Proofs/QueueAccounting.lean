import Enabledness.WorkQueue

/-!
# The accounts of a work queue

A work queue over its whole life: any calls, one after the other, on a queue that starts empty.  The
only rule is that an item is reported done after it was taken, and once (`Disciplined`).

* `Accounts` : how the queue, the items that were accepted, those that were returned and the number of
  reports belong together.
* `Accounts.snoc` : every call keeps the accounts, and so does every sequence of calls
  (`Disciplined.accounts`).
* `closed_applyAll` : a closed queue stays closed.
* `accounts_of_disciplined` : what the accounts say about every sequence of calls.
-/

namespace Enabledness

namespace WorkQueue

variable {α : Type}

/-! ## Calls and what they answer -/

/-- A call of a work queue. -/
inductive Call (α : Type) where
  /-- Add an item. -/
  | push (item : α)
  /-- Take an item. -/
  | poll
  /-- Report an item done. -/
  | taskDone
  /-- Close the queue if nothing is outstanding. -/
  | closeIfIdle
  /-- Close the queue and drop its items. -/
  | abort
deriving DecidableEq

/-- A call with its answer. -/
inductive Event (α : Type) where
  /-- An item was accepted or not. -/
  | pushed (item : α) (accepted : Bool)
  /-- A poll found something. -/
  | polled (found : Poll α)
  /-- An item was reported done. -/
  | reported
  /-- The queue was found idle or not. -/
  | checked (idle : Bool)
  /-- The queue was aborted. -/
  | aborted

/-- The queue after a call. -/
def Call.apply : Call α → WorkQueue α → WorkQueue α
  | push a, q => q.push a
  | poll, q => q.poll.2
  | taskDone, q => q.taskDone
  | closeIfIdle, q => q.closeIfIdle
  | abort, q => q.abort

/-- The answer to a call. -/
def Call.event : Call α → WorkQueue α → Event α
  | push a, q => .pushed a q.accepts
  | poll, q => .polled q.poll.1
  | taskDone, _ => .reported
  | closeIfIdle, q => .checked q.isIdle
  | abort, _ => .aborted

/-- The queue after some calls. -/
def applyAll (q : WorkQueue α) (calls : List (Call α)) : WorkQueue α :=
  calls.foldl (fun q c => c.apply q) q

/-- The calls with their answers. -/
def eventsFrom (q : WorkQueue α) : List (Call α) → List (Event α)
  | [] => []
  | c :: calls => c.event q :: (c.apply q).eventsFrom calls

theorem eventsFrom_append (q : WorkQueue α) (calls calls' : List (Call α)) :
    q.eventsFrom (calls ++ calls') =
      q.eventsFrom calls ++ (q.applyAll calls).eventsFrom calls' := by
  induction calls generalizing q with
  | nil => rfl
  | cons c calls ih =>
    rw [List.cons_append, eventsFrom, eventsFrom, ih, List.cons_append]
    rfl

/-! ## A queue from its beginning -/

/-- A new queue after some calls. -/
def after (calls : List (Call α)) : WorkQueue α := ({} : WorkQueue α).applyAll calls

/-- The calls of a new queue with their answers. -/
def events (calls : List (Call α)) : List (Event α) := ({} : WorkQueue α).eventsFrom calls

/-- The item of a push that was accepted. -/
def Event.accepted? : Event α → Option α
  | pushed a true => some a
  | _ => none

/-- The item that a poll returned. -/
def Event.returned? : Event α → Option α
  | polled (.item a) => some a
  | _ => none

/-- The items whose push was accepted, in order. -/
def accepted (calls : List (Call α)) : List α := (events calls).filterMap Event.accepted?

/-- The items that polls returned, in order. -/
def returned (calls : List (Call α)) : List α := (events calls).filterMap Event.returned?

/-- The call reports an item done. -/
def Call.isReport : Call α → Bool
  | taskDone => true
  | _ => false

/-- How often an item was reported done. -/
def reports (calls : List (Call α)) : Nat := calls.countP Call.isReport

/-- The number of items that were taken and not reported done. -/
def inHand (calls : List (Call α)) : Nat := (returned calls).length - reports calls

/-- Items are reported done after they were taken, and once. -/
inductive Disciplined : List (Call α) → Prop
  /-- No call at all. -/
  | nil : Disciplined []
  /-- One more call, which reports an item only if there is one to report. -/
  | snoc {calls : List (Call α)} {c : Call α} (h : Disciplined calls)
      (hc : c = .taskDone → 0 < inHand calls) : Disciplined (calls ++ [c])

section Snoc

variable (calls : List (Call α)) (c : Call α)

theorem after_snoc : after (calls ++ [c]) = c.apply (after calls) := by
  simp only [after, applyAll, List.foldl_append, List.foldl_cons, List.foldl_nil]

theorem events_snoc : events (calls ++ [c]) = events calls ++ [c.event (after calls)] := by
  rw [events, eventsFrom_append]
  rfl

theorem accepted_snoc :
    accepted (calls ++ [c]) = accepted calls ++ (c.event (after calls)).accepted?.toList := by
  rw [accepted, events_snoc, List.filterMap_append]
  cases h : (c.event (after calls)).accepted? <;> simp [accepted, h]

theorem returned_snoc :
    returned (calls ++ [c]) = returned calls ++ (c.event (after calls)).returned?.toList := by
  rw [returned, events_snoc, List.filterMap_append]
  cases h : (c.event (after calls)).returned? <;> simp [returned, h]

theorem reports_snoc : reports (calls ++ [c]) = reports calls + if c.isReport then 1 else 0 := by
  rw [reports, List.countP_append, List.countP_singleton, reports]

end Snoc

/-! ## The accounts -/

/-- How a queue and what happened to it belong together.  An abort drops items that still count as
outstanding, so after it the count is a bound only. -/
structure Accounts (q : WorkQueue α) (accepted returned : List α) (reports : Nat)
    (aborted : Prop) : Prop where
  /-- What was returned and what waits was accepted in this order. -/
  returned_first : returned ++ q.items <+: accepted
  /-- Without an abort nothing else was accepted. -/
  accepted_eq : ¬ aborted → accepted = returned ++ q.items
  /-- Only items that were taken were reported. -/
  reports_le : reports ≤ returned.length
  /-- What waits or is in hand is outstanding. -/
  le_outstanding : q.items.length + returned.length ≤ q.outstanding + reports
  /-- Without an abort nothing else is outstanding. -/
  outstanding_eq : ¬ aborted → q.outstanding + reports = q.items.length + returned.length
  /-- Without an abort the queue is closed only when all is done. -/
  outstanding_of_closed : ¬ aborted → q.closed = true → q.outstanding = 0
  /-- An aborted queue is closed and empty. -/
  closed_of_aborted : aborted → q.closed = true ∧ q.items = []

namespace Accounts

variable {q : WorkQueue α} {accepted returned : List α} {reports : Nat} {aborted : Prop}
  (h : Accounts q accepted returned reports aborted)

include h

/-- Nothing waits in a closed queue, aborted or not. -/
theorem items_of_closed (hclosed : q.closed = true) : q.items = [] := by
  by_cases haborted : aborted
  · exact (h.closed_of_aborted haborted).2
  · have hcount := h.outstanding_eq haborted
    have hzero := h.outstanding_of_closed haborted hclosed
    have hle := h.reports_le
    apply List.eq_nil_of_length_eq_zero
    omega

/-- A queue that is open was never aborted. -/
theorem not_aborted (hopen : q.closed = false) : ¬ aborted := by
  intro haborted
  rw [(h.closed_of_aborted haborted).1] at hopen
  simp at hopen

theorem push_of_open (hopen : q.closed = false) (a : α) :
    Accounts (q.push a) (accepted ++ [a]) returned reports aborted := by
  have hgoes := h.not_aborted hopen
  have haccepted := h.accepted_eq hgoes
  have hcount := h.outstanding_eq hgoes
  have hitems := items_push hopen a
  have houtstanding := outstanding_push hopen a
  have hlength : (q.push a).items.length = q.items.length + 1 := by simp [hitems]
  have heq : accepted ++ [a] = returned ++ (q.push a).items := by
    rw [hitems, haccepted, List.append_assoc]
  refine ⟨heq ▸ List.prefix_refl _, fun _ => heq, h.reports_le, ?_, fun _ => ?_, fun _ hc => ?_,
    fun ha => absurd ha hgoes⟩
  · omega
  · omega
  · have hstays : (q.push a).closed = q.closed := by simp [push, hopen]
    rw [hstays, hopen] at hc
    simp at hc

theorem take {a : α} {rest : List α} (hitems : q.items = a :: rest) :
    Accounts { q with items := rest } accepted (returned ++ [a]) reports aborted := by
  have hle := h.reports_le
  have hcover := h.le_outstanding
  have hlength : q.items.length = rest.length + 1 := by rw [hitems, List.length_cons]
  have hmove : (returned ++ [a]) ++ rest = returned ++ q.items := by simp [hitems]
  refine ⟨?_, fun hgoes => ?_, ?_, ?_, fun hgoes => ?_, h.outstanding_of_closed, fun haborted => ?_⟩
  · show (returned ++ [a]) ++ rest <+: accepted
    rw [hmove]
    exact h.returned_first
  · rw [h.accepted_eq hgoes]
    exact hmove.symm
  · rw [List.length_append]
    omega
  · show rest.length + (returned ++ [a]).length ≤ q.outstanding + reports
    rw [List.length_append, List.length_singleton]
    omega
  · have hcount := h.outstanding_eq hgoes
    show q.outstanding + reports = rest.length + (returned ++ [a]).length
    rw [List.length_append, List.length_singleton]
    omega
  · -- an aborted queue has nothing to take
    rw [(h.closed_of_aborted haborted).2] at hitems
    simp at hitems

theorem closeIfIdle : Accounts q.closeIfIdle accepted returned reports aborted := by
  obtain ⟨hfirst, heq, hle, hcover, hcount, hclosed, haborted⟩ := h
  unfold WorkQueue.closeIfIdle
  split
  · next hzero =>
    exact ⟨hfirst, heq, hle, hcover, hcount, fun _ _ => hzero, fun ha => ⟨rfl, (haborted ha).2⟩⟩
  · exact ⟨hfirst, heq, hle, hcover, hcount, hclosed, haborted⟩

theorem taskDone (hhand : reports < returned.length) :
    Accounts q.taskDone accepted returned (reports + 1) aborted := by
  have hcover := h.le_outstanding
  apply closeIfIdle
  refine ⟨h.returned_first, h.accepted_eq, hhand, ?_, fun hgoes => ?_, fun hgoes hclosed => ?_,
    h.closed_of_aborted⟩
  · show q.items.length + returned.length ≤ q.outstanding - 1 + (reports + 1)
    omega
  · have hcount := h.outstanding_eq hgoes
    show q.outstanding - 1 + (reports + 1) = q.items.length + returned.length
    omega
  · have hzero := h.outstanding_of_closed hgoes hclosed
    show q.outstanding - 1 = 0
    omega

theorem abort : Accounts q.abort accepted returned reports True := by
  have hcover := h.le_outstanding
  refine ⟨?_, fun hgoes => absurd trivial hgoes, h.reports_le, ?_, fun hgoes => absurd trivial hgoes,
    fun hgoes => absurd trivial hgoes, fun _ => ⟨rfl, rfl⟩⟩
  · show returned ++ [] <+: accepted
    rw [List.append_nil]
    exact (List.prefix_append _ _).trans h.returned_first
  · show 0 + returned.length ≤ q.outstanding + reports
    omega

end Accounts

theorem accounts_new : Accounts ({} : WorkQueue α) [] [] 0 False where
  returned_first := List.prefix_refl _
  accepted_eq _ := rfl
  reports_le := Nat.le_refl _
  le_outstanding := Nat.le_refl _
  outstanding_eq _ := rfl
  outstanding_of_closed _ hclosed := absurd hclosed Bool.false_ne_true
  closed_of_aborted := False.elim

/-! ## All calls -/

/-- The accounts of a new queue after some calls. -/
def AccountsAfter (calls : List (Call α)) : Prop :=
  Accounts (after calls) (accepted calls) (returned calls) (reports calls) (Call.abort ∈ calls)

/-- **One call keeps the accounts**, if it reports an item only when there is one in hand. -/
theorem AccountsAfter.snoc {calls : List (Call α)} (h : AccountsAfter calls) {c : Call α}
    (hc : c = .taskDone → 0 < inHand calls) : AccountsAfter (calls ++ [c]) := by
  have hsame : ∀ {c : Call α}, c ≠ .abort → ((Call.abort ∈ calls ++ [c]) = (Call.abort ∈ calls)) := by
    intro c hne
    simp [Ne.symm hne]
  unfold AccountsAfter
  rw [after_snoc, accepted_snoc, returned_snoc, reports_snoc]
  cases c with
  | push a =>
    rw [hsame (by simp)]
    simp only [Call.apply, Call.event, Event.returned?, Call.isReport, accepts, Option.toList_none,
      List.append_nil, Bool.false_eq_true, if_false, Nat.add_zero]
    cases hclosed : (after calls).closed with
    | true =>
      rw [push_of_closed hclosed]
      simp only [Bool.not_true, Event.accepted?, Option.toList_none, List.append_nil]
      exact h
    | false => exact h.push_of_open hclosed a
  | poll =>
    rw [hsame (by simp)]
    simp only [Call.apply, Call.event, Event.accepted?, Call.isReport, Option.toList_none,
      List.append_nil, Bool.false_eq_true, if_false, Nat.add_zero]
    cases hitems : (after calls).items with
    | nil =>
      have hpoll : (after calls).poll = (if (after calls).closed then .closed else .empty, after calls) := by
        simp [poll, takeAt, hitems]
      have hnone : (Event.polled (after calls).poll.1).returned? = none := by
        rw [hpoll]
        cases (after calls).closed <;> rfl
      rw [hnone, hpoll, Option.toList_none, List.append_nil]
      exact h
    | cons a rest =>
      have hpoll : (after calls).poll = (.item a, { after calls with items := rest }) := by
        simp [poll, takeAt, hitems]
      rw [hpoll]
      exact h.take hitems
  | taskDone =>
    have hhand := hc rfl
    unfold inHand at hhand
    rw [hsame (by simp)]
    simp only [Call.apply, Call.event, Event.accepted?, Event.returned?, Call.isReport,
      Option.toList_none, List.append_nil, if_true]
    exact h.taskDone (by omega)
  | closeIfIdle =>
    rw [hsame (by simp)]
    simp only [Call.apply, Call.event, Event.accepted?, Event.returned?, Call.isReport,
      Option.toList_none, List.append_nil, Bool.false_eq_true, if_false, Nat.add_zero]
    exact h.closeIfIdle
  | abort =>
    have hmem : (Call.abort ∈ calls ++ [(Call.abort : Call α)]) = True := by simp
    rw [hmem]
    simp only [Call.apply, Call.event, Event.accepted?, Event.returned?, Call.isReport,
      Option.toList_none, List.append_nil, Bool.false_eq_true, if_false, Nat.add_zero]
    exact h.abort

/-- **All calls keep the accounts.** -/
theorem Disciplined.accounts {calls : List (Call α)} (h : Disciplined calls) :
    AccountsAfter calls := by
  induction h with
  | nil =>
    have hmem : (Call.abort ∈ ([] : List (Call α))) = False := by simp
    unfold AccountsAfter
    rw [hmem]
    exact accounts_new
  | snoc _ hc ih => exact ih.snoc hc

/-! ## Closed queues -/

/-- No call opens a closed queue. -/
theorem closed_apply {q : WorkQueue α} (h : q.closed = true) (c : Call α) :
    (c.apply q).closed = true := by
  cases c with
  | push a =>
    show (q.push a).closed = true
    rw [push_of_closed h, h]
  | poll =>
    show (q.takeAt 0).2.closed = true
    unfold takeAt
    split
    · exact h
    · exact h
  | taskDone =>
    show (closeIfIdle { q with outstanding := q.outstanding - 1 }).closed = true
    unfold closeIfIdle
    split
    · rfl
    · exact h
  | closeIfIdle =>
    show q.closeIfIdle.closed = true
    unfold closeIfIdle
    split
    · rfl
    · exact h
  | abort => rfl

theorem closed_applyAll {q : WorkQueue α} (h : q.closed = true) (calls : List (Call α)) :
    (q.applyAll calls).closed = true := by
  induction calls generalizing q with
  | nil => exact h
  | cons c calls ih => exact ih (closed_apply h c)

/-- A closed queue answers a poll with an item or that it is closed. -/
theorem poll_of_closed {q : WorkQueue α} (h : q.closed = true) : q.poll.1 ≠ .empty := by
  unfold poll takeAt
  split
  · simp
  · simp [h]

/-- **The accounts of a work queue.**  Let calls be made on a new queue, such that items are reported
done after they were taken, and once.

* The items that polls return are the first of the items that were accepted, in the same order.
* Without an abort, the other items that were accepted wait; the outstanding items are those that wait
  and those in hand; and the queue is closed only if there are none of either.
* An item is refused only by a closed queue.
* A closed queue stays closed, whatever is called, and no poll finds it just empty.
* After an abort a poll finds the queue closed.
* When an item is in hand, reporting it done lowers the count by one. -/
theorem accounts_of_disciplined {calls : List (Call α)} (h : Disciplined calls) :
    returned calls <+: accepted calls ∧
    reports calls ≤ (returned calls).length ∧
    (Call.abort ∉ calls →
      accepted calls = returned calls ++ (after calls).items ∧
      (after calls).outstanding = (after calls).items.length + inHand calls ∧
      ((after calls).closed = true → (after calls).items = [] ∧ inHand calls = 0)) ∧
    (∀ a, (Call.push a).event (after calls) = .pushed a false → (after calls).closed = true) ∧
    ((after calls).closed = true → ∀ more, (after (calls ++ more)).closed = true ∧
      Call.poll.event (after (calls ++ more)) ≠ .polled .empty) ∧
    (Call.abort ∈ calls → Call.poll.event (after calls) = .polled .closed) ∧
    (0 < inHand calls → (Call.taskDone.apply (after calls)).outstanding + 1 = (after calls).outstanding) := by
  have haccounts := h.accounts
  have hle := haccounts.reports_le
  have hcover := haccounts.le_outstanding
  refine ⟨?_, hle, fun hgoes => ⟨haccounts.accepted_eq hgoes, ?_, fun hclosed => ⟨?_, ?_⟩⟩, ?_, ?_, ?_, ?_⟩
  · exact (List.prefix_append _ _).trans haccounts.returned_first
  · have hcount := haccounts.outstanding_eq hgoes
    unfold inHand
    omega
  · exact haccounts.items_of_closed hclosed
  · have hcount := haccounts.outstanding_eq hgoes
    have hzero := haccounts.outstanding_of_closed hgoes hclosed
    unfold inHand
    omega
  · intro a hrefused
    simpa [Call.event, accepts] using hrefused
  · intro hclosed more
    have hstays : (after (calls ++ more)).closed = true := by
      rw [after, applyAll, List.foldl_append]
      exact closed_applyAll hclosed more
    refine ⟨hstays, fun hempty => ?_⟩
    injection hempty with hempty
    exact poll_of_closed hstays hempty
  · intro haborted
    obtain ⟨hclosed, hitems⟩ := haccounts.closed_of_aborted haborted
    simp [Call.event, poll, takeAt, hitems, hclosed]
  · intro hhand
    unfold inHand at hhand
    show (closeIfIdle _).outstanding + 1 = (after calls).outstanding
    rw [outstanding_closeIfIdle]
    show (after calls).outstanding - 1 + 1 = (after calls).outstanding
    omega

/-- Three items are pushed; one is taken and reported, another one is taken. -/
def errands : List (Call Nat) := [.push 1, .push 2, .push 3, .poll, .taskDone, .poll]

/-- After the errands one item waits and one is in hand.  An abort drops the one that waits, and the
one in hand can still be reported. -/
theorem accounts_of_errands :
    Disciplined errands ∧ Call.abort ∉ errands ∧ returned errands = [1, 2] ∧
      accepted errands = [1, 2] ++ [3] ∧ (after errands).outstanding = 1 + 1 ∧
      Disciplined (errands ++ [.abort]) ∧ 0 < inHand (errands ++ [.abort]) ∧
      Call.poll.event (after (errands ++ [.abort])) = .polled .closed ∧
      (Call.taskDone.apply (after (errands ++ [.abort]))).outstanding + 1 = 2 := by
  have hnil : Disciplined ([] : List (Call Nat)) := .nil
  have htwo : Disciplined [.push 1, .push 2] :=
    (hnil.snoc (c := .push 1) (by simp)).snoc (c := .push 2) (by simp)
  have htaken : Disciplined [.push 1, .push 2, .push 3, .poll] :=
    (htwo.snoc (c := .push 3) (by simp)).snoc (c := .poll) (by simp)
  have herrands : Disciplined errands :=
    (htaken.snoc (c := .taskDone) fun _ => by decide).snoc (c := .poll) (by simp)
  have haborted : Disciplined (errands ++ [.abort]) := herrands.snoc (by simp)
  have hgoes : Call.abort ∉ errands := by decide
  have hhand : 0 < inHand (errands ++ [.abort]) := by decide
  obtain ⟨-, -, hopen, -⟩ := accounts_of_disciplined herrands
  obtain ⟨-, -, -, -, -, hclosed, hcount⟩ := accounts_of_disciplined haborted
  exact ⟨herrands, hgoes, rfl, (hopen hgoes).1, (hopen hgoes).2.1, haborted, hhand,
    hclosed (by decide), hcount hhand⟩

end WorkQueue

end Enabledness
