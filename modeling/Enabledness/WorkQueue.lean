/-!
# Work queues

A queue of work items that knows when all work is done.  An item counts as outstanding from the
moment it is pushed until whoever took it reports it done.  Only work in progress can produce new
work, so the queue closes itself when nothing is outstanding.
-/

namespace Enabledness

/-- A queue with a count of unfinished items. -/
structure WorkQueue (α : Type) where
  /-- The items that wait, in order of arrival. -/
  items : List α := []
  /-- The number of items pushed and not yet done. -/
  outstanding : Nat := 0
  /-- The queue takes no more items. -/
  closed : Bool := false

/-- What a poll finds. -/
inductive Poll (α : Type) where
  /-- An item. -/
  | item (a : α)
  /-- Nothing now, but more may come. -/
  | empty
  /-- Nothing ever again. -/
  | closed

namespace WorkQueue

variable {α : Type}

/-- The queue takes items. -/
def accepts (q : WorkQueue α) : Bool := !q.closed

/-- Add an item at the end; a closed queue stays as it is. -/
def push (q : WorkQueue α) (a : α) : WorkQueue α :=
  if q.closed then q
  else { q with items := q.items ++ [a], outstanding := q.outstanding + 1 }

theorem items_push {q : WorkQueue α} (h : q.closed = false) (a : α) :
    (q.push a).items = q.items ++ [a] := by
  simp [push, h]

theorem outstanding_push {q : WorkQueue α} (h : q.closed = false) (a : α) :
    (q.push a).outstanding = q.outstanding + 1 := by
  simp [push, h]

theorem push_of_closed {q : WorkQueue α} (h : q.closed = true) (a : α) : q.push a = q := by
  simp [push, h]

/-- Add items at the end, in order. -/
def pushAll (q : WorkQueue α) (l : List α) : WorkQueue α :=
  if q.closed then q
  else { q with items := q.items ++ l, outstanding := q.outstanding + l.length }

/-- Adding items is adding one after the other. -/
theorem pushAll_eq_foldl (q : WorkQueue α) (l : List α) : q.pushAll l = l.foldl push q := by
  induction l generalizing q with
  | nil => simp [pushAll]
  | cons a l ih =>
    rw [List.foldl_cons, ← ih]
    by_cases h : q.closed
    · simp [pushAll, push, h]
    · simp [pushAll, push, h, Nat.add_comm, Nat.add_left_comm]

/-- Take the item at a position out of the queue. -/
def takeAt (q : WorkQueue α) (i : Nat) : Poll α × WorkQueue α :=
  match q.items[i]? with
  | some a => (.item a, { q with items := q.items.eraseIdx i })
  | none => (if q.closed then .closed else .empty, q)

theorem takeAt_eq_item_iff {q queue : WorkQueue α} {i : Nat} {a : α} :
    q.takeAt i = (.item a, queue) ↔
      q.items[i]? = some a ∧ queue = { q with items := q.items.eraseIdx i } := by
  unfold takeAt
  split
  · next b hb => simp [hb, eq_comm]
  · next hnone =>
    rw [hnone]
    split <;> simp

/-- Take the item that has waited longest. -/
def poll (q : WorkQueue α) : Poll α × WorkQueue α := q.takeAt 0

/-- Close the queue if nothing is outstanding. -/
def closeIfIdle (q : WorkQueue α) : WorkQueue α :=
  if q.outstanding = 0 then { q with closed := true } else q

theorem items_closeIfIdle (q : WorkQueue α) : q.closeIfIdle.items = q.items := by
  unfold closeIfIdle
  split <;> rfl

theorem outstanding_closeIfIdle (q : WorkQueue α) : q.closeIfIdle.outstanding = q.outstanding := by
  unfold closeIfIdle
  split <;> rfl

theorem closed_closeIfIdle {q : WorkQueue α} (h : q.closed = false) :
    q.closeIfIdle.closed = true ↔ q.outstanding = 0 := by
  unfold closeIfIdle
  split
  · next hzero => simpa using hzero
  · next hpos => simpa [h] using hpos

/-- Nothing is outstanding. -/
def isIdle (q : WorkQueue α) : Bool := q.outstanding = 0

/-- Report an item that was taken as done; the last one closes the queue. -/
def taskDone (q : WorkQueue α) : WorkQueue α :=
  { q with outstanding := q.outstanding - 1 }.closeIfIdle

theorem items_taskDone (q : WorkQueue α) : q.taskDone.items = q.items := items_closeIfIdle _

/-- Close the queue and drop all items that wait. -/
def abort (q : WorkQueue α) : WorkQueue α := { q with items := [], closed := true }

end WorkQueue

end Enabledness
