import CellMachine.Watch.Event

/-!
A bounded buffer of events. It keeps the newest: a push into a full buffer evicts the oldest records
first, and a buffer without any room stores nothing. Events are numbered all the same.
-/

namespace CellMachine

/-- A queue that knows how long it is. -/
structure Deque (α : Type) where
  queue : Std.Queue α
  size : Nat
  size_eq : size = queue.dList.length + queue.eList.length

namespace Deque

variable {α : Type}

def empty : Deque α := ⟨.empty, 0, rfl⟩

/-- What is in the queue, the first to leave in front. -/
def toList (q : Deque α) : List α := q.queue.dList ++ q.queue.eList.reverse

theorem length_toList (q : Deque α) : q.toList.length = q.size := by
  rw [toList, List.length_append, List.length_reverse, q.size_eq]

def pushBack (q : Deque α) (x : α) : Deque α where
  queue := q.queue.enqueue x
  size := q.size + 1
  size_eq := congrArg (· + 1) q.size_eq

@[simp] theorem toList_pushBack (q : Deque α) (x : α) : (q.pushBack x).toList = q.toList ++ [x] := by
  simp [toList, pushBack, Std.Queue.enqueue]

theorem dequeue_cases (q : Std.Queue α) :
    (q.dequeue? = none ∧ q.dList ++ q.eList.reverse = []) ∨
      ∃ x rest, q.dequeue? = some (x, rest) ∧
        q.dList ++ q.eList.reverse = x :: (rest.dList ++ rest.eList.reverse) := by
  obtain ⟨back, front⟩ := q
  cases front with
  | cons x front => exact .inr ⟨x, _, rfl, rfl⟩
  | nil =>
    cases h : back.reverse with
    | nil => exact .inl ⟨by simp [Std.Queue.dequeue?, h], rfl⟩
    | cons x front =>
      exact .inr ⟨x, ⟨[], front⟩, by simp [Std.Queue.dequeue?, h], by simp⟩

/-- Takes the first one away, if there is one. -/
def popFront (q : Deque α) : Deque α :=
  match h : q.queue.dequeue? with
  | none => q
  | some (_, rest) =>
    { queue := rest
      size := q.size - 1
      size_eq := by
        obtain ⟨hnone, -⟩ | ⟨x, rest', hsome, hlist⟩ := dequeue_cases q.queue
        · cases hnone.symm.trans h
        · cases hsome.symm.trans h
          have hlength := congrArg List.length hlist
          simp only [List.length_append, List.length_reverse, List.length_cons] at hlength
          have := q.size_eq
          omega }

@[simp] theorem toList_popFront (q : Deque α) : q.popFront.toList = q.toList.tail := by
  rw [popFront]
  obtain ⟨hnone, hlist⟩ | ⟨x, rest, hsome, hlist⟩ := dequeue_cases q.queue
  · split
    · rw [toList, hlist, List.tail_nil]
    · next h => cases hnone.symm.trans h
  · split
    · next h => cases hsome.symm.trans h
    · next h =>
      cases hsome.symm.trans h
      rw [toList, toList, hlist, List.tail_cons]

theorem size_popFront (q : Deque α) : q.popFront.size = q.size - 1 := by
  rw [← length_toList, toList_popFront, List.length_tail, length_toList]

end Deque

/-- An event with its number in the stream and the depth of calls at which it happened. -/
structure EventRecord where
  id : Nat
  depth : Nat
  event : Event

structure Buffer where
  /-- How many records are kept at most. -/
  capacity : Nat := 1000
  stored : Deque EventRecord := .empty
  /-- How many events were pushed, evicted ones included. -/
  total : Nat := 0

namespace Buffer

/-- The records, the oldest first. -/
def records (b : Buffer) : List EventRecord := b.stored.toList

/-- Evicts the oldest until there is room for one more. -/
def evict {α : Type} (capacity : Nat) (hroom : capacity ≠ 0) (q : Deque α) : Deque α :=
  if capacity ≤ q.size then evict capacity hroom q.popFront else q
termination_by q.size
decreasing_by
  rw [Deque.size_popFront]
  omega

/-- Adds an event and answers its number. -/
def push (b : Buffer) (depth : Nat) (event : Event) : Nat × Buffer :=
  let id := b.total
  let b := { b with total := b.total + 1 }
  if hroom : b.capacity = 0 then (id, b)
  else (id, { b with stored := (evict b.capacity hroom b.stored).pushBack ⟨id, depth, event⟩ })

/-- Forgets all records; numbering goes on. -/
def clear (b : Buffer) : Buffer := { b with stored := .empty }

/-- The newest records. -/
def recent (b : Buffer) (count : Nat) : List EventRecord :=
  b.records.drop (b.stored.size - count)

def ofType (b : Buffer) (type : String) : List EventRecord :=
  b.records.filter fun r => r.event.type == type

def atDepth (b : Buffer) (depth : Nat) : List EventRecord :=
  b.records.filter fun r => r.depth == depth

/-- How many records there are of each type of event. -/
def counts (b : Buffer) : KeyMap String Nat :=
  b.records.foldl (fun m r => m.insert r.event.type ((m.get? r.event.type).getD 0 + 1)) []

end Buffer

end CellMachine
