import Mathlib.Data.List.Infix

/-!
# First in, first out

The abstract queue that a channel is for: what has been accepted, what has been received, and
what is pending between the two. The structure carries the equation that links them, so that
nothing can be lost, repeated or overtaken. `push` accepts an element and `pop` receives the
oldest one; a system refines the queue if each of its steps is one of them or leaves the queue
as it is (`Fifo.Step`).
-/

/-- A queue with its history. -/
structure Fifo (α : Type*) where
  accepted : List α
  received : List α
  pending : List α
  exact : received ++ pending = accepted

namespace Fifo

variable {α : Type*}

def empty : Fifo α := ⟨[], [], [], rfl⟩

/-- An element is accepted. -/
def push (q : Fifo α) (a : α) : Fifo α where
  accepted := q.accepted ++ [a]
  received := q.received
  pending := q.pending ++ [a]
  exact := by rw [← List.append_assoc, q.exact]

/-- The oldest element is received. -/
def pop (q : Fifo α) {a : α} {rest : List α} (h : q.pending = a :: rest) : Fifo α where
  accepted := q.accepted
  received := q.received ++ [a]
  pending := rest
  exact := by rw [List.append_assoc, List.singleton_append, ← h, q.exact]

/-- What a step of a system that refines the queue may do. -/
inductive Step (q : Fifo α) : Fifo α → Prop
  | stay : Step q q
  | push (a : α) : Step q (q.push a)
  | pop {a : α} {rest : List α} (h : q.pending = a :: rest) : Step q (q.pop h)

end Fifo
