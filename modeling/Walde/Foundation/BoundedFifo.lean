import Walde.Foundation.Machine

namespace Foundation

/-! # Bounded first-in first-out lists

What a bounded queue is for: a list of at most `limit` items, the oldest first,
that counts the items it has to turn away. -/

structure BoundedFifo (α : Type) where
  limit : Nat
  items : List α
  drops : Nat

namespace BoundedFifo

variable {α : Type}

inductive Call (α : Type)
  | push (item : α)
  | pop
  | popBatch (maxCount : Nat)
deriving DecidableEq, Repr

inductive Reply (α : Type)
  | pushed (accepted : Bool)
  | popped (found : Option α)
  | batch (items : List α)
deriving DecidableEq, Repr

def empty (limit : Nat) : BoundedFifo α where
  limit
  items := []
  drops := 0

def push (fifo : BoundedFifo α) (item : α) : Bool × BoundedFifo α :=
  if fifo.items.length < fifo.limit then
    (true, { fifo with items := fifo.items ++ [item] })
  else
    (false, { fifo with drops := fifo.drops + 1 })

def pop (fifo : BoundedFifo α) : Option α × BoundedFifo α :=
  (fifo.items.head?, { fifo with items := fifo.items.tail })

def popBatch (fifo : BoundedFifo α) (maxCount : Nat) :
    List α × BoundedFifo α :=
  (fifo.items.take maxCount, { fifo with items := fifo.items.drop maxCount })

def step : Machine (BoundedFifo α) (Call α) (Reply α)
  | fifo, .push item =>
      let (accepted, fifo) := fifo.push item
      some (.pushed accepted, fifo)
  | fifo, .pop =>
      let (found, fifo) := fifo.pop
      some (.popped found, fifo)
  | fifo, .popBatch maxCount =>
      let (items, fifo) := fifo.popBatch maxCount
      some (.batch items, fifo)

end BoundedFifo

end Foundation
