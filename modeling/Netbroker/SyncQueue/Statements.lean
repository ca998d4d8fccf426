import Netbroker.SyncQueue.Basic
import Netbroker.Transition.Monitor

/-!
# The queue's code, statement by statement

`m_currSize` and `m_maxSize` are unsigned numbers of a machine, so an increment or a decrement too
many would wrap around, and `isFull` asks for equality only. The operations change the deque and
the counter in statements of their own, between which other threads move.
-/

namespace Netbroker.SyncFifoQueue

open Transition

universe u

variable {α : Type u} {w : Nat}

/-- The fields in memory; a `size_t` has `w` bits. -/
structure Fields (α : Type u) (w : Nat) where
  sigKill : Bool
  maxSize : BitVec w
  currSize : BitVec w
  deque : List α
  deriving DecidableEq

/-- The statements that the operations execute while they have `m_mtx`. -/
inductive Statement (α : Type u) where
  | pushBack (data : α)
  /-- `++m_currSize;` -/
  | increment
  /-- `_data = front();` -/
  | front
  | popFront
  /-- `--m_currSize;` -/
  | decrement
  | notifyAll
  | clear
  /-- `m_sigKill = b;` -/
  | setSigKill (b : Bool)
  /-- `m_currSize = 0;` -/
  | resetSize
  /-- The expression that `isFull` returns. -/
  | readFull
  /-- `retVal = std::deque<T>::size();` -/
  | readSize
  deriving DecidableEq

namespace Fields

/-- The constructor. -/
def new (maxSize : BitVec w) : Fields α w :=
  { sigKill := false, maxSize, currSize := 0, deque := [] }

def isFull (f : Fields α w) : Bool := f.maxSize = f.currSize

def size (f : Fields α w) : BitVec w := BitVec.ofNat w f.deque.length

end Fields

namespace Statement

/-- What the statement writes. On an empty deque `pop_front` is undefined in C++. -/
def exec : Statement α → Fields α w → Fields α w
  | .pushBack data, f => { f with deque := f.deque ++ [data] }
  | .increment, f => { f with currSize := f.currSize + 1 }
  | .popFront, f => { f with deque := f.deque.tail }
  | .decrement, f => { f with currSize := f.currSize - 1 }
  | .clear, f => { f with deque := [] }
  | .setSigKill b, f => { f with sigKill := b }
  | .resetSize, f => { f with currSize := 0 }
  | .front, f | .notifyAll, f | .readFull, f | .readSize, f => f

/-- What the call will return. -/
def result : Statement α → Fields α w → Ret α → Ret α
  | .front, f, _ =>
      match f.deque with
      | [] => .undefined
      | data :: _ => .popped data
  | .readFull, f, _ => .full f.isFull
  | .readSize, f, _ => .length f.size.toNat
  | _, _, ret => ret

def notifies : Statement α → Bool
  | .notifyAll => true
  | _ => false

/-- The element is copied. -/
def throws : Statement α → Bool
  | .pushBack _ | .front => true
  | _ => false

end Statement

/-- The four consumers end alike. -/
def take : List (Statement α) := [.front, .popFront, .decrement, .notifyAll]

/-- The loop at the head of an operation and the `switch` behind it. -/
def enter : Op α → Fields α w → Option (Ret α × List (Statement α))
  | .push data, f =>
      if !f.sigKill && decide (f.maxSize ≤ f.currSize) then none
      else if f.sigKill then some (.killed, [])
      else some (.pushed, [.pushBack data, .increment, .notifyAll])
  | .pop, f =>
      if !f.sigKill && decide (f.currSize ≤ 0) then none
      else if f.sigKill then some (.killed, [])
      else some (.finished, take)
  | .timedPop, f =>
      if !f.sigKill && decide (f.currSize ≤ 0) then none
      else if f.sigKill then some (.failed, [])
      else some (.finished, take)
  | .tryPop, f | .asyncPop, f =>
      if !f.sigKill && decide (f.currSize ≤ 0) then some (.failed, [])
      else if f.sigKill then some (.failed, [])
      else some (.finished, take)
  | .signalForKill, _ => some (.finished, [.setSigKill true, .notifyAll])
  | .reset, _ => some (.finished, [.clear, .setSigKill false, .resetSize])
  | .isFull, _ => some (.finished, [.readFull])
  | .size, _ => some (.finished, [.readSize])

/-- The queue as a monitor: `m_mtx` and `m_cond` over its fields. -/
def code (α : Type u) (w : Nat) : Monitor (Fields α w) (Op α) (Statement α) (Ret α) where
  enter := enter
  exec := Statement.exec
  result := Statement.result
  notifies := Statement.notifies
  throws := Statement.throws
  refused
    | .tryPop => some .failed
    | _ => none
  timedOut
    | .timedPop => some .failed
    | _ => none

/-- The threads on a queue of the given capacity, statement by statement. -/
abbrev threads (α : Type u) {w : Nat} (capacity : BitVec w) :
    Machine (Monitor.State ThreadId (Fields α w) (Op α) (Statement α) (Ret α))
      (Monitor.Event ThreadId (Op α)) (Option (Monitor.Exit ThreadId (Op α) (Ret α))) :=
  (code α w).machine ThreadId (.new capacity)

end Netbroker.SyncFifoQueue
