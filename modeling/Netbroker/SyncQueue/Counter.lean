import Netbroker.SyncQueue.Statements

/-!
# The queue's counter

The operations enforce the capacity on `m_currSize`, and `size` reads the deque. The two agree
whenever `m_mtx` is free; in between they differ by one for a statement. A consumer has looked
at the counter, and the counter tells it what it needs to know of the deque.

That the statements of each call keep the agreement is a fact about one section and machine
arithmetic. The rule for monitors makes an invariant of it, for any number of threads, any
interleaving of their statements, and copies that throw.
-/

namespace Netbroker.SyncFifoQueue

open Transition

universe u

variable {α : Type u} {w : Nat} {f : Fields α w} {capacity : BitVec w}

/-- Where there is a number other than 0, there is a 1. -/
theorem toNat_one_of_pos {n : BitVec w} (h : 0 < n.toNat) : (1 : BitVec w).toNat = 1 := by
  apply BitVec.toNat_one
  apply Nat.pos_of_ne_zero
  rintro rfl
  have hlt := n.isLt
  omega

namespace Fields

/-- The counter is the length of the deque, and within the capacity. -/
structure Agrees (f : Fields α w) : Prop where
  count : f.currSize.toNat = f.deque.length
  bound : f.currSize ≤ f.maxSize

theorem new_agrees (maxSize : BitVec w) : (new maxSize : Fields α w).Agrees where
  count := by simp [new]
  bound := by
    show (0 : BitVec w).toNat ≤ maxSize.toNat
    simp

theorem Agrees.size_eq (h : f.Agrees) : f.size = f.currSize := by
  rw [size, ← h.count, BitVec.ofNat_toNat, BitVec.setWidth_eq]

/-- The answers of `isFull` and `size` belong together. -/
theorem Agrees.isFull_iff (h : f.Agrees) : f.isFull = true ↔ f.size = f.maxSize := by
  rw [h.size_eq, isFull, decide_eq_true_eq]
  exact eq_comm

theorem Agrees.deque_ne_nil (h : f.Agrees) (hsome : f.currSize ≠ 0) : f.deque ≠ [] := by
  intro hnil
  apply hsome
  apply BitVec.eq_of_toNat_eq
  rw [h.count, hnil]
  simp

/-- Below the capacity the counter does not wrap around. -/
theorem toNat_increment (hroom : f.currSize < f.maxSize) :
    (f.currSize + 1).toNat = f.currSize.toNat + 1 := by
  have hlt : f.currSize.toNat < f.maxSize.toNat := hroom
  have hbits : f.maxSize.toNat < 2 ^ w := f.maxSize.isLt
  have hone := toNat_one_of_pos (Nat.zero_lt_of_lt hlt)
  rw [BitVec.toNat_add_of_lt (by omega), hone]

/-- Nor below zero. -/
theorem toNat_decrement (hsome : f.currSize ≠ 0) :
    (f.currSize - 1).toNat = f.currSize.toNat - 1 := by
  have hpos : 0 < f.currSize.toNat := by
    apply Nat.pos_of_ne_zero
    intro hzero
    exact hsome (BitVec.eq_of_toNat_eq (by simp [hzero]))
  have hone := toNat_one_of_pos hpos
  have hle : (1 : BitVec w).toNat ≤ f.currSize.toNat := by omega
  rw [BitVec.toNat_sub_of_le hle, hone]

theorem Agrees.push (h : f.Agrees) (hroom : f.currSize < f.maxSize) (data : α) :
    { f with deque := f.deque ++ [data], currSize := f.currSize + 1 }.Agrees := by
  have hnext := toNat_increment hroom
  have hlt : f.currSize.toNat < f.maxSize.toNat := hroom
  constructor
  · show (f.currSize + 1).toNat = (f.deque ++ [data]).length
    rw [hnext, List.length_append, h.count]
    rfl
  · show (f.currSize + 1).toNat ≤ f.maxSize.toNat
    omega

theorem Agrees.pop (h : f.Agrees) (hsome : f.currSize ≠ 0) :
    { f with deque := f.deque.tail, currSize := f.currSize - 1 }.Agrees := by
  have hprev := toNat_decrement hsome
  have hbound : f.currSize.toNat ≤ f.maxSize.toNat := h.bound
  constructor
  · show (f.currSize - 1).toNat = f.deque.tail.length
    rw [hprev, List.length_tail, h.count]
  · show (f.currSize - 1).toNat ≤ f.maxSize.toNat
    omega

end Fields

/-- What a statement needs in order to mean what it should. -/
def Safe : Statement α → Fields α w → Prop
  | .front, f | .popFront, f => f.deque ≠ []
  | .decrement, f => f.currSize ≠ 0
  | .readFull, f | .readSize, f => f.Agrees
  | _, _ => True

/-- The counter agrees, and the capacity is what it was. -/
def Kept (capacity : BitVec w) (f : Fields α w) : Prop := f.Agrees ∧ f.maxSize = capacity

/-- A consumer that has found the counter above zero. -/
theorem restores_take (h : Kept capacity f) (hsome : f.currSize ≠ 0) :
    (code α w).Restores Safe (Kept capacity) take f := by
  have hdeque := h.1.deque_ne_nil hsome
  exact ⟨hdeque, fun _ => h, hdeque, nofun, hsome, nofun, trivial, nofun, h.1.pop hsome, h.2⟩

theorem restores_push (h : Kept capacity f) (hroom : f.currSize < f.maxSize) (data : α) :
    (code α w).Restores Safe (Kept capacity) [.pushBack data, .increment, .notifyAll] f :=
  ⟨trivial, fun _ => h, trivial, nofun, trivial, nofun, h.1.push hroom data, h.2⟩

theorem restores_reset (h : Kept capacity f) :
    (code α w).Restores Safe (Kept capacity) [.clear, .setSigKill false, .resetSize] f := by
  refine ⟨trivial, nofun, trivial, nofun, trivial, nofun, ?_, h.2⟩
  exact { Fields.new_agrees f.maxSize with }

/-- The statements of an operation that goes on, with what its loop and its `switch` have made
sure of. -/
inductive Entered (f : Fields α w) : List (Statement α) → Prop
  | nothing : Entered f []
  | push (data : α) (room : f.currSize < f.maxSize) :
      Entered f [.pushBack data, .increment, .notifyAll]
  | take (some : f.currSize ≠ 0) : Entered f take
  | signalForKill : Entered f [.setSigKill true, .notifyAll]
  | reset : Entered f [.clear, .setSigKill false, .resetSize]
  | isFull : Entered f [.readFull]
  | size : Entered f [.readSize]

theorem enter_inv {op : Op α} {ret : Ret α} {rest : List (Statement α)}
    (henter : enter op f = some (ret, rest)) : Entered f rest := by
  have consumer : ∀ early : Ret α, ¬ (!f.sigKill && decide (f.currSize ≤ 0)) = true →
      (if f.sigKill then some (early, []) else some (.finished, take)) = some (ret, rest) →
        Entered f rest := by
    intro early hloop hgoes
    split at hgoes
    · obtain ⟨-, rfl⟩ := Prod.mk.inj (Option.some.inj hgoes)
      exact .nothing
    · rename_i hlive
      obtain ⟨-, rfl⟩ := Prod.mk.inj (Option.some.inj hgoes)
      apply Entered.take
      intro hzero
      apply hloop
      simp [hlive, hzero]
  cases op with
  | push data =>
      rw [enter] at henter
      split at henter
      · cases henter
      · rename_i hloop
        split at henter
        · obtain ⟨-, rfl⟩ := Prod.mk.inj (Option.some.inj henter)
          exact .nothing
        · rename_i hlive
          obtain ⟨-, rfl⟩ := Prod.mk.inj (Option.some.inj henter)
          apply Entered.push
          simpa [hlive] using hloop
  | pop | timedPop =>
      rw [enter] at henter
      split at henter
      · cases henter
      · exact consumer _ ‹_› henter
  | tryPop | asyncPop =>
      rw [enter] at henter
      split at henter
      · obtain ⟨-, rfl⟩ := Prod.mk.inj (Option.some.inj henter)
        exact .nothing
      · exact consumer _ ‹_› henter
  | signalForKill =>
      obtain ⟨-, rfl⟩ := Prod.mk.inj (Option.some.inj henter)
      exact .signalForKill
  | reset =>
      obtain ⟨-, rfl⟩ := Prod.mk.inj (Option.some.inj henter)
      exact .reset
  | isFull =>
      obtain ⟨-, rfl⟩ := Prod.mk.inj (Option.some.inj henter)
      exact .isFull
  | size =>
      obtain ⟨-, rfl⟩ := Prod.mk.inj (Option.some.inj henter)
      exact .size

/-- Every operation leads from agreement to agreement. -/
theorem code_keeps (capacity : BitVec w) : (code α w).Keeps Safe (Kept capacity) := by
  intro op f ret rest h henter
  cases enter_inv henter with
  | nothing => exact h
  | push data room => exact restores_push h room data
  | take hsome => exact restores_take h hsome
  | signalForKill => exact ⟨trivial, nofun, trivial, nofun, { h.1 with }, h.2⟩
  | reset => exact restores_reset h
  | isFull => exact ⟨h.1, nofun, h⟩
  | size => exact ⟨h.1, nofun, h⟩

theorem threads_guarded {s : Monitor.State ThreadId (Fields α w) (Op α) (Statement α) (Ret α)}
    (h : (threads α capacity).Reachable (fun _ _ => True) s) :
    (code α w).Guarded Safe (Kept capacity) s :=
  Monitor.reachable_guarded (code_keeps capacity) ⟨Fields.new_agrees capacity, rfl⟩ h

/-- **Counter and deque.** Whatever the threads do, the counter is the deque's length and within
the capacity whenever the mutex is free. Nobody looks at the head of an empty deque, takes from it
or counts down from zero. The queue answers that it is full exactly when its size is the
capacity, ahead of a call and while a call reads its answer. -/
theorem counter_agrees (capacity : BitVec w)
    {s : Monitor.State ThreadId (Fields α w) (Op α) (Statement α) (Ret α)}
    (h : (threads α capacity).Reachable (fun _ _ => True) s) :
    (s.mutex = none → s.fields.currSize.toNat = s.fields.deque.length ∧
      s.fields.currSize ≤ s.fields.maxSize ∧ s.fields.maxSize = capacity ∧
      (s.fields.isFull = true ↔ s.fields.size = s.fields.maxSize)) ∧
    ∀ t, (s.executes t = some .front ∨ s.executes t = some .popFront → s.fields.deque ≠ []) ∧
      (s.executes t = some .decrement → s.fields.currSize ≠ 0) ∧
      (s.executes t = some .readFull ∨ s.executes t = some .readSize →
        (s.fields.isFull = true ↔ s.fields.size = s.fields.maxSize)) := by
  have hguarded := threads_guarded h
  constructor
  · intro hfree
    obtain ⟨hagrees, hsize⟩ := hguarded.free hfree
    exact ⟨hagrees.count, hagrees.bound, hsize, hagrees.isFull_iff⟩
  · intro t
    refine ⟨?_, fun hdecrement => hguarded.safe_of_executes hdecrement, ?_⟩
    · rintro (hfront | hpopFront)
      · exact hguarded.safe_of_executes hfront
      · exact hguarded.safe_of_executes hpopFront
    · rintro (hfull | hsize)
      · have hagrees : s.fields.Agrees := hguarded.safe_of_executes hfull
        exact hagrees.isFull_iff
      · have hagrees : s.fields.Agrees := hguarded.safe_of_executes hsize
        exact hagrees.isFull_iff

/-- A consumer sleeps, a producer fills the queue, and the consumer is about to take the
element. -/
theorem counter_agrees_awake : ∃ s, (threads Nat (1 : BitVec 32)).Reachable (fun _ _ => True) s ∧
    s.executes 0 = some .front ∧ s.fields.deque ≠ [] := by
  obtain ⟨s, hreachable, hfront⟩ := Machine.Reachable.exists_of_exec
    (M := threads Nat (1 : BitVec 32)) (fun _ _ => True) rfl
    [.call 0 .pop, .lock 0, .check 0, .call 1 (.push 7), .lock 1, .check 1, .run 1, .run 1,
      .run 1, .leave 1, .wake 0, .relock 0, .check 0]
    (fun s => s.executes 0 = some .front) (by decide)
  exact ⟨s, hreachable, hfront, ((counter_agrees 1 hreachable).2 0).1 (.inl hfront)⟩

end Netbroker.SyncFifoQueue
