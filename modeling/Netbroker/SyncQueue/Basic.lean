import Mathlib.Logic.Function.Basic
import Netbroker.Transition.Machine

/-!
# The synchronised queue and its threads

`SyncFifoQueue` guards a deque, its own element counter and a kill flag by one
mutex `m_mtx` and one condition variable `m_cond`. A critical section runs from
taking the mutex to releasing it, by returning or by going to sleep in a wait,
so one section is one atomic step here and the mutex is free between steps.

A sleeping thread resumes in two steps: it is woken (by a notification, without
one, or by the time-out of a timed wait), and later it has the mutex again and
evaluates its loop condition anew. Any number of threads call any operation.

A section is first a function of the queue, `criticalSection`, and what holds of queues is
shown of it. The machine of the threads applies that function wherever a thread has the mutex.
-/

namespace Netbroker

open Transition

universe u

/-- A thread of the process. -/
abbrev ThreadId := Nat

/-- The fields that `m_mtx` guards, and the capacity. -/
structure SyncFifoQueue (α : Type u) where
  sigKill : Bool
  maxSize : Nat
  currSize : Nat
  deque : List α
  deriving DecidableEq

namespace SyncFifoQueue

variable {α : Type u}

/-- The constructor. -/
def new (maxSize : Nat) : SyncFifoQueue α :=
  { sigKill := false, maxSize, currSize := 0, deque := [] }

/-- The public operations with their input. -/
inductive Op (α : Type u) where
  | push (data : α)
  | pop
  | timedPop
  | tryPop
  | asyncPop
  | signalForKill
  | reset
  | isFull
  | size

/-- How a call returns. `popped` stores its value in `_data`, the other results
leave it alone; `killed` is the plain return of a void operation on the kill flag. -/
inductive Ret (α : Type u) where
  | pushed
  | killed
  | popped (data : α)
  | failed
  | finished
  | full (answer : Bool)
  | length (answer : Nat)
  /-- `front` or `pop_front` on an empty deque, which C++ leaves undefined. -/
  | undefined

/-- One critical section: sleep on `m_cond`, or return with the new fields and
whether `m_cond.notify_all()` was called. -/
inductive Outcome (α : Type u) where
  | wait
  | done (queue : SyncFifoQueue α) (ret : Ret α) (notify : Bool)

/-- `_data = front(); pop_front(); --m_currSize; m_cond.notify_all();` -/
def takeFront (q : SyncFifoQueue α) : Outcome α :=
  match q.deque with
  | [] => .done q .undefined false
  | data :: rest => .done { q with deque := rest, currSize := q.currSize - 1 } (.popped data) true

/-- The code between taking `m_mtx` and releasing it. The three kinds of consumer
differ in what they do with an empty queue and in their result after a kill. -/
def criticalSection (q : SyncFifoQueue α) : Op α → Outcome α
  | .push data =>
      if !q.sigKill && decide (q.maxSize ≤ q.currSize) then .wait
      else if q.sigKill then .done q .killed false
      else .done { q with deque := q.deque ++ [data], currSize := q.currSize + 1 } .pushed true
  | .pop =>
      if !q.sigKill && decide (q.currSize = 0) then .wait
      else if q.sigKill then .done q .killed false
      else q.takeFront
  | .timedPop =>
      if !q.sigKill && decide (q.currSize = 0) then .wait
      else if q.sigKill then .done q .failed false
      else q.takeFront
  | .tryPop | .asyncPop =>
      if !q.sigKill && decide (q.currSize = 0) then .done q .failed false
      else if q.sigKill then .done q .failed false
      else q.takeFront
  | .signalForKill => .done { q with sigKill := true } .finished true
  | .reset => .done { q with deque := [], sigKill := false, currSize := 0 } .finished false
  | .isFull => .done q (.full (decide (q.maxSize = q.currSize))) false
  | .size => .done q (.length q.deque.length) false

/-- The counter agrees with the deque and respects the capacity. -/
structure WellFormed (q : SyncFifoQueue α) : Prop where
  count : q.currSize = q.deque.length
  bound : q.currSize ≤ q.maxSize

theorem new_wellFormed (maxSize : Nat) : (new maxSize : SyncFifoQueue α).WellFormed :=
  ⟨rfl, Nat.zero_le _⟩

/-- Everything a returning critical section can do to the deque: a push appends,
a consumer takes the head, a reset empties it, any other return leaves it. -/
theorem criticalSection_done {q q' : SyncFifoQueue α} {op : Op α} {ret : Ret α} {notify : Bool}
    (wf : q.WellFormed) (h : q.criticalSection op = .done q' ret notify) :
    (∃ data, op = .push data ∧ ret = .pushed ∧ q.currSize < q.maxSize ∧
        q' = { q with deque := q.deque ++ [data], currSize := q.currSize + 1 }) ∨
      (∃ data, ret = .popped data ∧ q.deque = data :: q'.deque ∧
        q' = { q with deque := q'.deque, currSize := q.currSize - 1 }) ∨
      (op = .reset ∧ ret = .finished ∧
        q' = { q with deque := [], sigKill := false, currSize := 0 }) ∨
      (ret ≠ .pushed ∧ (∀ data, ret ≠ .popped data) ∧ op ≠ .reset ∧ ret ≠ .undefined ∧
        q'.deque = q.deque ∧ q'.currSize = q.currSize ∧ q'.maxSize = q.maxSize) := by
  have take : ∀ {q' : SyncFifoQueue α} {ret : Ret α} {notify : Bool}, q.currSize ≠ 0 →
      q.takeFront = .done q' ret notify → ∃ data, ret = .popped data ∧
        q.deque = data :: q'.deque ∧
        q' = { q with deque := q'.deque, currSize := q.currSize - 1 } := by
    intro q' ret notify hne htake
    cases hdeque : q.deque with
    | nil => exact absurd (by simp [wf.count, hdeque]) hne
    | cons data rest =>
        simp only [takeFront, hdeque, Outcome.done.injEq] at htake
        obtain ⟨rfl, rfl, rfl⟩ := htake
        exact ⟨data, rfl, rfl, rfl⟩
  cases op with
  | push data => simp only [criticalSection] at h; grind
  | pop => simp only [criticalSection] at h; grind
  | timedPop => simp only [criticalSection] at h; grind
  | tryPop => simp only [criticalSection] at h; grind
  | asyncPop => simp only [criticalSection] at h; grind
  | signalForKill => simp only [criticalSection] at h; grind
  | reset => simp only [criticalSection] at h; grind
  | isFull => simp only [criticalSection] at h; grind
  | size => simp only [criticalSection] at h; grind

theorem criticalSection_wellFormed {q q' : SyncFifoQueue α} {op : Op α} {ret : Ret α}
    {notify : Bool} (wf : q.WellFormed) (h : q.criticalSection op = .done q' ret notify) :
    q'.WellFormed := by
  obtain ⟨hcount, hbound⟩ := wf
  obtain ⟨data, -, -, hroom, rfl⟩ | ⟨data, -, hdeque, hq'⟩ | ⟨-, -, rfl⟩ |
      ⟨-, -, -, -, hd, hc, hm⟩ := criticalSection_done ⟨hcount, hbound⟩ h
  · exact ⟨by simp [hcount], hroom⟩
  · rw [hq']
    refine ⟨?_, Nat.le_trans (Nat.sub_le _ _) hbound⟩
    show q.currSize - 1 = q'.deque.length
    rw [hcount, hdeque, List.length_cons, Nat.add_sub_cancel]
  · exact ⟨rfl, Nat.zero_le _⟩
  · exact ⟨by rw [hc, hd, hcount], by rw [hc, hm]; exact hbound⟩

/-- Only the two administrative operations touch the kill flag. -/
theorem criticalSection_sigKill {q q' : SyncFifoQueue α} {op : Op α} {ret : Ret α} {notify : Bool}
    (h : q.criticalSection op = .done q' ret notify) (hkill : op ≠ .signalForKill)
    (hreset : op ≠ .reset) : q'.sigKill = q.sigKill := by
  have take : ∀ {q' : SyncFifoQueue α} {ret : Ret α} {notify : Bool},
      q.takeFront = .done q' ret notify → q'.sigKill = q.sigKill := by
    intro q' ret notify htake
    rw [takeFront] at htake
    split at htake <;> cases htake <;> rfl
  cases op with
  | signalForKill => exact absurd rfl hkill
  | reset => exact absurd rfl hreset
  | _ => simp only [criticalSection] at h; grind

/-- What a critical section leaves in the deque or takes out of it was there, or is pushed. -/
theorem criticalSection_mem {q q' : SyncFifoQueue α} {op : Op α}
    {ret : Ret α} {notify : Bool} (h : q.criticalSection op = .done q' ret notify) :
    (∀ x ∈ q'.deque, x ∈ q.deque ∨ op = .push x) ∧ ∀ x, ret = .popped x → x ∈ q.deque := by
  have take : ∀ {q' : SyncFifoQueue α} {ret : Ret α} {notify : Bool},
      q.takeFront = .done q' ret notify →
        (∀ x ∈ q'.deque, x ∈ q.deque) ∧ ∀ x, ret = .popped x → x ∈ q.deque := by
    intro q' ret notify htake
    rw [takeFront] at htake
    split at htake <;> grind
  cases op with
  | _ => simp only [criticalSection] at h; grind

/-- A push with room returns at once. -/
theorem criticalSection_push {q : SyncFifoQueue α} (hlive : q.sigKill = false)
    (hroom : q.currSize < q.maxSize) (data : α) : q.criticalSection (.push data) =
      .done { q with deque := q.deque ++ [data], currSize := q.currSize + 1 } .pushed true := by
  simp [criticalSection, hlive, Nat.not_le.mpr hroom]

/-- Where a thread stands with respect to one queue. -/
inductive Pc (α : Type u) where
  | idle
  /-- It has called the operation and waits for `m_mtx`. -/
  | entering (op : Op α)
  /-- It sleeps on `m_cond`; `notified` says that a notification has reached it. -/
  | asleep (op : Op α) (notified : Bool)
  /-- It has left the wait and waits for `m_mtx`; `timedOut` is `timed_wait`'s verdict. -/
  | waking (op : Op α) (timedOut : Bool)

/-- `notify_all` reaches every sleeper. -/
def Pc.notify : Pc α → Pc α
  | .asleep op _ => .asleep op true
  | pc => pc

structure State (α : Type u) where
  queue : SyncFifoQueue α
  threads : ThreadId → Pc α

/-- The scheduler's choices. -/
inductive Event (α : Type u) where
  | call (t : ThreadId) (op : Op α)
  | enter (t : ThreadId)
  /-- `try_pop` finds `m_mtx` taken. -/
  | contend (t : ThreadId)
  | wake (t : ThreadId)
  /-- A wait may end without a notification. -/
  | spurious (t : ThreadId)
  | timeOut (t : ThreadId)
  | resume (t : ThreadId)

/-- A call that returned. -/
structure Returned (α : Type u) where
  thread : ThreadId
  op : Op α
  ret : Ret α

namespace State

def initial (capacity : Nat) : State α := { queue := new capacity, threads := fun _ => .idle }

def set (s : State α) (t : ThreadId) (pc : Pc α) : State α :=
  { s with threads := Function.update s.threads t pc }

@[simp] theorem set_queue (s : State α) (t : ThreadId) (pc : Pc α) :
    (s.set t pc).queue = s.queue := rfl

@[simp] theorem set_threads_self (s : State α) (t : ThreadId) (pc : Pc α) :
    (s.set t pc).threads t = pc := Function.update_self ..

theorem set_threads_of_ne (s : State α) {t u : ThreadId} (h : u ≠ t) (pc : Pc α) :
    (s.set t pc).threads u = s.threads u := Function.update_of_ne h ..

def return' (s : State α) (t : ThreadId) (op : Op α) (ret : Ret α) :
    State α × Option (Returned α) :=
  (s.set t .idle, some { thread := t, op, ret })

/-- Thread `t` has `m_mtx` and runs its critical section. -/
def attempt (s : State α) (t : ThreadId) (op : Op α) : State α × Option (Returned α) :=
  match s.queue.criticalSection op with
  | .wait => (s.set t (.asleep op false), none)
  | .done queue ret notify =>
      let threads := if notify then fun u => (s.threads u).notify else s.threads
      return' { queue, threads } t op ret

def step (s : State α) : Event α → Option (State α × Option (Returned α))
  | .call t op =>
      match s.threads t with
      | .idle => some (s.set t (.entering op), none)
      | _ => none
  | .enter t =>
      match s.threads t with
      | .entering op => some (s.attempt t op)
      | _ => none
  | .contend t =>
      match s.threads t with
      | .entering .tryPop => some (s.return' t .tryPop .failed)
      | _ => none
  | .wake t =>
      match s.threads t with
      | .asleep op true => some (s.set t (.waking op false), none)
      | _ => none
  | .spurious t =>
      match s.threads t with
      | .asleep op false => some (s.set t (.waking op false), none)
      | _ => none
  | .timeOut t =>
      match s.threads t with
      | .asleep .timedPop _ => some (s.set t (.waking .timedPop true), none)
      | _ => none
  | .resume t =>
      match s.threads t with
      | .waking .timedPop true => some (s.return' t .timedPop .failed)
      | .waking op false => some (s.attempt t op)
      | _ => none

theorem attempt_queue {s s' : State α} {t : ThreadId} {op : Op α} {out : Option (Returned α)}
    (h : s.attempt t op = (s', out)) :
    (s'.queue = s.queue ∧ out = none) ∨
      ∃ ret notify, out = some ⟨t, op, ret⟩ ∧
        s.queue.criticalSection op = .done s'.queue ret notify := by
  rw [attempt] at h
  split at h
  · obtain ⟨rfl, rfl⟩ := Prod.mk.inj h
    exact .inl ⟨rfl, rfl⟩
  · rename_i queue ret notify hsection
    obtain ⟨rfl, rfl⟩ := Prod.mk.inj h
    exact .inr ⟨ret, notify, rfl, hsection⟩

/-- The thread that has `m_mtx` in a step, and the operation whose section it runs. -/
def runs (s : State α) : Event α → Option (ThreadId × Op α)
  | .enter t =>
      match s.threads t with
      | .entering op => some (t, op)
      | _ => none
  | .resume t =>
      match s.threads t with
      | .waking op false => some (t, op)
      | _ => none
  | _ => none

/-- A step runs one critical section, or moves one thread elsewhere, perhaps out of
a call that fails. -/
theorem step_inv {s s' : State α} {e : Event α} {out : Option (Returned α)}
    (h : s.step e = some (s', out)) :
    (∃ t op, s.runs e = some (t, op) ∧ s.attempt t op = (s', out)) ∨
      (s.runs e = none ∧ (∀ r ∈ out, r.ret = .failed) ∧
        ∃ t pc, s' = s.set t pc ∧ ∀ op notified, pc ≠ .asleep op notified) := by
  cases e with
  | call t op =>
      simp only [step] at h
      split at h <;> simp only [reduceCtorEq, Option.some.injEq] at h
      obtain ⟨rfl, rfl⟩ := Prod.mk.inj h
      exact .inr ⟨rfl, by simp, t, .entering op, rfl, by simp⟩
  | enter t =>
      simp only [step] at h
      split at h <;> simp only [reduceCtorEq, Option.some.injEq] at h
      rename_i op hpc
      exact .inl ⟨t, op, by simp [runs, hpc], h⟩
  | contend t =>
      simp only [step] at h
      split at h <;> simp only [reduceCtorEq, Option.some.injEq] at h
      obtain ⟨rfl, rfl⟩ := Prod.mk.inj h
      exact .inr ⟨rfl, by simp, t, .idle, rfl, by simp⟩
  | wake t | spurious t | timeOut t =>
      simp only [step] at h
      split at h <;> simp only [reduceCtorEq, Option.some.injEq] at h
      obtain ⟨rfl, rfl⟩ := Prod.mk.inj h
      exact .inr ⟨rfl, by simp, t, .waking _ _, rfl, by simp⟩
  | resume t =>
      simp only [step] at h
      split at h <;> simp only [reduceCtorEq, Option.some.injEq] at h
      · rename_i hpc
        obtain ⟨rfl, rfl⟩ := Prod.mk.inj h
        exact .inr ⟨by simp [runs, hpc], by simp, t, .idle, rfl, by simp⟩
      · rename_i op hpc
        exact .inl ⟨t, op, by simp [runs, hpc], h⟩

end State

/-- One queue of the given capacity and its threads, none of them inside a call. -/
def machine (α : Type u) (capacity : Nat) :
    Machine (State α) (Event α) (Option (Returned α)) where
  init s := s = .initial capacity
  step := State.step

end SyncFifoQueue

end Netbroker
