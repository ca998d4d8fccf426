import Netbroker.Fifo.Ledger
import Netbroker.SyncQueue.Basic

/-!
# The synchronised queue is a first-in first-out channel

Every step of every thread either leaves the channel alone or performs one of its
three actions on the whole deque. The machine of the queue therefore refines the
channel, for every schedule, and the laws of the ledger hold of its history: the
returned calls of a trace, read in the order in which they held the mutex.
-/

namespace Netbroker.SyncFifoQueue

open Transition Fifo

universe u

variable {α : Type u} {capacity : Nat}

/-- What one step of the queue's machine does to the channel. -/
def entries : Event α × Option (Returned α) → List (Entry α)
  | (_, some ⟨_, .push data, .pushed⟩) => [(.put data, none)]
  | (_, some ⟨_, _, .popped data⟩) => [(.take, some data)]
  | (_, some ⟨_, .reset, .finished⟩) => [(.clear, none)]
  | _ => []

/-- The channel's history under a schedule of the queue. -/
def history (trace : List (Event α × Option (Returned α))) : List (Entry α) :=
  trace.flatMap entries

@[simp] theorem history_append (a b : List (Event α × Option (Returned α))) :
    history (a ++ b) = history a ++ history b := List.flatMap_append

/-- What one step can do to the fields under `m_mtx`: nothing, with no call
returning or with one that failed, or the effect of one critical section. -/
theorem step_queue {s s' : State α} {e : Event α} {out : Option (Returned α)}
    (h : s.step e = some (s', out)) :
    (s'.queue = s.queue ∧ ∀ r ∈ out, r.ret = .failed) ∨
      ∃ t op ret notify, out = some ⟨t, op, ret⟩ ∧
        s.queue.criticalSection op = .done s'.queue ret notify := by
  obtain ⟨t, op, -, hattempt⟩ | ⟨-, hfailed, t, pc, rfl, -⟩ := State.step_inv h
  · obtain ⟨hsame, rfl⟩ | ⟨ret, notify, hout, hsection⟩ := State.attempt_queue hattempt
    · exact .inl ⟨hsame, by simp⟩
    · exact .inr ⟨t, op, ret, notify, hout, hsection⟩
  · exact .inl ⟨rfl, hfailed⟩

/-- A call that reports failure, or is released by a kill, leaves the fields alone. -/
theorem step_queue_of_failed {s s' : State α} {e : Event α} {r : Returned α}
    (wf : s.queue.WellFormed) (h : s.step e = some (s', some r))
    (failed : r.ret = .failed ∨ r.ret = .killed) : s'.queue.deque = s.queue.deque := by
  obtain ⟨hsame, -⟩ | ⟨t, op, ret, notify, hout, hsection⟩ := step_queue h
  · rw [hsame]
  · obtain rfl := Option.some.inj hout
    obtain ⟨_, -, hret, -⟩ | ⟨_, hret, -⟩ | ⟨-, hret, -⟩ | ⟨-, -, -, -, hdeque, -⟩ :=
      criticalSection_done wf hsection
    · simp [hret] at failed
    · simp [hret] at failed
    · simp [hret] at failed
    · exact hdeque

/-- The ledger that a queue implements. -/
def Represents (s : State α) (l : Ledger α) : Prop :=
  s.queue.WellFormed ∧ s.queue.deque = l.contents

/-- The queue's machine refines the channel, with any schedule of any threads. -/
theorem refines_channel :
    (machine α capacity).Refines (fun _ _ => True) (channel α) Represents entries where
  start := by
    rintro s rfl
    exact ⟨.empty, rfl, new_wellFormed capacity, rfl⟩
  move := by
    rintro s l e s' out ⟨wf, hdeque⟩ - move
    obtain ⟨hsame, hfailed⟩ | ⟨t, op, ret, notify, rfl, hsection⟩ := step_queue move
    · have hnone : entries (e, out) = [] := by
        rcases out with _ | ⟨t, op, ret⟩
        · rfl
        · obtain rfl := hfailed _ rfl
          cases op <;> rfl
      exact ⟨l, by rw [hnone]; exact .nil, hsame ▸ wf, by rw [hsame, hdeque]⟩
    · have wf' := criticalSection_wellFormed wf hsection
      obtain ⟨data, rfl, rfl, -, hq⟩ | ⟨data, rfl, htake, -⟩ | ⟨rfl, rfl, hq⟩ |
        ⟨hpushed, hpopped, hreset, -, hsame, -⟩ := criticalSection_done wf hsection
      · refine ⟨l.put data, ?_, wf', by simp [hq, hdeque, Ledger.put]⟩
        exact .single (o := none) trivial rfl
      · obtain ⟨m, hm, hcontents⟩ := Ledger.step_take (hdeque.symm.trans htake)
        refine ⟨m, ?_, wf', hcontents.symm⟩
        have hentry : entries (e, some ⟨t, op, .popped data⟩) = [(.take, some data)] := by
          cases op <;> rfl
        rw [hentry]
        exact .single trivial hm
      · refine ⟨.empty, ?_, wf', by simp [hq, Ledger.empty]⟩
        exact .single (o := none) trivial rfl
      · have hnone : entries (e, some ⟨t, op, ret⟩) = [] := by
          cases op <;> cases ret <;> simp_all [entries]
        exact ⟨l, by rw [hnone]; exact .nil, wf', hsame.trans hdeque⟩

/-- The channel run behind a run of the queue. -/
theorem run_channel {s : State α} {trace : List (Event α × Option (Returned α))}
    (run : (machine α capacity).Run (fun _ _ => True) (.initial capacity) trace s) :
    ∃ l, (channel α).Run (fun _ _ => True) .empty (history trace) l ∧ Represents s l :=
  refines_channel.run run ⟨new_wellFormed capacity, rfl⟩

/-- Conservation, failure and separation of a queue's history, for every element
type, capacity, set of threads and schedule. -/
theorem no_loss_no_duplication {s : State α} {trace : List (Event α × Option (Returned α))}
    (run : (machine α capacity).Run (fun _ _ => True) (.initial capacity) trace s) :
    puts (sinceClear (history trace)) =
        takes (sinceClear (history trace)) ++ s.queue.deque ∧
      (∀ past e r rest, trace = past ++ (e, some r) :: rest →
        r.ret = .failed ∨ r.ret = .killed →
        entries (e, some r) = [] ∧ ∃ a b,
          (machine α capacity).Run (fun _ _ => True) (.initial capacity) past a ∧
          a.step e = some (b, some r) ∧ b.queue.deque = a.queue.deque) ∧
      (∀ before e t after, trace = before ++ (e, some ⟨t, .reset, .finished⟩) :: after →
        (takes (history after)).Sublist (puts (history after))) := by
  refine ⟨?_, ?_, ?_⟩
  · obtain ⟨l, channelRun, -, hdeque⟩ := run_channel run
    rw [hdeque]
    exact run_balance channelRun
  · rintro past e ⟨t, op, ret⟩ rest rfl failed
    obtain ⟨a, first, later⟩ := run.split
    obtain ⟨b, -, move, -⟩ := later.cons_inv
    obtain ⟨l, -, wf, -⟩ := run_channel first
    refine ⟨?_, a, b, first, move, step_queue_of_failed wf move failed⟩
    obtain rfl | rfl := failed <;> cases op <;> rfl
  · rintro before e t after rfl
    obtain ⟨l, channelRun, -⟩ := run_channel run
    rw [history_append] at channelRun
    exact run_takes_after_clear channelRun

/-- A consumer that sleeps on an empty queue is handed the value pushed later. -/
theorem no_loss_no_duplication_handover :
    ∃ trace s, (machine Nat 1).Run (fun _ _ => True) (.initial 1) trace s ∧
      takes (sinceClear (history trace)) = [7] ∧
      puts (sinceClear (history trace)) =
        takes (sinceClear (history trace)) ++ s.queue.deque := by
  obtain ⟨trace, s, run, delivered⟩ :=
    Machine.Run.exists_of_exec (machine Nat 1) (fun _ _ => True) (.initial 1)
      [.call 0 .pop, .enter 0, .call 1 (.push 7), .enter 1, .wake 0, .resume 0]
      (fun trace _ => takes (sinceClear (history trace)) = [7]) (by decide)
  exact ⟨trace, s, run, delivered, (no_loss_no_duplication run).1⟩

end Netbroker.SyncFifoQueue
