import Netbroker.SyncQueue.Wakeup

/-!
# The verdict of `timed_pop`

A timed wait that reports a time-out has taken the mutex again first, and any number
of threads may have had it in between. `timed_pop` fails on that report alone, without
another look at the queue.
-/

namespace Netbroker.SyncFifoQueue

open Transition

universe u

variable {α : Type u} {capacity : Nat}

/-- What a caller can expect of a `timed_pop` that returns `ret`, by the queue ahead of
its last critical section and behind it. -/
structure Truthful (q q' : SyncFifoQueue α) (ret : Ret α) : Prop where
  failed : ret = .failed → q.deque = [] ∨ q.sigKill = true
  popped : ret ≠ .failed → ∃ data, ret = .popped data ∧ q.deque = data :: q'.deque

/-- No time-out is acted on while there is an element to take. -/
def givesUpEmpty (s : State α) : Event α → Bool
  | .resume t =>
      match s.threads t with
      | .waking .timedPop true => s.queue.deque.isEmpty || s.queue.sigKill
      | _ => true
  | _ => true

theorem takeFront_popped {q q' : SyncFifoQueue α} {ret : Ret α} {notify : Bool}
    (hsome : q.deque ≠ []) (h : q.takeFront = .done q' ret notify) :
    ∃ data, ret = .popped data ∧ q.deque = data :: q'.deque := by
  obtain ⟨data, rest, hdeque⟩ := List.exists_cons_of_ne_nil hsome
  simp only [takeFront, hdeque, Outcome.done.injEq] at h
  obtain ⟨rfl, rfl, -⟩ := h
  exact ⟨data, rfl, hdeque⟩

/-- A `timed_pop` that looks at the queue tells the truth about it. -/
theorem criticalSection_truthful {q q' : SyncFifoQueue α} {ret : Ret α} {notify : Bool}
    (wf : q.WellFormed) (h : q.criticalSection .timedPop = .done q' ret notify) :
    Truthful q q' ret := by
  cases hkill : q.sigKill with
  | true =>
      simp only [criticalSection, hkill, Bool.not_true, Bool.false_and, Bool.false_eq_true,
        if_false, if_true, Outcome.done.injEq] at h
      obtain ⟨-, rfl, -⟩ := h
      exact ⟨fun _ => .inr hkill, fun hne => absurd rfl hne⟩
  | false =>
      by_cases hempty : q.currSize = 0
      · simp [criticalSection, hkill, hempty] at h
      · simp only [criticalSection, hkill, hempty, decide_false, Bool.and_false,
          Bool.false_eq_true, if_false] at h
        have hsome : q.deque ≠ [] := by
          rw [wf.count] at hempty
          exact fun hnil => hempty (by rw [hnil]; rfl)
        obtain ⟨data, rfl, hdeque⟩ := takeFront_popped hsome h
        exact ⟨by simp, fun _ => ⟨data, rfl, hdeque⟩⟩

/-- A step in which `timed_pop` returns tells the truth, a time-out with an element in
the queue apart. -/
theorem step_truthful_iff {s s' : State α} {e : Event α} {out : Option (Returned α)}
    (wf : s.queue.WellFormed) (h : s.step e = some (s', out)) :
    (∀ t ret, out = some ⟨t, .timedPop, ret⟩ → Truthful s.queue s'.queue ret) ↔
      givesUpEmpty s e = true := by
  -- with the mutex newly taken, or after a notification, the queue is looked at
  have hattempt : ∀ {t op}, s.attempt t op = (s', out) →
      ∀ u ret, out = some ⟨u, .timedPop, ret⟩ → Truthful s.queue s'.queue ret := by
    intro t op hattempt u ret hout
    obtain ⟨-, hnone⟩ | ⟨ret', notify, hout', hsection⟩ := State.attempt_queue hattempt
    · rw [hnone] at hout
      cases hout
    · rw [hout'] at hout
      cases hout
      exact criticalSection_truthful wf hsection
  have hsilent : out = none → ∀ u ret, out = some ⟨u, .timedPop, ret⟩ →
      Truthful s.queue s'.queue ret := by
    intro hnone u ret hout
    rw [hnone] at hout
    cases hout
  cases e with
  | call t op =>
      simp only [State.step] at h
      split at h <;> simp only [reduceCtorEq, Option.some.injEq] at h
      exact iff_of_true (hsilent (Prod.mk.inj h).2.symm) rfl
  | enter t =>
      simp only [State.step] at h
      split at h <;> simp only [reduceCtorEq, Option.some.injEq] at h
      exact iff_of_true (hattempt h) rfl
  | contend t =>
      simp only [State.step] at h
      split at h <;> simp only [reduceCtorEq, Option.some.injEq] at h
      obtain ⟨-, rfl⟩ := Prod.mk.inj h
      refine iff_of_true (fun u ret hout => ?_) rfl
      cases hout
  | wake t | spurious t | timeOut t =>
      simp only [State.step] at h
      split at h <;> simp only [reduceCtorEq, Option.some.injEq] at h
      exact iff_of_true (hsilent (Prod.mk.inj h).2.symm) rfl
  | resume t =>
      simp only [State.step] at h
      split at h <;> simp only [reduceCtorEq, Option.some.injEq] at h
      · rename_i htimed
        obtain ⟨rfl, rfl⟩ := Prod.mk.inj h
        have hgives : givesUpEmpty s (.resume t) = true ↔
            s.queue.deque = [] ∨ s.queue.sigKill = true := by
          simp [givesUpEmpty, htimed]
        rw [hgives]
        constructor
        · exact fun htruthful => (htruthful t .failed rfl).failed rfl
        · intro hnothing u ret hout
          cases hout
          exact ⟨fun _ => hnothing, fun hne => absurd rfl hne⟩
      · rename_i hwoken
        exact iff_of_true (hattempt h) (by simp [givesUpEmpty, hwoken])

/-- **Time-outs.** In every run of any threads on a queue each `timed_pop` that fails does
so on an empty or killed queue, and each one that succeeds takes the head, exactly when no
time-out of a `timed_pop` is acted on while the queue holds an element and is not killed. -/
theorem timedPop_truthful_iff {s : State α} {trace : List (Event α × Option (Returned α))}
    (run : (machine α capacity).Run (fun _ _ => True) (.initial capacity) trace s) :
    (machine α capacity).EveryStep (.initial capacity) trace (fun a _ b out =>
        ∀ t ret, out = some ⟨t, .timedPop, ret⟩ → Truthful a.queue b.queue ret) ↔
      (machine α capacity).Run (fun s e => givesUpEmpty s e = true) (.initial capacity) trace s :=
  run.everyStep_iff (I := fun s => s.queue.WellFormed) (new_wellFormed capacity)
    (fun _ _ _ _ wf move _ => (step_sound wf move).1)
    (fun _ _ _ _ wf move => step_truthful_iff wf move)

/-- A `timed_pop` times out on the empty queue, and the next one takes what is pushed. -/
theorem timedPop_truthful_pushed : ∃ (trace : List (Event Nat × Option (Returned Nat)))
    (s : State Nat), (machine Nat 1).Run (fun _ _ => True) (.initial 1) trace s ∧
      trace.filterMap Prod.snd =
        [⟨0, .timedPop, .failed⟩, ⟨1, .push 7, .pushed⟩, ⟨0, .timedPop, .popped 7⟩] ∧
      (machine Nat 1).EveryStep (.initial 1) trace fun a _ b out =>
        ∀ t ret, out = some ⟨t, .timedPop, ret⟩ → Truthful a.queue b.queue ret := by
  obtain ⟨trace, s, run, hreturned⟩ := Machine.Run.exists_of_exec (machine Nat 1)
    (fun s e => givesUpEmpty s e = true) (.initial 1)
    [.call 0 .timedPop, .enter 0, .timeOut 0, .resume 0, .call 0 .timedPop, .enter 0,
      .call 1 (.push 7), .enter 1, .wake 0, .resume 0]
    (fun trace _ => trace.filterMap Prod.snd =
      [⟨0, .timedPop, .failed⟩, ⟨1, .push 7, .pushed⟩, ⟨0, .timedPop, .popped 7⟩]) (by decide)
  have anyRun := run.mono fun _ _ _ => trivial
  exact ⟨trace, s, anyRun, hreturned, (timedPop_truthful_iff anyRun).mpr run⟩

/-- An element is pushed after the time-out and ahead of the mutex. -/
theorem timedPop_gives_up : ∃ (trace : List (Event Nat × Option (Returned Nat))) (s : State Nat),
    (machine Nat 1).Run (fun _ _ => True) (.initial 1) trace s ∧
      ¬ (machine Nat 1).EveryStep (.initial 1) trace fun a _ b out =>
        ∀ t ret, out = some ⟨t, .timedPop, ret⟩ → Truthful a.queue b.queue ret := by
  obtain ⟨past, a, run, htimed, hdeque, hkill⟩ := Machine.Run.exists_of_exec (machine Nat 1)
    (fun _ _ => True) (.initial 1)
    [.call 0 .timedPop, .enter 0, .timeOut 0, .call 1 (.push 7), .enter 1]
    (fun _ a => a.threads 0 = .waking .timedPop true ∧ a.queue.deque = [7] ∧
      a.queue.sigKill = false) (by decide)
  have move : (machine Nat 1).step a (.resume 0) =
      some (a.set 0 .idle, some ⟨0, .timedPop, .failed⟩) := by
    simp only [machine, State.step, htimed]
    rfl
  refine ⟨_, _, run.snoc trivial move, fun h => ?_⟩
  have htruthful := h past _ _ [] _ _ rfl run move 0 .failed rfl
  rcases htruthful.failed rfl with hempty | hkilled
  · rw [hdeque] at hempty
    cases hempty
  · rw [hkill] at hkilled
    cases hkilled

end Netbroker.SyncFifoQueue
