import Netbroker.SyncQueue.Basic

/-!
# Sleeping on the queue's condition variable

Producers and consumers sleep on one condition variable with opposite predicates, so
whatever makes either predicate false has to notify. Every operation does, except
`reset`: it makes room without a notification, and it takes back a kill that the
sleepers have been notified of and have not acted on yet.

`no_lost_wakeup` says in which runs nobody sleeps without a reason, `released_returns` when a
call that a kill has released returns. Both look only at what has happened up to the step in
question: which notifications a sleeper got, and whether a `reset` took one back.
-/

namespace Netbroker.SyncFifoQueue

open Transition

universe u

variable {α : Type u} {capacity : Nat}

/-- The loop condition of a waiting operation, apart from the kill flag. -/
def starves (q : SyncFifoQueue α) : Op α → Bool
  | .push _ => decide (q.maxSize ≤ q.currSize)
  | .pop | .timedPop => decide (q.currSize = 0)
  | _ => false

theorem criticalSection_wait {q : SyncFifoQueue α} {op : Op α} :
    q.criticalSection op = .wait ↔ q.sigKill = false ∧ q.starves op = true := by
  have take : q.takeFront ≠ .wait := by
    rw [takeFront]
    split <;> simp
  cases op <;> simp only [criticalSection, starves] <;> grind

/-- A section that does not notify changes nothing, unless it is `reset`. -/
theorem criticalSection_silent {q q' : SyncFifoQueue α} {op : Op α} {ret : Ret α}
    (h : q.criticalSection op = .done q' ret false) (hreset : op ≠ .reset) : q' = q := by
  have take : ∀ {ret : Ret α}, q.takeFront = .done q' ret false → q' = q := by
    intro ret htake
    rw [takeFront] at htake
    split at htake <;> simp only [Outcome.done.injEq, reduceCtorEq, and_false] at htake
    exact htake.1.symm
  cases op with
  | reset => exact absurd rfl hreset
  | _ => simp only [criticalSection] at h; grind

deriving instance DecidableEq for Op, Ret, Pc, Returned, Event

/-- Why a call of the operation may sleep. -/
def HasReason (q : SyncFifoQueue α) : Op α → Prop
  | .push _ => q.deque.length = q.maxSize ∧ q.sigKill = false
  | .pop | .timedPop => q.deque = [] ∧ q.sigKill = false
  | _ => False

/-- Whoever sleeps without a notification has a reason to. -/
def Justified (s : State α) : Prop :=
  ∀ t op, s.threads t = .asleep op false → s.queue.HasReason op

/-- The step does not reset the queue while a push sleeps that has not been notified. -/
def SparesPushers (s : State α) (e : Event α) : Prop :=
  ∀ t, s.runs e = some (t, .reset) → ∀ u data, s.threads u ≠ .asleep (.push data) false

theorem hasReason_of_wait {q : SyncFifoQueue α} {op : Op α} (wf : q.WellFormed)
    (h : q.criticalSection op = .wait) : q.HasReason op := by
  obtain ⟨hlive, hstarves⟩ := criticalSection_wait.mp h
  have hcount := wf.count
  have hbound := wf.bound
  cases op with
  | push data =>
      have hfull : q.maxSize ≤ q.currSize := of_decide_eq_true hstarves
      exact ⟨by omega, hlive⟩
  | pop | timedPop =>
      have hempty : q.currSize = 0 := of_decide_eq_true hstarves
      exact ⟨List.eq_nil_of_length_eq_zero (by omega), hlive⟩
  | _ => cases hstarves

/-- The thread that runs a section is awake. -/
theorem awake_of_runs {s : State α} {e : Event α} {t : ThreadId} {op : Op α}
    (h : s.runs e = some (t, op)) (op' : Op α) (notified : Bool) :
    s.threads t ≠ .asleep op' notified := by
  unfold State.runs at h
  split at h
  · split at h
    · rename_i hpc
      obtain ⟨rfl, -⟩ := Prod.mk.inj (Option.some.inj h)
      rw [hpc]
      simp
    · cases h
  · split at h
    · rename_i hpc
      obtain ⟨rfl, -⟩ := Prod.mk.inj (Option.some.inj h)
      rw [hpc]
      simp
    · cases h
  · cases h

/-- A section of one thread, with the others asleep for a reason. -/
theorem attempt_justified {s s' : State α} {t : ThreadId} {op : Op α}
    {out : Option (Returned α)} (wf : s.queue.WellFormed) (hs : Justified s)
    (spares : op = .reset → ∀ u data, s.threads u ≠ .asleep (.push data) false)
    (h : s.attempt t op = (s', out)) : Justified s' := by
  rw [State.attempt] at h
  split at h
  · rename_i hwait
    obtain ⟨rfl, -⟩ := Prod.mk.inj h
    intro u op' hasleep
    by_cases hu : u = t
    · subst hu
      rw [State.set_threads_self] at hasleep
      cases hasleep
      exact hasReason_of_wait wf hwait
    · rw [State.set_threads_of_ne s hu] at hasleep
      exact hs u op' hasleep
  · rename_i queue ret notify hdone
    obtain ⟨rfl, -⟩ := Prod.mk.inj h
    intro u op' hasleep
    have hu : u ≠ t := by
      rintro rfl
      rw [State.set_threads_self] at hasleep
      cases hasleep
    rw [State.set_threads_of_ne _ hu] at hasleep
    rw [State.set_queue]
    cases notify with
    | true =>
        -- nobody is left without a notification
        have hnotified : (s.threads u).notify = .asleep op' false := hasleep
        cases hpc : s.threads u <;> simp [hpc, Pc.notify] at hnotified
    | false =>
        have hbefore : s.threads u = .asleep op' false := hasleep
        have hreason := hs u op' hbefore
        by_cases hreset : op = .reset
        · subst hreset
          cases hdone
          cases op' with
          | push data => exact absurd hbefore (spares rfl u data)
          | pop | timedPop => exact ⟨rfl, rfl⟩
          | _ => exact hreason
        · rw [criticalSection_silent hdone hreset]
          exact hreason

/-- A step that spares the sleeping producers. -/
theorem step_justified {s s' : State α} {e : Event α} {out : Option (Returned α)}
    (wf : s.queue.WellFormed) (hs : Justified s) (spares : SparesPushers s e)
    (h : s.step e = some (s', out)) : Justified s' := by
  obtain ⟨t, op, hruns, hattempt⟩ | ⟨-, -, t, pc, rfl, hawake⟩ := State.step_inv h
  · exact attempt_justified wf hs (fun hreset => spares t (hreset ▸ hruns)) hattempt
  · intro u op hasleep
    by_cases hu : u = t
    · subst hu
      rw [State.set_threads_self] at hasleep
      exact absurd hasleep (hawake op false)
    · rw [State.set_threads_of_ne s hu] at hasleep
      exact hs u op hasleep

/-- A reset makes room under a producer that nobody notifies. -/
theorem spares_of_justified {s s' : State α} {e : Event α} {out : Option (Returned α)}
    (room : 0 < s.queue.maxSize) (hs' : Justified s') (h : s.step e = some (s', out)) :
    SparesPushers s e := by
  intro t hruns u data hasleep
  obtain ⟨t', op, hruns', hattempt⟩ | ⟨hruns', -⟩ := State.step_inv h
  · rw [hruns] at hruns'
    cases hruns'
    have hu : u ≠ t := by
      rintro rfl
      exact awake_of_runs hruns _ _ hasleep
    obtain ⟨rfl, -⟩ := Prod.mk.inj hattempt
    have hstill := (State.set_threads_of_ne _ hu .idle).trans hasleep
    have hfull : 0 = s.queue.maxSize := (hs' u _ hstill).1
    omega
  · rw [hruns] at hruns'
    cases hruns'

theorem step_sound {s s' : State α} {e : Event α} {out : Option (Returned α)}
    (wf : s.queue.WellFormed) (h : s.step e = some (s', out)) :
    s'.queue.WellFormed ∧ s'.queue.maxSize = s.queue.maxSize := by
  obtain ⟨t, op, -, hattempt⟩ | ⟨-, -, t, pc, rfl, -⟩ := State.step_inv h
  · obtain ⟨hsame, -⟩ | ⟨ret, notify, -, hsection⟩ := State.attempt_queue hattempt
    · rw [hsame]
      exact ⟨wf, rfl⟩
    · refine ⟨criticalSection_wellFormed wf hsection, ?_⟩
      obtain ⟨_, -, -, -, hq⟩ | ⟨_, -, -, hq⟩ | ⟨-, -, hq⟩ | ⟨-, -, -, -, -, -, hsize⟩ :=
        criticalSection_done wf hsection
      · rw [hq]
      · rw [hq]
      · rw [hq]
      · exact hsize
  · exact ⟨wf, rfl⟩

/-- **No lost wake-up.** In a run of any threads on a queue with room for one element,
whoever sleeps without a notification has a reason to in every state reached, exactly
when no step of the run resets the queue under such a producer. -/
theorem no_lost_wakeup (room : 0 < capacity) {s : State α}
    {trace : List (Event α × Option (Returned α))}
    (run : (machine α capacity).Run (fun _ _ => True) (.initial capacity) trace s) :
    (machine α capacity).EveryStep (.initial capacity) trace (fun _ _ s' _ => Justified s') ↔
      (machine α capacity).Run SparesPushers (.initial capacity) trace s := by
  refine run.everyStep_iff
    (I := fun a => a.queue.WellFormed ∧ a.queue.maxSize = capacity ∧ Justified a) ?_ ?_ ?_
  · exact ⟨new_wellFormed capacity, rfl, fun t op hasleep => nomatch hasleep⟩
  · rintro a e b o ⟨wf, hsize, -⟩ move hb
    obtain ⟨wf', hsize'⟩ := step_sound wf move
    exact ⟨wf', hsize'.trans hsize, hb⟩
  · rintro a e b o ⟨wf, hsize, ha⟩ move
    constructor
    · intro hb
      exact spares_of_justified (hsize.symm ▸ room) hb move
    · intro spares
      exact step_justified wf ha spares move

/-- A consumer sleeps until a producer notifies it. -/
theorem no_lost_wakeup_consumer : ∃ (trace : _) (s : State Nat),
    (machine Nat 1).EveryStep (.initial 1) trace (fun _ _ s' _ => Justified s') ∧
      s.threads 0 = .asleep .pop true := by
  obtain ⟨trace, s, run, hnotified⟩ := Machine.Run.exists_of_exec (machine Nat 1)
    (fun s e => ∀ r ∈ s.runs e, r.2 ≠ .reset) (.initial 1)
    [.call 0 .pop, .enter 0, .call 1 (.push 7), .enter 1]
    (fun _ s => s.threads 0 = .asleep .pop true) (by decide)
  have spares : (machine Nat 1).Run SparesPushers (.initial 1) trace s :=
    run.mono fun a e hnone t hruns => absurd rfl (hnone (t, .reset) hruns)
  exact ⟨trace, s, (no_lost_wakeup (by decide) (run.mono fun _ _ _ => trivial)).mpr spares,
    hnotified⟩

/-- A producer sleeps on a full queue, and another thread resets it. -/
theorem wakeup_lost : ¬ ∀ s : State Nat, (machine Nat 1).Reachable (fun _ _ => True) s →
    Justified s := by
  intro hall
  obtain ⟨s, reach, hasleep, hempty⟩ := Machine.Reachable.exists_of_exec (M := machine Nat 1)
    (fun _ _ => True) rfl
    [.call 0 (.push 7), .enter 0, .call 1 (.push 8), .enter 1, .call 0 .reset, .enter 0]
    (fun s => s.threads 1 = .asleep (.push 8) false ∧ s.queue.deque.length ≠ s.queue.maxSize)
    (by decide)
  exact hempty (hall s reach 1 (.push 8) hasleep).1

/-- The operations that wait on `m_cond`. -/
def Op.sleeps : Op α → Bool
  | .push _ | .pop | .timedPop => true
  | _ => false

/-- The thread is blocked in a wait of the operation: asleep, or awake without the mutex. -/
def Pc.waitsIn (op : Op α) : Pc α → Prop
  | .asleep op' _ | .waking op' _ => op' = op
  | _ => False

/-- The kill flag after a step, read off the call that returns in it. -/
def killAfter (flag : Bool) : Option (Returned α) → Bool
  | some ⟨_, .signalForKill, .finished⟩ => true
  | some ⟨_, .reset, .finished⟩ => false
  | _ => flag

/-- After a kill and then the trace, no `reset` has come after the last kill. -/
def killStands (trace : List (Event α × Option (Returned α))) : Bool :=
  trace.foldl (fun flag x => killAfter flag x.2) true

theorem attempt_sigKill {s s' : State α} {t : ThreadId} {op : Op α}
    {out : Option (Returned α)} (h : s.attempt t op = (s', out)) :
    s'.queue.sigKill = killAfter s.queue.sigKill out := by
  obtain ⟨hsame, rfl⟩ | ⟨ret, notify, rfl, hsection⟩ := State.attempt_queue h
  · rw [hsame]
    rfl
  · cases op with
    | signalForKill | reset =>
        simp only [criticalSection, Outcome.done.injEq] at hsection
        obtain ⟨hqueue, rfl, -⟩ := hsection
        rw [← hqueue]
        rfl
    | _ => exact criticalSection_sigKill hsection (by simp) (by simp)

theorem step_sigKill {s s' : State α} {e : Event α} {out : Option (Returned α)}
    (h : s.step e = some (s', out)) : s'.queue.sigKill = killAfter s.queue.sigKill out := by
  obtain ⟨t, op, -, hattempt⟩ | ⟨-, hfailed, t, pc, rfl, -⟩ := State.step_inv h
  · exact attempt_sigKill hattempt
  · cases out with
    | none => rfl
    | some r =>
        obtain ⟨u, op, ret⟩ := r
        obtain rfl : ret = .failed := hfailed _ rfl
        cases op <;> rfl

theorem run_sigKill {legal : State α → Event α → Prop} {s s' : State α}
    {trace : List (Event α × Option (Returned α))}
    (run : (machine α capacity).Run legal s trace s') (hkill : s.queue.sigKill = true) :
    s'.queue.sigKill = killStands trace := by
  induction run with
  | nil => exact hkill
  | snoc _ _ move ih =>
      rw [step_sigKill move, ih, killStands, killStands, List.foldl_append]
      rfl

theorem notify_waitsIn {op : Op α} {pc : Pc α} (h : pc.waitsIn op) : pc.notify.waitsIn op := by
  cases pc <;> exact h

/-- The section of another thread notifies a blocked one at most. -/
theorem attempt_waitsIn {s s' : State α} {out : Option (Returned α)} {t u : ThreadId}
    {op op' : Op α} (hpc : (s.threads t).waitsIn op) (hu : u ≠ t)
    (h : s.attempt u op' = (s', out)) : (s'.threads t).waitsIn op := by
  rw [State.attempt] at h
  split at h
  · obtain ⟨rfl, -⟩ := Prod.mk.inj h
    rw [State.set_threads_of_ne s hu.symm]
    exact hpc
  · obtain ⟨rfl, -⟩ := Prod.mk.inj h
    rw [State.set_threads_of_ne _ hu.symm]
    dsimp only
    split
    · exact notify_waitsIn hpc
    · exact hpc

/-- A move of another thread leaves it alone. -/
theorem set_waitsIn {s s' : State α} {o out : Option (Returned α)} {t u : ThreadId} {op : Op α}
    {pc : Pc α} (hpc : (s.threads t).waitsIn op) (h : (s.set u pc, o) = (s', out))
    (hu : u = t → pc.waitsIn op) : (s'.threads t).waitsIn op := by
  obtain ⟨rfl, -⟩ := Prod.mk.inj h
  by_cases hsame : t = u
  · subst hsame
    rw [State.set_threads_self]
    exact hu rfl
  · rw [State.set_threads_of_ne s hsame]
    exact hpc

/-- A blocked thread stays blocked until it has the mutex again. -/
theorem step_waitsIn {s s' : State α} {e : Event α} {out : Option (Returned α)} {t : ThreadId}
    {op : Op α} (hpc : (s.threads t).waitsIn op) (others : e ≠ .resume t)
    (h : s.step e = some (s', out)) : (s'.threads t).waitsIn op := by
  cases e with
  | call u op' =>
      simp only [State.step] at h
      split at h <;> simp only [reduceCtorEq, Option.some.injEq] at h
      rename_i hidle
      refine set_waitsIn hpc h ?_
      rintro rfl
      rw [hidle] at hpc
      exact hpc
  | enter u =>
      simp only [State.step] at h
      split at h <;> simp only [reduceCtorEq, Option.some.injEq] at h
      rename_i op' hentering
      refine attempt_waitsIn hpc ?_ h
      rintro rfl
      rw [hentering] at hpc
      exact hpc
  | contend u =>
      simp only [State.step] at h
      split at h <;> simp only [reduceCtorEq, Option.some.injEq] at h
      rename_i hentering
      refine set_waitsIn hpc h ?_
      rintro rfl
      rw [hentering] at hpc
      exact hpc.elim
  | wake u | spurious u | timeOut u =>
      simp only [State.step] at h
      split at h <;> simp only [reduceCtorEq, Option.some.injEq] at h
      rename_i hasleep
      refine set_waitsIn hpc h ?_
      rintro rfl
      rw [hasleep] at hpc
      exact hpc
  | resume u =>
      have hu : u ≠ t := fun hsame => others (hsame ▸ rfl)
      simp only [State.step] at h
      split at h <;> simp only [reduceCtorEq, Option.some.injEq] at h
      · exact set_waitsIn hpc h fun hsame => absurd hsame hu
      · exact attempt_waitsIn hpc hu h

/-- A waiting call is not the one that kills. -/
theorem kill_elsewhere {a b : State α} {t k : ThreadId} {op : Op α} {e : Event α}
    (sleeps : op.sleeps = true) (blocked : (a.threads t).waitsIn op)
    (kill : a.step e = some (b, some ⟨k, .signalForKill, .finished⟩)) : e ≠ .resume t := by
  rintro rfl
  simp only [State.step] at kill
  split at kill <;> simp only [reduceCtorEq, Option.some.injEq] at kill
  · cases kill
  · rename_i op' hawake
    rw [hawake] at blocked
    obtain rfl : op' = op := blocked
    obtain ⟨-, hnone⟩ | ⟨ret, notify, hout, -⟩ := State.attempt_queue kill
    · cases hnone
    · cases hout
      cases sleeps

/-- The way back into the loop condition: the call returns unless its section waits. -/
theorem attempt_returns {s s' : State α} {t : ThreadId} {op : Op α} {out : Option (Returned α)}
    (h : s.attempt t op = (s', out)) :
    (∃ ret, out = some ⟨t, op, ret⟩) ↔ s.queue.sigKill = true ∨ s.queue.starves op = false := by
  have hwait : s.queue.criticalSection op = .wait ↔
      ¬ (s.queue.sigKill = true ∨ s.queue.starves op = false) := by
    rw [criticalSection_wait, not_or, Bool.not_eq_true, Bool.not_eq_false]
  rw [State.attempt] at h
  split at h
  · rename_i hsection
    obtain ⟨-, rfl⟩ := Prod.mk.inj h
    simpa using hwait.mp hsection
  · rename_i queue ret notify hsection
    obtain ⟨-, rfl⟩ := Prod.mk.inj h
    rw [hsection] at hwait
    have hgoes : s.queue.sigKill = true ∨ s.queue.starves op = false := by
      by_contra hstays
      cases hwait.mpr hstays
    exact ⟨fun _ => hgoes, fun _ => ⟨ret, rfl⟩⟩

/-- **Kills.** A call that waits when `signalForKill` runs returns when it has the mutex
again, exactly when no `reset` has come after the last kill, or there is now room or an
element for it, or its time is up. -/
theorem released_returns {a b u v : State α} {t k : ThreadId} {op : Op α} {e : Event α}
    {past : List (Event α × Option (Returned α))} {o : Option (Returned α)}
    (sleeps : op.sleeps = true) (blocked : (a.threads t).waitsIn op)
    (kill : a.step e = some (b, some ⟨k, .signalForKill, .finished⟩))
    (later : (machine α capacity).Run (fun _ e => e ≠ .resume t) b past u)
    (reacquires : u.step (.resume t) = some (v, o)) :
    (∃ ret, o = some ⟨t, op, ret⟩) ↔ (killStands past = true ∨ u.queue.starves op = false ∨
      u.threads t = .waking op true) := by
  have hkilled : b.queue.sigKill = true := step_sigKill kill
  have hblocked := step_waitsIn blocked (kill_elsewhere sleeps blocked kill) kill
  have hwaits : (u.threads t).waitsIn op :=
    later.invariant (I := fun s => (s.threads t).waitsIn op) hblocked
      fun _ _ _ _ hpc others move => step_waitsIn hpc others move
  rw [← run_sigKill later hkilled]
  simp only [State.step] at reacquires
  split at reacquires <;> simp only [reduceCtorEq, Option.some.injEq] at reacquires
  · rename_i htimed
    rw [htimed] at hwaits ⊢
    obtain rfl : .timedPop = op := hwaits
    obtain ⟨-, rfl⟩ := Prod.mk.inj reacquires
    simp
  · rename_i op' hawake
    rw [hawake] at hwaits ⊢
    obtain rfl : op' = op := hwaits
    rw [attempt_returns reacquires]
    simp

/-- Thread 1 kills while the consumer sleeps, and the schedule follows: its trace, and what
the consumer returns when it has the mutex again. -/
def afterKill (a : State Nat) (schedule : List (Event Nat)) :
    Option (List (Event Nat × Option (Returned Nat)) × Option (Returned Nat)) := do
  guard (a.threads 0 = .asleep .pop false)
  let (b, out) ← a.step (.enter 1)
  guard (out = some ⟨1, .signalForKill, .finished⟩)
  let (past, u) ← (machine Nat 1).exec (fun _ e => e ≠ .resume 0) b schedule
  let (_, o) ← u.step (.resume 0)
  return (past, o)

theorem exists_kill (schedule : List (Event Nat))
    (result : List (Event Nat × Option (Returned Nat)) × Option (Returned Nat))
    (h : ((machine Nat 1).exec (fun _ _ => True) (.initial 1)
      [.call 0 .pop, .enter 0, .call 1 .signalForKill]).any
        (fun a => afterKill a.2 schedule = some result) = true) :
    ∃ a b u v, (machine Nat 1).Reachable (fun _ _ => True) a ∧
      (a.threads 0).waitsIn .pop ∧
      a.step (.enter 1) = some (b, some ⟨1, .signalForKill, .finished⟩) ∧
      (machine Nat 1).Run (fun _ e => e ≠ .resume 0) b result.1 u ∧
      u.step (.resume 0) = some (v, result.2) := by
  obtain ⟨⟨trace, a⟩, hexec, hcheck⟩ := (Option.any_eq_true _ _).mp h
  have hafter : afterKill a schedule = some result := of_decide_eq_true hcheck
  simp only [afterKill, Option.bind_eq_bind, Option.bind_eq_some_iff, Option.guard_eq_some',
    Option.pure_def, Option.some.injEq, Prod.exists] at hafter
  obtain ⟨-, hasleep, b, out, kill, -, rfl, past, u, hlater, v, o, reacquires, rfl⟩ := hafter
  refine ⟨a, b, u, v, ⟨_, trace, rfl, .of_exec hexec⟩, ?_, kill, .of_exec hlater, reacquires⟩
  rw [hasleep]
  rfl

/-- A kill releases a consumer, with no `reset` in between. -/
theorem released_returns_killed : ∃ (past : List (Event Nat × Option (Returned Nat)))
    (u v : State Nat) (o : Option (Returned Nat)), u.step (.resume 0) = some (v, o) ∧
      killStands past = true ∧ ∃ ret, o = some ⟨0, .pop, ret⟩ := by
  obtain ⟨a, b, u, v, -, blocked, kill, later, reacquires⟩ :=
    exists_kill [.wake 0] ([(.wake 0, none)], some ⟨0, .pop, .killed⟩) (by decide)
  have hstands : killStands [((.wake 0 : Event Nat), (none : Option (Returned Nat)))] = true := rfl
  exact ⟨_, u, v, _, reacquires, hstands,
    (released_returns rfl blocked kill later reacquires).mpr (.inl hstands)⟩

/-- The queue is reset before the released consumer has the mutex again. -/
theorem kill_lost : ¬ ∀ (a b u v : State Nat) (t k : ThreadId) (op : Op Nat) (e : Event Nat)
    (past : List (Event Nat × Option (Returned Nat))) (o : Option (Returned Nat)),
    (machine Nat 1).Reachable (fun _ _ => True) a → op.sleeps = true →
    (a.threads t).waitsIn op → a.step e = some (b, some ⟨k, .signalForKill, .finished⟩) →
    (machine Nat 1).Run (fun _ e => e ≠ .resume t) b past u →
    u.step (.resume t) = some (v, o) → ∃ ret, o = some ⟨t, op, ret⟩ := by
  intro hall
  obtain ⟨a, b, u, v, reach, blocked, kill, later, reacquires⟩ :=
    exists_kill [.call 1 .reset, .enter 1, .wake 0]
      ([(.call 1 .reset, none), (.enter 1, some ⟨1, .reset, .finished⟩), (.wake 0, none)], none)
      (by decide)
  obtain ⟨ret, hsome⟩ :=
    hall a b u v 0 1 .pop (.enter 1) _ none reach rfl blocked kill later reacquires
  cases hsome

end Netbroker.SyncFifoQueue
