import Netbroker.Dispatcher.Steps

/-!
# The lifetime of a group's queue

The only owner of a queue is its entry in `m_group_buffer_map`; the worker and the
callers of `receiveMessageFromGroup` copy a raw pointer under the mutex and use it
without. They borrow the queue, and nothing stops another thread from erasing the
entry meanwhile. As long as no borrowed queue loses its entry, every queue in use
is alive.

Whether an entry is erased can be told from the operation and the map it finds, `erasing`. The
steps of the worker and of a consumer only take a pointer up or lay it down.
-/

namespace Netbroker

open Spread Transition

/-- The queue still has its entry in the map. -/
def Dispatcher.Alive (d : Dispatcher) (q : QueueId) : Prop :=
  ∃ name r, d.groups.lookup name = some r ∧ r.queue = q

/-- `unregisterGroup` gets as far as erasing the entry of the group. -/
def Dispatcher.erasable (d : Dispatcher) (groupName : Str) : Bool :=
  decide (groupName.length < maxGroupName) && d.sendOnlyGroups.isEmpty && d.connStatus = .online

namespace World

/-- Some thread is between its lookup of the queue and the end of its push or pop. -/
def Borrowed (s : World) (q : QueueId) : Prop :=
  (∃ t isLocking, s.users t = .popping q isLocking) ∨ ∃ w b, s.workers w = some (.push q b)

/-- The group whose entry a step erases, if it has one. -/
def erasing (s : World) : Event → Option Str
  | .perform _ (.unregisterGroup groupName) _ =>
      if s.dispatcher.erasable groupName then some groupName else none
  | .perform _ .disconnect _ =>
      if s.dispatcher.activity = .stopped ∧ s.dispatcher.erasable s.dispatcher.controlGroup then
        some s.dispatcher.controlGroup
      else none
  | .job w _ =>
      if s.workers w = some .disconnecting ∧ s.dispatcher.activity = .stopped ∧
          s.dispatcher.erasable s.dispatcher.controlGroup then
        some s.dispatcher.controlGroup
      else none
  | _ => none

/-- The step erases no entry whose queue is borrowed. -/
def SparesBorrowed (s : World) (e : Event) : Prop :=
  ∀ name r, s.erasing e = some name → s.dispatcher.groups.lookup name = some r →
    ¬ s.Borrowed r.queue

/-- No thread uses a queue that has been destroyed. -/
def UsesAlive (s : World) : Prop := ∀ q, s.Borrowed q → s.dispatcher.Alive q

end World

namespace Dispatcher

variable {d : Dispatcher} {q : QueueId}

theorem Alive.congr {d' : Dispatcher} (h : d.Alive q) (hgroups : d'.groups = d.groups) :
    d'.Alive q := by
  obtain ⟨name, r, hlookup, hq⟩ := h
  exact ⟨name, r, by rw [hgroups]; exact hlookup, hq⟩

theorem Alive.insertGroup (h : d.Alive q) {g : Group} (queueSize : Nat) (hnew : g.name ∉ d.groups) :
    (d.insertGroup g queueSize).Alive q := by
  obtain ⟨name, r, hlookup, hq⟩ := h
  refine ⟨name, r, ?_, hq⟩
  have hne : name ≠ g.name := by
    rintro rfl
    exact hnew (AList.lookup_isSome.mp (by simp [hlookup]))
  rw [Dispatcher.insertGroup, AList.lookup_insert_ne hne]
  exact hlookup

theorem Alive.registerGroup (h : d.Alive q) (groupName : Str) (bufferSize : Int)
    (queueSize : Nat) (sendOnly sent : Bool) :
    (d.registerGroup groupName bufferSize queueSize sendOnly sent).2.Alive q := by
  obtain ⟨e, hregister⟩ | ⟨-, hregister⟩ | ⟨-, -, -, hnew, ⟨-, hregister⟩ | ⟨-, hregister⟩⟩ :=
    d.registerGroup_cases groupName bufferSize queueSize sendOnly sent
  · rw [hregister]; exact h
  · rw [hregister]; exact h.congr rfl
  · rw [hregister]
    exact (h.insertGroup queueSize (g := Group.new groupName bufferSize queueSize) hnew).congr rfl
  · rw [hregister]
    exact h.insertGroup queueSize (g := Group.new groupName bufferSize queueSize) hnew

theorem Alive.unregisterGroup (h : d.Alive q) {groupName : Str} (sent : Bool)
    (spared : ∀ r, d.erasable groupName = true → d.groups.lookup groupName = some r →
      r.queue ≠ q) : (d.unregisterGroup groupName sent).2.Alive q := by
  obtain ⟨e, hunregister⟩ | ⟨first, rest, -, -, hunregister⟩ |
    ⟨hnone, hlength, -, honline, hunregister⟩ := d.unregisterGroup_cases groupName sent
  · rw [hunregister]; exact h
  · rw [hunregister]
    dsimp only
    split
    · exact h.congr rfl
    · exact h
  · rw [hunregister]
    obtain ⟨name, r, hlookup, rfl⟩ := h
    have herasable : d.erasable groupName = true := by simp [erasable, hlength, hnone, honline]
    have hne : name ≠ groupName := by
      rintro rfl
      exact spared r herasable hlookup rfl
    exact ⟨name, r, by rw [AList.lookup_erase_ne hne]; exact hlookup, rfl⟩

theorem Alive.connect (h : d.Alive q) (answer : Answer) (sent : Bool) :
    (d.connect answer sent).2.Alive q := by
  obtain ⟨e, hconnect⟩ | ⟨code, -, hconnect⟩ | ⟨privateGroup, -, -, -, hconnect⟩ :=
    d.connect_cases answer sent
  · rw [hconnect]; exact h
  · rw [hconnect]; exact h
  · rw [hconnect]
    exact Alive.registerGroup (d := d.connected privateGroup) (h.congr rfl) ..

theorem Alive.disconnect (h : d.Alive q) (sent : Bool)
    (spared : ∀ r, d.activity = .stopped → d.erasable d.controlGroup = true →
      d.groups.lookup d.controlGroup = some r → r.queue ≠ q) : (d.disconnect sent).2.Alive q := by
  obtain ⟨e, hdisconnect⟩ | ⟨-, -, hdisconnect⟩ | ⟨-, hstopped, d', hunregister, hdisconnect⟩ :=
    d.disconnect_cases sent
  · rw [hdisconnect]; exact h
  · rw [hdisconnect]; exact h
  · rw [hdisconnect]
    have hrest := h.unregisterGroup sent fun r => spared r hstopped
    rw [hunregister] at hrest
    exact hrest.congr rfl

end Dispatcher

namespace World

theorem setWorker_borrowed {s : World} {w : WorkerId} {pc : WorkerPc} {q : QueueId}
    (h : (s.setWorker w pc).Borrowed q) : s.Borrowed q ∨ ∃ b, pc = .push q b := by
  rcases h with h | ⟨w', b, hpush⟩
  · exact .inl (.inl h)
  · obtain ⟨-, hpc⟩ | ⟨-, hold⟩ := setWorker_inv hpush
    · exact .inr ⟨b, hpc.symm⟩
    · exact .inl (.inr ⟨w', b, hold⟩)

theorem setUser_borrowed {s : World} {t : ThreadId} {pc : UserPc} {q : QueueId}
    (h : (s.setUser t pc).Borrowed q) : s.Borrowed q ∨ ∃ isLocking, pc = .popping q isLocking := by
  rcases h with ⟨t', isLocking, hpop⟩ | h
  · obtain ⟨-, hpc⟩ | ⟨-, hold⟩ := setUser_inv hpop
    · exact .inr ⟨isLocking, hpc.symm⟩
    · exact .inl (.inl ⟨t', isLocking, hold⟩)
  · exact .inl (.inr h)

theorem afterReceive_ne_push (d : Dispatcher) (ret : Int) (b : Buffer) (q : QueueId)
    (b' : Buffer) : d.afterReceive ret b ≠ .push q b' := by
  rw [Dispatcher.afterReceive]
  split
  · simp
  · split
    · simp
    · split <;> simp

theorem Lands.ne_push {d : Dispatcher} {w : WorkerId} {pc : WorkerPc} {o : Observation}
    (h : Lands d w pc o) (q : QueueId) (b : Buffer) : pc ≠ .push q b := by
  cases h with
  | call => simp
  | inside => simp
  | returned ret b' => exact afterReceive_ne_push d ret b' q b

/-- The routing section borrows a queue that has its entry. -/
theorem routeTo_push {d : Dispatcher} {b b' : Buffer} {q : QueueId}
    (h : d.routeTo b = .push q b') :
    ∃ r, d.groups.lookup b.groupName = some r ∧ r.queue = q ∧ b' = b := by
  rw [Dispatcher.routeTo] at h
  split at h
  · cases h
  · rename_i r hlookup
    split at h
    · cases h
    · cases h
      exact ⟨r, hlookup, rfl, rfl⟩

/-- One step of a worker keeps every queue in use alive. -/
theorem jobMove_usesAlive {s s' : World} {w : WorkerId} {pc : WorkerPc} {o : Observation}
    {sent : Bool} (hs : s.UsesAlive) (spares : s.SparesBorrowed (.job w sent))
    (at' : s.workers w = some pc) (move : JobMove s w pc s' o) : s'.UsesAlive := by
  intro q hq
  cases move with
  | check =>
      rcases setWorker_borrowed hq with h | ⟨b, h⟩
      · exact hs q h
      · split at h <;> cases h
  | read _ traffic lands =>
      rcases setWorker_borrowed hq with h | ⟨b, h⟩
      · exact (hs q h).congr traffic.groups
      · exact absurd h (lands.ne_push q b)
  | route =>
      rcases setWorker_borrowed hq with h | ⟨b, h⟩
      · exact hs q h
      · obtain ⟨r, hlookup, hqueue, -⟩ := routeTo_push h
        exact ⟨_, r, hlookup, hqueue⟩
  | push =>
      rcases setWorker_borrowed hq with h | ⟨b, h⟩
      · exact (hs q h).congr rfl
      · cases h
  | stopFails =>
      rcases setWorker_borrowed hq with h | ⟨b, h⟩
      · exact hs q h
      · cases h
  | stopSends => exact (hs q hq).congr (sendMessageToGroup_traffic ..).groups
  | @disconnects sent' =>
      rcases setWorker_borrowed hq with h | ⟨b, h⟩
      · refine (hs q h).disconnect _ fun r hstopped herasable hlookup hqueue => ?_
        refine spares _ r ?_ hlookup (hqueue ▸ h)
        rw [erasing, if_pos ⟨at', hstopped, herasable⟩]
      · cases h

/-- The end of `stop` uses no queue. -/
theorem UsesAlive.release {s : World} (hs : s.UsesAlive) (holder : Holder) {d : Dispatcher}
    (hgroups : d.groups = s.dispatcher.groups) : (s.release holder d).UsesAlive := by
  intro q hq
  cases holder with
  | user => exact (hs q hq).congr hgroups
  | worker w =>
      obtain h | ⟨b, h⟩ := setWorker_borrowed hq
      · exact (hs q h).congr hgroups
      · cases h

/-- One step of the world keeps every queue in use alive. -/
theorem step_usesAlive {s s' : World} {e : Event} {o : Observation} (hs : s.UsesAlive)
    (spares : s.SparesBorrowed e) (h : s.step e = some (s', o)) : s'.UsesAlive := by
  cases step_move h with
  | @perform t op sent =>
      intro q hq
      have halive := hs q hq
      cases op with
      | registerGroup groupName bufferSize queueSize sendOnly => exact halive.registerGroup ..
      | unregisterGroup groupName =>
          refine halive.unregisterGroup _ fun r herasable hlookup hqueue => ?_
          refine spares _ r ?_ hlookup (hqueue ▸ hq)
          rw [erasing, if_pos herasable]
      | sendMessageToGroup b => exact halive.congr (sendMessageToGroup_traffic ..).groups
      | connect answer => exact halive.connect ..
      | disconnect =>
          refine halive.disconnect _ fun r hstopped herasable hlookup hqueue => ?_
          refine spares _ r ?_ hlookup (hqueue ▸ hq)
          rw [erasing, if_pos ⟨hstopped, herasable⟩]
  | startFails => exact hs
  | starts =>
      intro q hq
      rcases setWorker_borrowed (s := s) hq with h | ⟨b, h⟩
      · exact (hs q h).congr rfl
      · cases h
  | stopFails => exact hs
  | stopSends =>
      intro q hq
      exact (hs q hq).congr (sendMessageToGroup_traffic ..).groups
  | @join holder => exact hs.release holder rfl
  | @timeOut holder => exact hs.release holder rfl
  | receiveFails => exact hs
  | receives _ _ found =>
      intro q hq
      rcases setUser_borrowed hq with h | ⟨isLocking, h⟩
      · exact hs q h
      · cases h
        exact ⟨_, _, found, rfl⟩
  | pop =>
      intro q hq
      rcases setUser_borrowed hq with h | ⟨isLocking, h⟩
      · exact (hs q h).congr rfl
      · cases h
  | job at' move => exact jobMove_usesAlive hs spares at' move
  | traffic _ traffic =>
      intro q hq
      exact (hs q hq).congr traffic.groups

/-- **Lifetime.** If no step erases the entry of a borrowed queue, then whenever a
worker is at a push, or a caller of `receiveMessageFromGroup` at a pop, the queue
has not been destroyed. -/
theorem queues_outlive_use (clientName : Str) {s : World}
    (h : (machine clientName).Reachable SparesBorrowed s) :
    (∀ w q b, s.workers w = some (.push q b) → s.dispatcher.Alive q) ∧
      ∀ t q isLocking, s.users t = .popping q isLocking → s.dispatcher.Alive q := by
  have halive : s.UsesAlive := by
    refine h.invariant ?_ fun _ _ _ _ hs spares move => step_usesAlive hs spares move
    rintro _ ⟨address, dropEcho, dropMembership, mbox, rfl⟩ q (⟨t, isLocking, hpop⟩ | ⟨w, b, hpush⟩)
    · cases hpop
    · cases hpush
  exact ⟨fun w q b hpush => halive q (.inr ⟨w, b, hpush⟩),
    fun t q isLocking hpop => halive q (.inl ⟨t, isLocking, hpop⟩)⟩

theorem queues_outlive_use_waiting : ∃ s : World,
    s.users 1 = .popping 1 true ∧ s.dispatcher.Alive 1 := by
  obtain ⟨s, hreach, hpop⟩ := Machine.Reachable.exists_of_exec (fun s e => s.erasing e = none)
    demo_init [connects, registers, .start 0, .receive 1 demoGroup true]
    (fun s => s.users 1 = .popping 1 true) (by decide)
  have hspares : (machine demoClient).Reachable SparesBorrowed s :=
    hreach.mono fun _ _ hnone name r herasing => by rw [hnone] at herasing; cases herasing
  exact ⟨s, hpop, (queues_outlive_use demoClient hspares).2 1 1 true hpop⟩

/-- A caller blocked in `pop` while another thread unregisters the group. -/
theorem queue_destroyed_in_use : ¬ ∀ s : World,
    (machine demoClient).Reachable (fun _ _ => True) s →
      ∀ t q isLocking, s.users t = .popping q isLocking → s.dispatcher.Alive q := by
  intro hall
  obtain ⟨s, hreach, hpop, hgone⟩ := Machine.Reachable.exists_of_exec (fun _ _ => True) demo_init
    [connects, registers, .start 0, .receive 1 demoGroup true,
      .perform 0 (.unregisterGroup demoGroup) true]
    (fun s => s.users 1 = .popping 1 true ∧ ∀ entry ∈ s.dispatcher.groups.entries,
      entry.2.queue ≠ 1) (by decide)
  obtain ⟨name, r, hlookup, hqueue⟩ := hall s hreach 1 1 true hpop
  exact hgone ⟨name, r⟩ (AList.mem_lookup_iff.mp hlookup) hqueue

end World

end Netbroker
