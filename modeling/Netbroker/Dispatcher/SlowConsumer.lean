import Netbroker.Dispatcher.Lifetime
import Netbroker.Dispatcher.Stranded

/-!
# A slow consumer and the worker

The worker asks `isFull` in one critical section of the queue and pushes in another.
In between consumers only take, and nobody but the worker pushes: as long as one
thread runs `job()`, the room it has seen is still there when it pushes. Whoever
sleeps on a queue's condition variable has left the mutex of the dispatcher.

The operations of the dispatcher leave the queues alone or hand out new ones, so they keep the
room that a worker has seen. What a thread does with the mutex in its hands is one section,
and `stop` sleeps on the worker and not on a queue.
-/

namespace Netbroker

open Transition

namespace Dispatcher

variable {d d' : Dispatcher}

theorem Store.extends (h : d.Store) (grows : Extends d d') : d'.Store := by
  obtain same | ⟨g, n, hnew, same⟩ := grows
  · exact h.same same
  · exact (h.insertGroup hnew).same same

theorem Store.perform (h : d.Store) (sent : Bool) (op : Operation) :
    (World.perform d sent op).2.Store := by
  obtain grows | shrinks := d.perform_registry sent op
  · exact h.extends grows
  · exact h.shrinks shrinks

theorem initial_store (clientName address : Str) (dropEcho dropMembership : Bool)
    (mbox : Spread.Mailbox) :
    (Dispatcher.initial clientName address dropEcho dropMembership mbox).Store := by
  refine ⟨?_, ?_, fun _ => SyncFifoQueue.new_wellFormed 0, fun _ => rfl⟩
  · rintro name q ⟨r, hlookup, -⟩
    cases hlookup
  · rintro name name' q ⟨r, hlookup, -⟩
    cases hlookup

/-- The queue has been handed out, and there is room in it. -/
def HasRoom (d : Dispatcher) (q : QueueId) : Prop :=
  q < d.nextQueue ∧ (d.queues q).currSize < (d.queues q).maxSize

theorem HasRoom.keeps {q : QueueId} (h : d.HasRoom q) (keeps : Keeps d d') : d'.HasRoom q := by
  refine ⟨Nat.lt_of_lt_of_le h.1 keeps.nextQueue, ?_⟩
  rw [keeps.queues q h.1]
  exact h.2

/-- The routing section hands out a queue with room. -/
theorem routeTo_hasRoom (h : d.Store) {b b' : Buffer} {q : QueueId}
    (hroute : d.routeTo b = .push q b') : d.HasRoom q := by
  obtain ⟨r, hlookup, rfl, -⟩ := World.routeTo_push hroute
  refine ⟨h.fresh _ _ ⟨r, hlookup, rfl⟩, ?_⟩
  have hnotFull : (d.queues r.queue).maxSize ≠ (d.queues r.queue).currSize := by
    intro hfull
    simp [routeTo, hlookup, SyncFifoQueue.criticalSection, hfull] at hroute
  have hbound := (h.wellFormed r.queue).bound
  omega

end Dispatcher

/-- A consumer makes room. -/
theorem criticalSection_pops {queue queue' : SyncFifoQueue Buffer} {isLocking : Bool}
    {ret : SyncFifoQueue.Ret Buffer} {notify : Bool} (wf : queue.WellFormed)
    (h : queue.criticalSection (if isLocking then .pop else .asyncPop) = .done queue' ret notify) :
    queue'.currSize ≤ queue.currSize ∧ queue'.maxSize = queue.maxSize ∧
      queue'.sigKill = queue.sigKill := by
  have hkill := SyncFifoQueue.criticalSection_sigKill h (by cases isLocking <;> simp)
    (by cases isLocking <;> simp)
  obtain ⟨data, hop, -⟩ | ⟨data, -, -, hq⟩ | ⟨hop, -⟩ | ⟨-, -, -, -, -, hsize, hmax⟩ :=
    SyncFifoQueue.criticalSection_done wf h
  · cases isLocking <;> cases hop
  · rw [hq]
    exact ⟨Nat.sub_le _ _, rfl, rfl⟩
  · cases isLocking <;> cases hop
  · exact ⟨hsize.le, hmax, hkill⟩

def WorkerPc.hasEnded : WorkerPc → Bool
  | .done _ => true
  | _ => false

namespace World

/-- A successful `start` finds no worker running. -/
def startsAlone (s : World) : Event → Bool
  | .start _ =>
      s.dispatcher.connStatus = .offline || s.dispatcher.activity = .started ||
        (List.range s.nextWorker).all fun w => (s.workers w).all WorkerPc.hasEnded
  | _ => true

/-- The thread sleeps on the condition variable of a queue. -/
def SleepsOnQueue (s : World) : Holder → Prop
  | .user t => ∃ q, s.users t = .popping q true ∧
      (s.dispatcher.queues q).criticalSection .pop = .wait
  | .worker w => ∃ q b, s.workers w = some (.push q b) ∧
      (s.dispatcher.queues q).criticalSection (.push b.copy) = .wait

/-- What carries the induction: only the one worker pushes, it has seen room, and who
waits in `stop` does nothing else. -/
structure Smooth (s : World) : Prop where
  store : s.dispatcher.Store
  single : ∀ w w', s.Running w → s.Running w' → w = w'
  room : ∀ w q b, s.workers w = some (.push q b) → s.dispatcher.HasRoom q
  stopUser : ∀ t, s.holder = some (.user t) → s.users t = .idle
  stopWorker : ∀ w, s.holder = some (.worker w) → s.workers w = some .stopping

variable {s s' : World} {d : Dispatcher}

theorem startsAlone_nobody {t : ThreadId} (numbered : s.Numbered)
    (online : s.dispatcher.connStatus = .online) (stopped : s.dispatcher.activity = .stopped)
    (h : s.startsAlone (.start t) = true) (w : WorkerId) : ¬ s.Running w := by
  rintro ⟨pc, at', hrunning⟩
  simp only [startsAlone, online, stopped, reduceCtorEq, decide_false, Bool.false_or,
    List.all_eq_true, List.mem_range] at h
  have hdone := h w (numbered.created w pc at')
  rw [at'] at hdone
  cases pc with
  | done why => exact hrunning why rfl
  | _ => cases hdone

/-- The worker moves on, in a state of the dispatcher with the queues it may use. -/
theorem Smooth.moveWorker (hs : s.Smooth) {w : WorkerId} {pc pc' : WorkerPc}
    (at' : s.workers w = some pc) (hrunning : ∀ why, pc ≠ .done why)
    (hfree : s.holder = none ∨ pc ≠ .stopping) (store : d.Store)
    (hroom : ∀ q b, pc' = .push q b → d.HasRoom q) :
    ((s.setDispatcher d).setWorker w pc').Smooth := by
  have hw : s.Running w := running_of_at at' hrunning
  have still : ∀ w', ((s.setDispatcher d).setWorker w pc').Running w' → w' = w := by
    intro w' h
    rw [running_setWorker] at h
    split at h
    · assumption
    · exact hs.single w' w h hw
  refine ⟨store, fun w₁ w₂ h₁ h₂ => (still w₁ h₁).trans (still w₂ h₂).symm, ?_, hs.stopUser, ?_⟩
  · intro w' q b hpush
    obtain rfl := still w' ⟨_, hpush, by simp⟩
    rw [setWorker_workers, Function.update_self] at hpush
    exact hroom q b (Option.some.inj hpush)
  · intro w' hholder
    have hwaiting := hs.stopWorker w' hholder
    exact (Function.update_of_ne (waiting_ne at' hfree hholder hwaiting) ..).trans hwaiting

/-- The dispatcher moves on and leaves the queues handed out alone. -/
theorem Smooth.setDispatcher (hs : s.Smooth) (store : d.Store)
    (keeps : ∀ q, s.dispatcher.HasRoom q → d.HasRoom q) : (s.setDispatcher d).Smooth :=
  ⟨store, hs.single, fun w q b hpush => keeps q (hs.room w q b hpush), hs.stopUser, hs.stopWorker⟩

theorem Smooth.release (hs : s.Smooth) {holder : Holder} (held : s.holder = some holder)
    (same : s.dispatcher.SameQueues d) : (s.release holder d).Smooth := by
  have hstore := hs.store.same same
  have hroom : ∀ q, s.dispatcher.HasRoom q → d.HasRoom q :=
    fun q h => h.keeps (.of_same same)
  have hfree : ({ s with dispatcher := d, holder := none } : World).Smooth :=
    ⟨hstore, hs.single, fun w q b hpush => hroom q (hs.room w q b hpush),
      (fun t h => by cases h), fun w h => by cases h⟩
  cases holder with
  | user t => exact hfree
  | worker w =>
      exact hfree.moveWorker (hs.stopWorker w held) (by simp) (.inl rfl) hstore (by simp)

theorem jobMove_smooth {w : WorkerId} {pc : WorkerPc} {o : Observation} (hs : s.Smooth)
    (at' : s.workers w = some pc) (move : JobMove s w pc s' o) : s'.Smooth := by
  cases move with
  | check free =>
      refine hs.moveWorker at' (by simp) (.inl free) hs.store fun q b h => ?_
      split at h <;> cases h
  | read reading traffic lands =>
      refine hs.moveWorker at' ?_ (.inr ?_) (hs.store.same traffic.sameQueues)
        fun q b h => absurd h (lands.ne_push q b)
      · rintro why rfl
        cases reading
      · rintro rfl
        cases reading
  | route free =>
      exact hs.moveWorker at' (by simp) (.inl free) hs.store
        fun q b h => Dispatcher.routeTo_hasRoom hs.store h
  | @push q b queue ret notify pushed =>
      have wf := SyncFifoQueue.criticalSection_wellFormed (hs.store.wellFormed q) pushed
      have hkill := SyncFifoQueue.criticalSection_sigKill pushed (by simp) (by simp)
      exact hs.moveWorker at' (by simp) (.inr (by simp))
        (hs.store.setQueue wf (hkill.trans (hs.store.unkilled q))) (by simp)
  | stopFails free => exact hs.moveWorker at' (by simp) (.inl free) hs.store (by simp)
  | @stopSends b sent free online started made =>
      have same := (sendMessageToGroup_traffic s.dispatcher b sent).sameQueues
      refine ⟨hs.store.same same, hs.single, fun w' q b' hpush => ?_, ?_, ?_⟩
      · exact (hs.room w' q b' hpush).keeps (.of_same same)
      · intro t hholder
        cases hholder
      · intro w' hholder
        cases hholder
        exact at'
  | @disconnects sent o free outcome =>
      have hstore := hs.store.shrinks (s.dispatcher.disconnect_shrinks sent)
      exact hs.moveWorker at' (by simp) (.inl free) hstore (by simp)

/-- Only a thread outside of the dispatcher enters `stop`. -/
theorem step_stop_idle {t : ThreadId} {sent : Bool} {o : Observation}
    (h : s.step (.stop t sent) = some (s', o)) : s.users t = .idle := by
  simp only [step] at h
  split at h
  · rename_i henters
    exact (enters_iff.mp henters).2
  · cases h

theorem step_smooth {e : Event} {o : Observation} (hs : s.Smooth) (numbered : s.Numbered)
    (alone : s.startsAlone e = true) (h : s.step e = some (s', o)) : s'.Smooth := by
  cases step_move h with
  | @perform t op sent =>
      exact hs.setDispatcher (hs.store.perform sent op)
        fun q hq => hq.keeps (s.dispatcher.perform_keeps sent op)
  | startFails => exact hs
  | @starts t free online stopped =>
      have hnobody := startsAlone_nobody numbered online stopped alone
      have hnew : s.workers s.nextWorker = none := by
        by_contra hne
        obtain ⟨pc, at'⟩ := Option.ne_none_iff_exists'.mp hne
        exact absurd (numbered.created _ pc at') (Nat.lt_irrefl _)
      have honly : ∀ w, (s.setWorker s.nextWorker .loop).Running w → w = s.nextWorker := by
        intro w hrun
        rw [running_setWorker] at hrun
        split at hrun
        · assumption
        · exact absurd hrun (hnobody w)
      refine ⟨hs.store.same ⟨rfl, rfl, rfl⟩, fun w w' hw hw' => ?_, fun w q b hpush => ?_,
        hs.stopUser, fun w hholder => ?_⟩
      · exact (honly w hw).trans (honly w' hw').symm
      · obtain rfl := honly w ⟨_, hpush, by simp⟩
        simp at hpush
      · have hholder : s.holder = some (.worker w) := hholder
        rw [free] at hholder
        cases hholder
  | stopFails => exact hs
  | @stopSends t b sent =>
      have hidle := step_stop_idle h
      have same := (sendMessageToGroup_traffic s.dispatcher b sent).sameQueues
      refine ⟨hs.store.same same, hs.single, fun w q b' hpush => ?_, ?_, ?_⟩
      · exact (hs.room w q b' hpush).keeps (.of_same same)
      · intro t' hholder
        cases hholder
        exact hidle
      · intro w hholder
        cases hholder
  | join held => exact hs.release held ⟨rfl, rfl, rfl⟩
  | timeOut held => exact hs.release held ⟨rfl, rfl, rfl⟩
  | receiveFails => exact hs
  | @receives t groupName isLocking r free idle found =>
      refine ⟨hs.store, hs.single, hs.room, fun t' hholder => ?_, hs.stopWorker⟩
      have hholder : s.holder = some (.user t') := hholder
      rw [free] at hholder
      cases hholder
  | @pop t q isLocking queue ret notify popping popped =>
      obtain ⟨hsize, hmax, hkill⟩ := criticalSection_pops (hs.store.wellFormed q) popped
      have wf := SyncFifoQueue.criticalSection_wellFormed (hs.store.wellFormed q) popped
      have hset := hs.setDispatcher (hs.store.setQueue wf (hkill.trans (hs.store.unkilled q)))
        fun q' hq' => ⟨hq'.1, Dispatcher.setQueue_room hmax hsize hq'.2⟩
      refine ⟨hset.store, hset.single, hset.room, fun t' hholder => ?_, hset.stopWorker⟩
      have hidle := hs.stopUser t' hholder
      by_cases hne : t' = t
      · rw [hne, setUser_users, Function.update_self]
      · rw [setUser_users, Function.update_of_ne hne]
        exact hidle
  | job at' move => exact jobMove_smooth hs at' move
  | traffic _ traffic =>
      exact hs.setDispatcher (hs.store.same traffic.sameQueues)
        fun q hq => hq.keeps (.of_same traffic.sameQueues)

theorem initial_smooth (clientName address : Str) (dropEcho dropMembership : Bool)
    (mbox : Spread.Mailbox) :
    (initial (.initial clientName address dropEcho dropMembership mbox)).Smooth := by
  refine ⟨Dispatcher.initial_store .., ?_, ?_, ?_, ?_⟩
  · rintro w w' ⟨pc, at', -⟩
    cases at'
  · intro w q b at'
    cases at'
  · intro t hholder
    cases hholder
  · intro w hholder
    cases hholder

/-- What a slow consumer must not change. -/
structure NeverStalls (s : World) : Prop where
  room : ∀ w q b, s.workers w = some (.push q b) →
    (s.dispatcher.queues q).deque.length < (s.dispatcher.queues q).maxSize
  pushes : ∀ w q b, s.workers w = some (.push q b) → ∃ queue,
    (s.dispatcher.queues q).criticalSection (.push b.copy) = .done queue .pushed true
  unheld : ∀ holder, s.holder = some holder → ¬ s.SleepsOnQueue holder
  /-- The routing section's look at a queue, under the mutex, is no wait. -/
  looks : ∀ q, ∃ queue answer,
    (s.dispatcher.queues q).criticalSection .isFull = .done queue (.full answer) false

theorem Smooth.neverStalls (hs : s.Smooth) : s.NeverStalls := by
  refine ⟨fun w q b hpush => ?_, fun w q b hpush => ?_, ?_, fun q => ⟨_, _, rfl⟩⟩
  · rw [← (hs.store.wellFormed q).count]
    exact (hs.room w q b hpush).2
  · exact ⟨_, SyncFifoQueue.criticalSection_push (hs.store.unkilled q) (hs.room w q b hpush).2 _⟩
  · rintro (t | w) held hsleeps
    · obtain ⟨q, hpopping, -⟩ := hsleeps
      rw [hs.stopUser t held] at hpopping
      cases hpopping
    · obtain ⟨q, b, hpush, -⟩ := hsleeps
      rw [hs.stopWorker w held] at hpush
      cases hpush

/-- **Slow consumers.** With one thread in `job()` at a time, and any calls beside it, a
worker that comes to its push finds room and is not made to wait, and no thread sleeps on
a queue with the dispatcher's mutex in its hands. -/
theorem never_stalls (clientName : Str)
    (h : (machine clientName).Reachable (fun s e => s.startsAlone e = true) s) :
    s.NeverStalls := by
  have hboth : s.Smooth ∧ s.Numbered := by
    refine h.invariant (I := fun s => s.Smooth ∧ s.Numbered) ?_ ?_
    · rintro _ ⟨address, dropEcho, dropMembership, mbox, rfl⟩
      have hnone : (machine clientName).Reachable (fun _ _ => True)
          (initial (.initial clientName address dropEcho dropMembership mbox)) :=
        ⟨_, [], ⟨address, dropEcho, dropMembership, mbox, rfl⟩, .nil⟩
      exact ⟨initial_smooth .., reachable_numbered hnone⟩
    · rintro a e b o ⟨ha, numbered⟩ alone move
      exact ⟨step_smooth ha numbered alone move, step_numbered numbered move⟩
  exact hboth.1.neverStalls

/-- The worker comes to its push with one place left, and a consumer that takes its time. -/
theorem never_stalls_push : ∃ s : World, (s.users 1 = .popping 1 true ∧
      (s.dispatcher.queues 1).currSize = 1 ∧ s.workers 0 = some (.push 1
        { data := [7], opCode := 5, groupName := demoGroup, sender := [35, 99]
          type := .default })) ∧ s.NeverStalls := by
  obtain ⟨s, hreach, hs⟩ := Machine.Reachable.exists_of_exec
    (fun s e => s.startsAlone e = true) demo_init
    [connects, registers, .start 0, .deliver 0 demoFrame, .deliver 0 demoFrame,
      .job 0 true, .job 0 true, .job 0 true, .job 0 true, .job 0 true, .job 0 true,
      .job 0 true, .receive 1 demoGroup true,
      .job 0 true, .job 0 true, .job 0 true, .job 0 true, .job 0 true, .job 0 true]
    (fun s => s.users 1 = .popping 1 true ∧ (s.dispatcher.queues 1).currSize = 1 ∧
      s.workers 0 = some (.push 1
        { data := [7], opCode := 5, groupName := demoGroup, sender := [35, 99]
          type := .default })) (by decide)
  exact ⟨s, hs, never_stalls demoClient hreach⟩

end World

end Netbroker
