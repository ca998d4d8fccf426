import Mathlib.Data.Set.Card
import Netbroker.Dispatcher.Activity
import Netbroker.Dispatcher.Store
import Netbroker.SyncQueue.Wakeup

/-!
# Consumers of a stopped dispatcher

`receiveMessageFromGroup` looks at `m_activity` before it blocks in `pop`, and `stop`
never touches the queues: a caller that is past its look waits for a message that
only a worker could push. It gets away if its queue already has a message for it
and for whoever else is about to take one.

`Served` carries the induction: while nobody will push, whoever may block is supplied. A
caller that takes a message takes itself off as well, so a supply stays one.
-/

namespace Netbroker

open Spread Transition

namespace Dispatcher

/-- Every registered queue has been handed out. -/
def Fresh (d : Dispatcher) : Prop := ∀ name q, d.Owns name q → q < d.nextQueue

/-- The queues handed out so far are left alone. -/
structure Keeps (d d' : Dispatcher) : Prop where
  nextQueue : d.nextQueue ≤ d'.nextQueue
  queues : ∀ q, q < d.nextQueue → d'.queues q = d.queues q
  fresh : d.Fresh → d'.Fresh

variable {d d' : Dispatcher}

theorem Keeps.of_shrinks (h : Shrinks d d') : Keeps d d' := by
  refine ⟨Nat.le_of_eq h.nextQueue.symm, fun q _ => ?_, fun hfresh name q howns => ?_⟩
  · rw [h.queues]
  · rw [h.nextQueue]
    exact hfresh name q (h.owns name q howns)

theorem Keeps.of_same (same : SameQueues d d') : Keeps d d' := .of_shrinks same.shrinks

theorem Keeps.of_extends (h : Extends d d') : Keeps d d' := by
  obtain same | ⟨g, n, hnew, same⟩ := h
  · exact .of_same same
  · refine ⟨?_, fun q hq => ?_, fun h name q howns => ?_⟩
    · rw [same.nextQueue]
      exact Nat.le_succ _
    · rw [same.queues, insertGroup_queues_of_ne (Nat.ne_of_lt hq)]
    · rw [same.nextQueue]
      rcases (insertGroup_owns hnew name q).mp ((same.owns name q).mp howns) with howns | ⟨-, rfl⟩
      · exact Nat.lt_succ_of_lt (h name q howns)
      · exact Nat.lt_succ_self _

theorem perform_keeps (d : Dispatcher) (sent : Bool) (op : Operation) :
    Keeps d (World.perform d sent op).2 := by
  obtain grows | shrinks := d.perform_registry sent op
  · exact .of_extends grows
  · exact .of_shrinks shrinks

end Dispatcher

namespace World

/-- `m_activity` is STOPPED and no thread executes `job()`. -/
def Idle (s : World) : Prop := s.dispatcher.activity = .stopped ∧ ∀ w, ¬ s.Running w

/-- The threads in `receiveMessageFromGroup` with the pointer to the queue. -/
def callers (s : World) (q : QueueId) : Set ThreadId := {t | ∃ b, s.users t = .popping q b}

/-- Some caller is blocked in `pop` and no worker will ever push. -/
def Stranded (s : World) : Prop :=
  s.Idle ∧ ∃ t q, s.users t = .popping q true ∧ (s.dispatcher.queues q).criticalSection .pop = .wait

/-- A queue with a caller that may block has a message for each of its callers. -/
def Supplied (s : World) : Prop :=
  ∀ t q, s.users t = .popping q true → (s.callers q).encard ≤ (s.dispatcher.queues q).currSize

/-- The worker of a stopped dispatcher takes its last step: it finds the dispatcher offline, it
meets a halting header, its `stop` throws, or its `disconnect` is over. -/
def endsJob (s : World) (w : WorkerId) (sent : Bool) : Bool :=
  match s.workers w with
  | some .loop => s.dispatcher.connStatus = .offline
  | some .stopping | some .disconnecting => true
  | _ => s.meetsHalt (.job w sent)

/-- The step lets the dispatcher come to rest: a user's `stop` is over and no worker is left, or
the dispatcher is stopped and its last worker ends. -/
def ComesToRest (s : World) : Event → Prop
  | .join | .timeOut => (∃ t, s.holder = some (.user t)) ∧ ∀ w, ¬ s.Running w
  | .job w sent => s.dispatcher.activity = .stopped ∧ (∀ w', s.Running w' → w' = w) ∧
      s.endsJob w sent = true
  | _ => False

/-- If the step lets the dispatcher come to rest, the callers are supplied. -/
def Supplies (s : World) (e : Event) : Prop := ¬ s.Idle → s.ComesToRest e → s.Supplied

/-- A worker that has moved was the last one if nobody runs behind its step. -/
theorem idle_moved {s : World} {d : Dispatcher} {w : WorkerId} {pc : WorkerPc}
    (hactivity : d.activity = .stopped ↔ s.dispatcher.activity = .stopped) :
    ((s.setDispatcher d).setWorker w pc).Idle ↔ s.dispatcher.activity = .stopped ∧
      (∀ w', s.Running w' → w' = w) ∧ ∃ why, pc = .done why := by
  refine and_congr hactivity ⟨fun h => ⟨fun w' hrun => ?_, ?_⟩, ?_⟩
  · by_contra hne
    refine h w' (running_setWorker.mpr ?_)
    rw [if_neg hne]
    exact hrun
  · by_contra hruns
    refine h w (running_setWorker.mpr ?_)
    rw [if_pos rfl]
    exact fun why hpc => hruns ⟨why, hpc⟩
  · rintro ⟨hlast, why, rfl⟩ w' hrun
    rw [running_setWorker] at hrun
    split at hrun
    · exact hrun why rfl
    · rename_i hne
      exact hne (hlast w' hrun)

theorem idle_release {s : World} {holder : Holder} {d : Dispatcher}
    (hstopped : d.activity = .stopped) : (s.release holder d).Idle ↔
      (∃ t, holder = .user t) ∧ ∀ w, ¬ s.Running w := by
  cases holder with
  | user t => exact ⟨fun h => ⟨⟨t, rfl⟩, h.2⟩, fun h => ⟨hstopped, h.2⟩⟩
  | worker w =>
      constructor
      · intro h
        exact absurd ⟨.disconnecting, Function.update_self .., by simp⟩ (h.2 w)
      · rintro ⟨⟨t, h⟩, -⟩
        cases h

/-- The last step of the last worker, seen from the state before it. -/
theorem jobMove_idle {s s' : World} {w : WorkerId} {sent : Bool} {pc : WorkerPc}
    {o : Observation} (at' : s.workers w = some pc) (h : s.step (.job w sent) = some (s', o))
    (move : JobMove s w pc s' o) : s.ComesToRest (.job w sent) ↔ s'.Idle := by
  have moved : ∀ {d : Dispatcher} {pc' : WorkerPc},
      (d.activity = .stopped ↔ s.dispatcher.activity = .stopped) →
      (s.endsJob w sent = true ↔ ∃ why, pc' = .done why) →
      (s.ComesToRest (.job w sent) ↔ ((s.setDispatcher d).setWorker w pc').Idle) :=
    fun hactivity hends => by rw [idle_moved hactivity, ComesToRest, hends]
  cases move with
  | check =>
      refine moved (d := s.dispatcher) Iff.rfl ?_
      obtain honline | hoffline := s.dispatcher.connStatus.online_or_offline
      · simp [endsJob, at', Dispatcher.isOnline, honline]
      · simp [endsJob, at', Dispatcher.isOnline, hoffline]
  | @read _ pc' d _ reading traffic lands =>
      refine moved (by rw [traffic.activity]) ?_
      have hends : s.endsJob w sent = s.meetsHalt (.job w sent) := by
        cases pc <;> simp [WorkerPc.isReading] at reading <;> simp [endsJob, at']
      rw [hends]
      constructor
      · intro meets
        exact ⟨.halted, setWorker_at (halted_of_meetsHalt h meets)⟩
      · rintro ⟨why, rfl⟩
        obtain rfl := lands.ends.2 why rfl
        exact meetsHalt_of_halted h (by simp)
  | @route b =>
      refine moved (d := s.dispatcher) Iff.rfl ?_
      simp [endsJob, meetsHalt, at', (routeTo_stays s.dispatcher b).2]
  | push => exact moved Iff.rfl (by simp [endsJob, meetsHalt, at'])
  | stopFails => exact moved (d := s.dispatcher) Iff.rfl (by simp [endsJob, at'])
  | @stopSends b sent' _ _ started =>
      have traffic := sendMessageToGroup_traffic s.dispatcher b sent'
      refine iff_of_false (fun hrest => ?_) fun hidle => ?_
      · have hstopped := hrest.1
        rw [started] at hstopped
        cases hstopped
      · have hstopped := hidle.1
        rw [traffic.activity, started] at hstopped
        cases hstopped
  | @disconnects sent' =>
      refine moved ?_ (by simp [endsJob, at'])
      obtain hsame | ⟨hstopped, -, hstopped', -⟩ := s.dispatcher.disconnect_status sent'
      · rw [hsame.activity]
      · exact iff_of_true hstopped' hstopped

/-- Where a step brings the dispatcher to rest can be seen from the state before it. -/
theorem comesToRest_iff {s s' : World} {e : Event} {o : Observation} (hidle : ¬ s.Idle)
    (h : s.step e = some (s', o)) : s.ComesToRest e ↔ s'.Idle := by
  have still : ∀ {t : World}, t.dispatcher.activity = s.dispatcher.activity →
      t.workers = s.workers → ¬ t.Idle := by
    intro t hactivity hworkers hrest
    exact hidle ⟨hactivity.symm.trans hrest.1, fun w ⟨pc, at', hpc⟩ =>
      hrest.2 w ⟨pc, (congrFun hworkers w).trans at', hpc⟩⟩
  cases step_move h with
  | @perform t op sent =>
      exact iff_of_false id (still (s.dispatcher.perform_status sent op).1 rfl)
  | startFails => exact iff_of_false id (still rfl rfl)
  | starts => exact iff_of_false id fun hrest => nomatch hrest.1
  | stopFails => exact iff_of_false id (still rfl rfl)
  | @stopSends t b sent _ _ started =>
      exact iff_of_false id (still (sendMessageToGroup_traffic s.dispatcher b sent).activity rfl)
  | join held => rw [idle_release rfl, ComesToRest, held]; simp
  | timeOut held => rw [idle_release rfl, ComesToRest, held]; simp
  | receiveFails => exact iff_of_false id (still rfl rfl)
  | receives => exact iff_of_false id (still rfl rfl)
  | pop => exact iff_of_false id (still rfl rfl)
  | job at' move => exact jobMove_idle at' h move
  | traffic network traffic =>
      obtain ⟨mbox, ⟨f, rfl⟩ | rfl | rfl⟩ := network
      all_goals exact iff_of_false id (still traffic.activity rfl)

/-- What a step does to the callers: nothing, or one of them has come in or gone out, or
a worker is still at work. -/
theorem step_callers {s s' : World} {e : Event} {o : Observation} (h : s.step e = some (s', o)) :
    (s'.users = s.users ∧ s.dispatcher.Keeps s'.dispatcher) ∨
      (∃ t q b name, e = .receive t name b ∧ s.dispatcher.activity = .started ∧
        s.dispatcher.Owns name q ∧ s' = s.setUser t (.popping q b)) ∨
      (∃ t q b queue ret notify, s.users t = .popping q b ∧
        (s.dispatcher.queues q).criticalSection (if b then .pop else .asyncPop) =
          .done queue ret notify ∧
        s' = (s.setDispatcher (s.dispatcher.setQueue q queue)).setUser t .idle) ∨
      (∃ w q queue, s' = (s.setDispatcher (s.dispatcher.setQueue q queue)).setWorker w .loop) := by
  have same : ∀ {t : World}, t.users = s.users → s.dispatcher.SameQueues t.dispatcher →
      t.users = s.users ∧ s.dispatcher.Keeps t.dispatcher :=
    fun husers hqueues => ⟨husers, .of_same hqueues⟩
  cases step_move h with
  | @perform t op sent => exact .inl ⟨rfl, s.dispatcher.perform_keeps sent op⟩
  | startFails => exact .inl (same rfl (.refl _))
  | starts => exact .inl (same rfl ⟨rfl, rfl, rfl⟩)
  | stopFails => exact .inl (same rfl (.refl _))
  | stopSends => exact .inl (same rfl (sendMessageToGroup_traffic ..).sameQueues)
  | @join holder => cases holder <;> exact .inl (same rfl ⟨rfl, rfl, rfl⟩)
  | @timeOut holder => cases holder <;> exact .inl (same rfl ⟨rfl, rfl, rfl⟩)
  | receiveFails => exact .inl (same rfl (.refl _))
  | @receives t groupName isLocking r free idle found =>
      refine .inr (.inl ⟨t, r.queue, isLocking, groupName, rfl, ?_, ⟨r, found, rfl⟩, rfl⟩)
      simp only [step] at h
      split at h
      · obtain hstarted | hstopped := s.dispatcher.activity.started_or_stopped
        · exact hstarted
        · -- a stopped dispatcher looks nothing up
          simp only [Dispatcher.findQueue, hstopped, if_true] at h
          have hidle := congrFun (congrArg World.users (Prod.mk.inj (Option.some.inj h)).1) t
          rw [idle] at hidle
          simp at hidle
      · cases h
  | @pop t q isLocking queue ret notify popping popped =>
      exact .inr (.inr (.inl ⟨t, q, isLocking, queue, ret, notify, popping, popped, rfl⟩))
  | @job w sent pc s' o at' move =>
      cases move with
      | check => exact .inl (same rfl (.refl _))
      | read _ traffic => exact .inl (same rfl traffic.sameQueues)
      | route => exact .inl (same rfl (.refl _))
      | push => exact .inr (.inr (.inr ⟨_, _, _, rfl⟩))
      | stopFails => exact .inl (same rfl (.refl _))
      | stopSends => exact .inl (same rfl (sendMessageToGroup_traffic ..).sameQueues)
      | @disconnects sent' => exact .inl ⟨rfl, .of_shrinks (s.dispatcher.disconnect_shrinks sent')⟩
  | traffic _ traffic => exact .inl (same rfl traffic.sameQueues)

/-- A consumer that returns takes at most one message. -/
theorem criticalSection_takes {queue queue' : SyncFifoQueue Buffer} {b : Bool}
    {ret : SyncFifoQueue.Ret Buffer} {notify : Bool}
    (h : queue.criticalSection (if b then .pop else .asyncPop) = .done queue' ret notify) :
    queue.currSize - 1 ≤ queue'.currSize := by
  have take : queue.takeFront = .done queue' ret notify →
      queue.currSize - 1 ≤ queue'.currSize := by
    intro htake
    rw [SyncFifoQueue.takeFront] at htake
    split at htake <;> cases htake
    · exact Nat.sub_le _ _
    · exact Nat.le_refl _
  have stays : ∀ {ret' : SyncFifoQueue.Ret Buffer},
      SyncFifoQueue.Outcome.done queue ret' false = .done queue' ret notify →
        queue.currSize - 1 ≤ queue'.currSize := by
    intro ret' hsame
    cases hsame
    exact Nat.sub_le _ _
  cases b <;> simp only [SyncFifoQueue.criticalSection, if_true, if_false, Bool.false_eq_true] at h
  all_goals
    split at h
    · first | exact stays h | cases h
    · split at h
      · exact stays h
      · exact take h

/-- What carries the induction: pointers are to queues handed out, and while nobody will
push, whoever may block is supplied. -/
structure Served (s : World) : Prop where
  fresh : s.dispatcher.Fresh
  handed : ∀ t q b, s.users t = .popping q b → q < s.dispatcher.nextQueue
  supplied : s.Idle → s.Supplied

theorem Supplied.keeps {s s' : World} (hs : s.Supplied)
    (handed : ∀ t q b, s.users t = .popping q b → q < s.dispatcher.nextQueue)
    (husers : s'.users = s.users) (keeps : s.dispatcher.Keeps s'.dispatcher) : s'.Supplied := by
  intro t q hpopping
  rw [husers] at hpopping
  rw [callers, husers, keeps.queues q (handed t q true hpopping)]
  exact hs t q hpopping

/-- The caller that pops is one less. -/
theorem Supplied.pop {s : World} {t : ThreadId} {q : QueueId} {b : Bool}
    {queue : SyncFifoQueue Buffer} (hs : s.Supplied) (popping : s.users t = .popping q b)
    (takes : (s.dispatcher.queues q).currSize - 1 ≤ queue.currSize) :
    ((s.setDispatcher (s.dispatcher.setQueue q queue)).setUser t .idle).Supplied := by
  intro t' q' hpopping
  have hne : t' ≠ t := by
    rintro rfl
    rw [setUser_users, Function.update_self] at hpopping
    cases hpopping
  rw [setUser_users, Function.update_of_ne hne] at hpopping
  have hbound := hs t' q' hpopping
  have hmem : t ∈ s.callers q := ⟨b, popping⟩
  have hcallers : ((s.setDispatcher (s.dispatcher.setQueue q queue)).setUser t .idle).callers q' =
      s.callers q' \ {t} := by
    ext u
    by_cases hu : u = t
    · subst hu
      simp [callers]
    · simp [callers, hu]
  rw [hcallers, setUser_dispatcher, setDispatcher_dispatcher]
  by_cases hq : q' = q
  · subst hq
    rw [Dispatcher.setQueue_queues_self, Set.encard_sdiff_singleton_of_mem hmem]
    refine le_trans (tsub_le_tsub_right hbound 1) ?_
    exact_mod_cast takes
  · rw [Dispatcher.setQueue_queues_of_ne _ hq]
    exact (Set.encard_le_encard Set.sdiff_subset).trans hbound

theorem step_served {s s' : World} {e : Event} {o : Observation} (hs : s.Served)
    (supplies : s.Supplies e) (h : s.step e = some (s', o)) : s'.Served := by
  have hsupplied : s'.Idle → s.Supplied := by
    intro hidle'
    by_cases hidle : s.Idle
    · exact hs.supplied hidle
    · exact supplies hidle ((comesToRest_iff hidle h).mpr hidle')
  obtain ⟨husers, keeps⟩ | ⟨t, q, b, name, -, hstarted, howns, rfl⟩ |
    ⟨t, q, b, queue, ret, notify, popping, popped, rfl⟩ | ⟨w, q, queue, rfl⟩ := step_callers h
  · refine ⟨keeps.fresh hs.fresh, fun t q b hpopping => ?_, fun hidle' => ?_⟩
    · rw [husers] at hpopping
      exact Nat.lt_of_lt_of_le (hs.handed t q b hpopping) keeps.nextQueue
    · exact (hsupplied hidle').keeps hs.handed husers keeps
  · refine ⟨hs.fresh, fun t' q' b' hpopping => ?_, fun hidle' => ?_⟩
    · obtain ⟨-, hpc⟩ | ⟨-, hold⟩ := setUser_inv hpopping
      · cases hpc
        exact hs.fresh name _ howns
      · exact hs.handed t' q' b' hold
    · have hstopped : s.dispatcher.activity = .stopped := hidle'.1
      rw [hstarted] at hstopped
      cases hstopped
  · refine ⟨hs.fresh, fun t' q' b' hpopping => ?_, fun hidle' => ?_⟩
    · obtain ⟨-, hpc⟩ | ⟨-, hold⟩ := setUser_inv hpopping
      · cases hpc
      · exact hs.handed t' q' b' hold
    · exact (hsupplied hidle').pop popping (criticalSection_takes popped)
  · refine ⟨hs.fresh, hs.handed, fun hidle' => ?_⟩
    exact absurd ⟨.loop, Function.update_self .., by simp⟩ (hidle'.2 w)

theorem initial_served (clientName address : Str) (dropEcho dropMembership : Bool)
    (mbox : Mailbox) :
    (initial (.initial clientName address dropEcho dropMembership mbox)).Served := by
  refine ⟨?_, (fun t q b h => nomatch h), fun _ t q h => nomatch h⟩
  rintro name q ⟨r, hlookup, -⟩
  cases hlookup

theorem Served.not_stranded {s : World} (hs : s.Served) : ¬ s.Stranded := by
  rintro ⟨hidle, t, q, popping, hwait⟩
  have hbound := hs.supplied hidle t q popping
  have hempty : (s.dispatcher.queues q).currSize = 0 := by
    obtain ⟨-, hstarves⟩ := SyncFifoQueue.criticalSection_wait.mp hwait
    exact of_decide_eq_true hstarves
  rw [hempty, Nat.cast_zero, nonpos_iff_eq_zero, Set.encard_eq_zero] at hbound
  have hmem : t ∈ s.callers q := ⟨true, popping⟩
  rw [hbound] at hmem
  exact hmem

/-- **Consumers.** In a run in which the dispatcher never comes to rest with a caller that
may block and fewer messages in its queue than callers for them, no caller is blocked
while the dispatcher is stopped and `job()` empty. -/
theorem none_stranded (clientName : Str) {s : World}
    (h : (machine clientName).Reachable Supplies s) : ¬ s.Stranded := by
  refine Served.not_stranded (h.invariant ?_ fun _ _ _ _ hs legal move => step_served hs legal move)
  rintro _ ⟨address, dropEcho, dropMembership, mbox, rfl⟩
  exact initial_served ..

/-- Thread 1 is the only consumer, and while it may block there is a message for it. -/
def servesFirst (s : World) (e : Event) : Bool :=
  (match e with
    | .receive t _ _ => t = 1
    | _ => true) &&
  match s.users 1 with
  | .popping q true => 1 ≤ (s.dispatcher.queues q).currSize
  | _ => true

theorem supplies_of_servesFirst {s : World} {e : Event} (honly : ∀ t, t ≠ 1 → s.users t = .idle)
    (h : s.servesFirst e = true) : s.Supplies e := by
  intro _ _ t q hpopping
  have only : ∀ {u q b}, s.users u = .popping q b → u = 1 := by
    intro u q b hu
    by_contra hne
    rw [honly u hne] at hu
    cases hu
  obtain rfl := only hpopping
  have hsub : s.callers q ⊆ {1} := fun u ⟨b, hu⟩ => only hu
  have hone : (s.callers q).encard ≤ 1 := by
    rw [← Set.encard_singleton 1]
    exact Set.encard_le_encard hsub
  simp only [servesFirst, hpopping, Bool.and_eq_true, decide_eq_true_eq] at h
  exact hone.trans (by exact_mod_cast h.2)

theorem step_first {s s' : World} {e : Event} {o : Observation}
    (honly : ∀ t, t ≠ 1 → s.users t = .idle) (h : s.servesFirst e = true)
    (hstep : s.step e = some (s', o)) : ∀ t, t ≠ 1 → s'.users t = .idle := by
  intro u hu
  obtain ⟨husers, -⟩ | ⟨t, q, b, name, rfl, -, -, rfl⟩ | ⟨t, q, b, queue, ret, notify, -, -, rfl⟩ |
    ⟨w, q, queue, rfl⟩ := step_callers hstep
  · rw [husers]
    exact honly u hu
  · simp only [servesFirst, Bool.and_eq_true, decide_eq_true_eq] at h
    obtain ⟨rfl, -⟩ := h
    rw [setUser_users, Function.update_of_ne hu]
    exact honly u hu
  · by_cases ht : u = t
    · rw [ht, setUser_users, Function.update_self]
    · rw [setUser_users, Function.update_of_ne ht]
      exact honly u hu
  · exact honly u hu

/-- Another client's message for the group `g`. -/
def demoFrame : Frame :=
  { type := safeMess, oldType := 0, sender := [35, 99], groups := [demoGroup], messType := 5
    body := [7] }

/-- The dispatcher is stopped before its consumer has taken the message. -/
theorem none_stranded_served : ∃ s : World, s.users 1 = .popping 1 true ∧
    s.dispatcher.activity = .stopped ∧ s.workers 0 = some (.done .halted) ∧ ¬ s.Stranded := by
  obtain ⟨trace, s, run, hpopping, hstopped, hdone⟩ := Machine.Run.exists_of_exec
    (machine demoClient) (fun s e => s.servesFirst e = true) demo
    [connects, registers, .start 0, .job 0 true, .job 0 true, .deliver 0 demoFrame,
      .job 0 true, .job 0 true, .job 0 true, .job 0 true, .job 0 true, .receive 1 demoGroup true,
      .job 0 true, .job 0 true, .stop 0 true, .order 0, .job 0 true, .job 0 true, .job 0 true, .join]
    (fun _ s => s.users 1 = .popping 1 true ∧ s.dispatcher.activity = .stopped ∧
      s.workers 0 = some (.done .halted)) (by decide)
  have supplied := (run.strengthen (I := fun s => ∀ t, t ≠ 1 → s.users t = .idle)
    (fun _ _ => rfl) fun _ _ _ _ honly h move => step_first honly h move).mono
      fun _ _ h => supplies_of_servesFirst h.1 h.2
  exact ⟨s, hpopping, hstopped, hdone, none_stranded demoClient ⟨demo, trace, demo_init, supplied⟩⟩

/-- Workers are numbered as `start` creates them. -/
structure Numbered (s : World) : Prop where
  created : ∀ w pc, s.workers w = some pc → w < s.nextWorker
  waiting : ∀ w, s.holder = some (.worker w) → w < s.nextWorker

theorem Numbered.setWorker {s : World} (hs : s.Numbered) {w : WorkerId} {pc : WorkerPc}
    (hw : w < s.nextWorker) : (s.setWorker w pc).Numbered := by
  refine ⟨fun w' pc' at' => ?_, hs.waiting⟩
  obtain ⟨rfl, -⟩ | ⟨-, hold⟩ := setWorker_inv at'
  · exact hw
  · exact hs.created w' pc' hold

theorem Numbered.release {s : World} (hs : s.Numbered) {holder : Holder} {d : Dispatcher}
    (held : s.holder = some holder) : (s.release holder d).Numbered := by
  have hfree : ({ s with dispatcher := d, holder := none } : World).Numbered :=
    ⟨hs.created, fun _ h => nomatch h⟩
  cases holder with
  | user => exact hfree
  | worker w => exact hfree.setWorker (hs.waiting w held)

theorem step_numbered {s s' : World} {e : Event} {o : Observation} (hs : s.Numbered)
    (h : s.step e = some (s', o)) : s'.Numbered := by
  cases step_move h with
  | @starts t free =>
      refine ⟨fun w pc at' => ?_, fun w hholder => Nat.lt_succ_of_lt (hs.waiting w hholder)⟩
      by_cases hw : w = s.nextWorker
      · rw [hw]
        exact Nat.lt_succ_self _
      · have hold : Function.update s.workers s.nextWorker (some .loop) w = some pc := at'
        rw [Function.update_of_ne hw] at hold
        exact Nat.lt_succ_of_lt (hs.created w pc hold)
  | stopSends => exact ⟨hs.created, fun _ hholder => nomatch hholder⟩
  | join held => exact hs.release held
  | timeOut held => exact hs.release held
  | @job w sent pc s' o at' move =>
      have hw := hs.created w pc at'
      have moved : ∀ {d : Dispatcher} {pc' : WorkerPc},
          ((s.setDispatcher d).setWorker w pc').Numbered :=
        fun {d _} => Numbered.setWorker (s := s.setDispatcher d) ⟨hs.created, hs.waiting⟩ hw
      cases move with
      | stopSends =>
          refine ⟨hs.created, fun w' hholder => ?_⟩
          cases hholder
          exact hw
      | _ => exact moved
  | _ => exact ⟨hs.created, hs.waiting⟩

theorem reachable_numbered {clientName : Str} {legal : World → Event → Prop} {s : World}
    (h : (machine clientName).Reachable legal s) : s.Numbered := by
  refine h.invariant ?_ fun _ _ _ _ hs _ move => step_numbered hs move
  rintro _ ⟨address, dropEcho, dropMembership, mbox, rfl⟩
  exact ⟨(fun w pc h => nomatch h), fun w h => nomatch h⟩

/-- The dispatcher is stopped while a consumer waits. -/
theorem consumer_stranded : ¬ ∀ s : World, (machine demoClient).Reachable (fun _ _ => True) s →
    ¬ s.Stranded := by
  intro hall
  obtain ⟨s, hreach, hpopping, hlive, hempty, hstopped, hdone, hone⟩ :=
    Machine.Reachable.exists_of_exec (M := machine demoClient) (fun _ _ => True) demo_init
      [connects, registers, .start 0, .receive 1 demoGroup true, .job 0 true, .job 0 true,
        .stop 0 true, .order 0, .job 0 true, .job 0 true, .job 0 true, .join]
      (fun s => s.users 1 = .popping 1 true ∧ (s.dispatcher.queues 1).sigKill = false ∧
        (s.dispatcher.queues 1).starves .pop = true ∧ s.dispatcher.activity = .stopped ∧
        s.workers 0 = some (.done .halted) ∧ s.nextWorker = 1) (by decide)
  refine hall s hreach ⟨⟨hstopped, ?_⟩, 1, 1, hpopping,
    SyncFifoQueue.criticalSection_wait.mpr ⟨hlive, hempty⟩⟩
  rintro w ⟨pc, at', hrunning⟩
  have hlt := (reachable_numbered hreach).created w pc at'
  rw [hone] at hlt
  obtain rfl : w = 0 := Nat.lt_one_iff.mp hlt
  exact hrunning .halted (Option.some.inj (at'.symm.trans hdone))

end World

end Netbroker
