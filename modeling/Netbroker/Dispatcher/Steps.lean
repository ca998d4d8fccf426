import Netbroker.Dispatcher.World

/-!
# What a step can do

One lemma for each operation of the dispatcher, and one inversion for the steps of
a worker and of the world. The invariants of the dispatcher are read off these.

`Traffic` is what calls on the network leave of a dispatcher, the session aside. The `_cases`
lemmas say how an operation ends, `JobMove` where a step of `job()` leads, and `Move` which
steps the world has, each with everything that the step has found.
-/

namespace Netbroker

open Spread

/-- Frames come and go and sessions break; everything else stays, down to the open
sessions and the groups they have joined. -/
structure Traffic (d d' : Dispatcher) : Prop where
  fields : d' = { d with
    connection := { d.connection with spread := d'.connection.spread } }
  opened : d'.connection.spread.opened = d.connection.spread.opened
  joined : ∀ mbox, (d'.connection.spread.sessions mbox).map (·.joined) =
    (d.connection.spread.sessions mbox).map (·.joined)

namespace Traffic

variable {d d' : Dispatcher}

theorem refl (d : Dispatcher) : Traffic d d := ⟨rfl, rfl, fun _ => rfl⟩

theorem connector (h : Traffic d d') : d'.connection.connector = d.connection.connector := by
  rw [h.fields]

theorem connStatus (h : Traffic d d') : d'.connStatus = d.connStatus := by rw [h.fields]

theorem activity (h : Traffic d d') : d'.activity = d.activity := by rw [h.fields]

theorem thread (h : Traffic d d') : d'.thread = d.thread := by rw [h.fields]

theorem groups (h : Traffic d d') : d'.groups = d.groups := by rw [h.fields]

theorem sendOnlyGroups (h : Traffic d d') : d'.sendOnlyGroups = d.sendOnlyGroups := by
  rw [h.fields]

theorem queues (h : Traffic d d') : d'.queues = d.queues := by rw [h.fields]

theorem nextQueue (h : Traffic d d') : d'.nextQueue = d.nextQueue := by rw [h.fields]

theorem controlGroup (h : Traffic d d') : d'.controlGroup = d.controlGroup := by
  rw [Dispatcher.controlGroup, h.connector, Dispatcher.controlGroup]

/-- Replacing one session by another with the same groups. -/
theorem of_set (d : Dispatcher) {mbox : Mailbox} {session session' : Session}
    (hsession : d.connection.spread.sessions mbox = some session)
    (hjoined : session'.joined = session.joined) :
    Traffic d (d.setSession mbox session') := by
  refine ⟨rfl, rfl, fun other => ?_⟩
  by_cases hother : other = mbox
  · subst hother
    simp [Dispatcher.setSession, hsession, hjoined]
  · simp [Dispatcher.setSession, Library.set_sessions_of_ne _ hother]

end Traffic

theorem sendMessageToGroup_traffic (d : Dispatcher) (b : Buffer) (sent : Bool) :
    Traffic d (d.sendMessageToGroup b sent).2 := by
  simp only [Dispatcher.sendMessageToGroup, Connection.sendToGroup, Spread.multicast]
  split
  · exact .refl d
  · split
    · exact .refl d
    · rcases internalMulticast_cases d.connection.spread d.connection.connector.spreadMbox sent
        b.data.length (fun s => s.echo
          { type := safeMess, oldType := 0, sender := s.privateGroup
            groups := [(cstr b.groupName).take (maxGroupName - 1)], messType := b.opCode
            body := b.data }) with h | ⟨session, hsession, h | h⟩
      · rw [h]; exact .refl d
      · rw [h]; exact .of_set d hsession rfl
      · rw [h]; exact .of_set d hsession (Session.echo_joined ..)

theorem deliver_traffic {d : Dispatcher} {mbox : Mailbox} {f : Frame} {spread : Library}
    (h : deliver d.connection.spread mbox f = some spread) :
    Traffic d { d with connection := { d.connection with spread } } := by
  rw [deliver] at h
  split at h
  · cases h
  · rename_i session hsession
    split at h
    · cases h
    · obtain rfl := Option.some.inj h
      exact .of_set d hsession rfl

theorem order_traffic {d : Dispatcher} {mbox : Mailbox} {spread : Library}
    (h : order d.connection.spread mbox = some spread) :
    Traffic d { d with connection := { d.connection with spread } } := by
  rw [order] at h
  split at h
  · cases h
  · rename_i session hsession
    split at h
    · cases h
    · split at h
      · cases h
      · obtain rfl := Option.some.inj h
        exact .of_set d hsession rfl

theorem hangUp_traffic {d : Dispatcher} {mbox : Mailbox} {spread : Library}
    (h : hangUp d.connection.spread mbox = some spread) :
    Traffic d { d with connection := { d.connection with spread } } := by
  rw [hangUp] at h
  split at h
  · cases h
  · rename_i session hsession
    obtain rfl := Option.some.inj h
    exact .of_set d hsession rfl

namespace Dispatcher

/-- `registerGroup` throws at once, adds a send-only group, or inserts the group with
a new queue: online it joins it, offline it throws all the same. -/
theorem registerGroup_cases (d : Dispatcher) (groupName : Str) (bufferSize : Int)
    (queueSize : Nat) (sendOnly sent : Bool) :
    (∃ e, d.registerGroup groupName bufferSize queueSize sendOnly sent = (.error e, d)) ∨
      (sendOnly = true ∧ d.registerGroup groupName bufferSize queueSize sendOnly sent =
        (.ok (), { d with
          sendOnlyGroups := d.sendOnlyGroups ++ [Group.new groupName bufferSize queueSize] })) ∨
      (sendOnly = false ∧ bufferSize ≤ 92160 ∧ groupName.length < maxGroupName ∧
        groupName ∉ d.groups ∧ ((d.connStatus = .online ∧
            d.registerGroup groupName bufferSize queueSize sendOnly sent =
              (.ok (), { d.insertGroup (Group.new groupName bufferSize queueSize) queueSize with
                connection := (d.connection.joinGroup sent groupName).2 })) ∨
          (d.connStatus = .offline ∧
            d.registerGroup groupName bufferSize queueSize sendOnly sent =
              (.error .networkNotConnected,
                d.insertGroup (Group.new groupName bufferSize queueSize) queueSize)))) := by
  by_cases hsize : 92160 < bufferSize
  · exact .inl ⟨.bufferSizeExceeded, by simp [registerGroup, hsize]⟩
  by_cases hlength : maxGroupName ≤ groupName.length
  · exact .inl ⟨.groupNameExceeded, by simp [registerGroup, hsize, hlength]⟩
  by_cases hmem : groupName ∈ d.groups
  · exact .inl ⟨.groupRegistered groupName, by simp [registerGroup, hsize, hlength, hmem]⟩
  cases sendOnly with
  | true =>
      by_cases hknown : d.sendOnlyGroups.any (·.name = groupName) = true
      · exact .inl ⟨.sendOnlyGroupRegistered groupName, by
          simp only [registerGroup, hsize, hlength, hmem, hknown, if_true, if_false]⟩
      · refine .inr (.inl ⟨rfl, ?_⟩)
        simp only [registerGroup, hsize, hlength, hmem, hknown, if_true, if_false]
        simp
  | false =>
      refine .inr (.inr ⟨rfl, by omega, by omega, hmem, ?_⟩)
      have hinserted :
          (d.insertGroup (Group.new groupName bufferSize queueSize) queueSize).connStatus =
            d.connStatus := rfl
      obtain hstatus | hstatus := d.connStatus.online_or_offline
      · refine .inl ⟨hstatus, ?_⟩
        simp only [registerGroup, hsize, hlength, hmem, if_false, Bool.false_eq_true, hinserted,
          hstatus]
        rfl
      · refine .inr ⟨hstatus, ?_⟩
        simp only [registerGroup, hsize, hlength, hmem, if_false, Bool.false_eq_true, hinserted,
          hstatus]

/-- `unregisterGroup` throws and changes nothing, returns after looking at the first
send-only group, or leaves the group and erases it. -/
theorem unregisterGroup_cases (d : Dispatcher) (groupName : Str) (sent : Bool) :
    (∃ e, d.unregisterGroup groupName sent = (.error e, d)) ∨
      (∃ first rest, d.sendOnlyGroups = first :: rest ∧ groupName.length < maxGroupName ∧
        d.unregisterGroup groupName sent = (.ok (),
          if first.name = groupName then { d with sendOnlyGroups := rest } else d)) ∨
      (d.sendOnlyGroups = [] ∧ groupName.length < maxGroupName ∧ groupName ∈ d.groups ∧
        d.connStatus = .online ∧ d.unregisterGroup groupName sent = (.ok (),
          { d with
            connection := (d.connection.leaveGroup sent groupName).2
            groups := d.groups.erase groupName })) := by
  rw [unregisterGroup]
  split
  · exact .inl ⟨_, rfl⟩
  · rename_i hlength
    split
    · rename_i first rest hgroups
      exact .inr (.inl ⟨first, rest, hgroups, by omega, rfl⟩)
    · rename_i hgroups
      split
      · rename_i hmem
        cases hstatus : d.connStatus with
        | online => exact .inr (.inr ⟨hgroups, by omega, hmem, rfl, rfl⟩)
        | offline => exact .inl ⟨_, rfl⟩
      · exact .inl ⟨_, rfl⟩

/-- The dispatcher as an accepted `connect` leaves it before it registers the
control group. -/
def connected (d : Dispatcher) (privateGroup : Str) : Dispatcher :=
  { d with
    connection := (d.connection.connectNetwork d.address (.accepted privateGroup)).2
    connStatus := .online }

@[simp] theorem connected_controlGroup (d : Dispatcher) (privateGroup : Str) :
    (d.connected privateGroup).controlGroup = d.controlGroup := rfl

theorem connect_accepted {d : Dispatcher} (hoffline : d.connStatus = .offline)
    (hstopped : d.activity = .stopped) (privateGroup : Str) (sent : Bool) :
    d.connect (.accepted privateGroup) sent =
      (((d.connected privateGroup).registerGroup d.controlGroup 1 1 false sent).1.map fun _ => true,
        ((d.connected privateGroup).registerGroup d.controlGroup 1 1 false sent).2) := by
  rw [connect, if_neg (by simp [hoffline]), if_neg (by simp [hstopped])]
  exact if_pos (Int.zero_le_ofNat 1)

/-- `connect` throws and changes nothing, is refused and changes nothing, or opens a
session and registers the control group. -/
theorem connect_cases (d : Dispatcher) (answer : Answer) (sent : Bool) :
    (∃ e, d.connect answer sent = (.error e, d)) ∨
      (∃ code, answer = .refused code ∧ d.connect answer sent = (.ok false, d)) ∨
      (∃ privateGroup, answer = .accepted privateGroup ∧ d.connStatus = .offline ∧
        d.activity = .stopped ∧ d.connect answer sent =
          (((d.connected privateGroup).registerGroup d.controlGroup 1 1 false sent).1.map
              fun _ => true,
            ((d.connected privateGroup).registerGroup d.controlGroup 1 1 false sent).2)) := by
  obtain honline | hoffline := d.connStatus.online_or_offline
  · exact .inl ⟨.stillConnected, by simp [connect, honline]⟩
  · obtain hstarted | hstopped := d.activity.started_or_stopped
    · exact .inl ⟨.stillRunning, by simp [connect, hoffline, hstarted]⟩
    · cases answer with
      | refused code =>
          refine .inr (.inl ⟨code, rfl, ?_⟩)
          rw [connect, if_neg (by simp [hoffline]), if_neg (by simp [hstopped])]
          exact if_neg (Int.not_le.mpr code.property)
      | accepted privateGroup =>
          exact .inr (.inr ⟨privateGroup, rfl, hoffline, hstopped,
            connect_accepted hoffline hstopped privateGroup sent⟩)

/-- `disconnect` throws and changes nothing, has nothing to do, or unregisters the
control group and ends the session. -/
theorem disconnect_cases (d : Dispatcher) (sent : Bool) :
    (∃ e, d.disconnect sent = (.error e, d)) ∨
      (d.connStatus = .offline ∧ d.activity = .stopped ∧ d.disconnect sent = (.ok (), d)) ∨
      (d.connStatus = .online ∧ d.activity = .stopped ∧
        ∃ d', d.unregisterGroup d.controlGroup sent = (.ok (), d') ∧ d.disconnect sent =
          (.ok (), { d' with
            connection := d'.connection.disconnectNetwork.2, connStatus := .offline })) := by
  cases hactivity : d.activity with
  | started => exact .inl ⟨.notYetStopped, by simp [disconnect, hactivity]⟩
  | stopped =>
      cases hstatus : d.connStatus with
      | offline => exact .inr (.inl ⟨rfl, rfl, by simp [disconnect, hactivity, hstatus]⟩)
      | online =>
          cases hunregister : d.unregisterGroup d.controlGroup sent with
          | mk result d' =>
              cases result with
              | ok =>
                  refine .inr (.inr ⟨rfl, rfl, d', rfl, ?_⟩)
                  simp [disconnect, hactivity, hstatus, hunregister]
              | error e =>
                  have hsame : d' = d := by
                    rcases d.unregisterGroup_cases d.controlGroup sent with
                      ⟨_, h⟩ | ⟨_, _, -, -, h⟩ | ⟨-, -, -, -, h⟩
                    · rw [h] at hunregister
                      exact (Prod.mk.inj hunregister).2.symm
                    · rw [h] at hunregister; cases hunregister
                    · rw [h] at hunregister; cases hunregister
                  exact .inl ⟨e, by simp [disconnect, hactivity, hstatus, hunregister, hsame]⟩

/-- `start` throws, or makes the new thread the dispatcher's. -/
theorem start_cases (d : Dispatcher) (worker : WorkerId) :
    (∃ e, d.start worker = (.error e, d)) ∨
      (d.connStatus = .online ∧ d.activity = .stopped ∧
        d.start worker = (.ok (), { d with thread := some worker, activity := .started })) := by
  cases hstatus : d.connStatus with
  | offline => exact .inl ⟨_, by simp only [start, hstatus, if_true]; rfl⟩
  | online =>
      cases hactivity : d.activity with
      | started => exact .inl ⟨.alreadyStarted, by simp [start, hstatus, hactivity]⟩
      | stopped => exact .inr ⟨rfl, rfl, by simp [start, hstatus, hactivity]⟩

/-- `stop` throws and changes nothing, or sends the halt message. -/
theorem requestStop_cases (d : Dispatcher) (sent : Bool) :
    (∃ e, d.requestStop sent = (.error e, d)) ∨
      (d.connStatus = .online ∧ d.activity = .started ∧
        ∃ b, d.makeMessage d.controlGroup [0] sigHaltMsg stopName = .ok b ∧
          d.requestStop sent = (.ok (), (d.sendMessageToGroup b sent).2)) := by
  cases hstatus : d.connStatus with
  | offline => exact .inl ⟨.dispatcherNotConnected, by simp [requestStop, hstatus]⟩
  | online =>
      cases hactivity : d.activity with
      | stopped => exact .inl ⟨.alreadyStopped, by simp [requestStop, hstatus, hactivity]⟩
      | started =>
          cases hmake : d.makeMessage d.controlGroup [0] sigHaltMsg stopName with
          | error e => exact .inl ⟨e, by simp [requestStop, hstatus, hactivity, hmake]⟩
          | ok b => exact .inr ⟨rfl, rfl, b, rfl, by simp [requestStop, hstatus, hactivity, hmake]⟩

/-- `unregisterGroup` of the control group returns: it finds the group, or a send-only
group to look at instead. -/
def releasesControl (d : Dispatcher) : Bool :=
  decide (d.controlGroup.length < maxGroupName) &&
    (!d.sendOnlyGroups.isEmpty || d.controlGroup ∈ d.groups)

theorem disconnect_ok_iff {d : Dispatcher} (honline : d.connStatus = .online)
    (hstopped : d.activity = .stopped) (sent : Bool) :
    (d.disconnect sent).1 = .ok () ↔ d.releasesControl = true := by
  by_cases hlength : maxGroupName ≤ d.controlGroup.length
  · simp [disconnect, unregisterGroup, releasesControl, honline, hstopped, hlength,
      Nat.not_lt.mpr hlength]
  · have hshort := Nat.not_le.mp hlength
    cases hgroups : d.sendOnlyGroups with
    | nil =>
        by_cases hmem : d.controlGroup ∈ d.groups
        all_goals
          simp [disconnect, unregisterGroup, releasesControl, honline, hstopped, hlength, hshort,
            hgroups, hmem]
    | cons first rest =>
        simp [disconnect, unregisterGroup, releasesControl, honline, hstopped, hlength, hshort,
          hgroups]

/-- The group whose buffer size `makeMessage` checks for a message to the control
group: a send-only group of that name goes first. -/
def haltGroup (d : Dispatcher) : Option Group :=
  (d.sendOnlyGroups.find? (·.name = d.controlGroup)).or
    ((d.groups.lookup d.controlGroup).map (·.group))

/-- The control group is known and takes the one byte of the halt message. -/
def makesHalt (d : Dispatcher) : Bool := d.haltGroup.any fun g => 1 ≤ g.maxBufferSize

theorem makeMessage_halt {d : Dispatcher} (honline : d.connStatus = .online) :
    (∃ b, d.makeMessage d.controlGroup [0] sigHaltMsg stopName = .ok b) ↔
      d.makesHalt = true := by
  have hsize : ∀ g : Group, (g.createBuffer [0] sigHaltMsg).isSome ↔ 1 ≤ g.maxBufferSize := by
    intro g
    simp [Option.isSome_iff_exists, Group.createBuffer_eq_some]
  simp only [makeMessage, honline, reduceCtorEq, if_false, makesHalt, haltGroup]
  cases d.sendOnlyGroups.find? (·.name = d.controlGroup) with
  | some g =>
      have h := hsize g
      cases hcreate : g.createBuffer [0] sigHaltMsg <;> simp_all
  | none =>
      cases d.groups.lookup d.controlGroup with
      | none => simp
      | some r =>
          have h := hsize r.group
          cases hcreate : r.group.createBuffer [0] sigHaltMsg <;> simp_all

/-- `stop` of a started dispatcher gets as far as its halt message. -/
theorem requestStop_ok {d : Dispatcher} (honline : d.connStatus = .online)
    (hstarted : d.activity = .started) (hmakes : d.makesHalt = true) (sent : Bool) :
    (d.requestStop sent).1 = .ok () := by
  obtain ⟨b, hmade⟩ := (makeMessage_halt honline).mpr hmakes
  simp [requestStop, honline, hstarted, hmade]

end Dispatcher

namespace World

/-- Where a step inside `receiveFromGroup` takes a worker. -/
inductive Lands (d : Dispatcher) (w : WorkerId) : WorkerPc → Observation → Prop
  | call (r : Reading) : Lands d w (.call r) .silent
  | inside (mbox : Mailbox) (r : Reading) : Lands d w (.inside mbox r) .silent
  | returned (ret : Int) (b : Buffer) : Lands d w (d.afterReceive ret b) (.received w ret b)

/-- The steps of a worker, by its program point. -/
inductive JobMove (s : World) (w : WorkerId) : WorkerPc → World → Observation → Prop
  | check (free : s.holder = none) :
      JobMove s w .loop
        (s.setWorker w (if s.dispatcher.isOnline then .call .start else .done .offline)) .silent
  | read {pc pc' : WorkerPc} {d : Dispatcher} {o : Observation} (reading : pc.isReading)
      (traffic : Traffic s.dispatcher d) (lands : Lands d w pc' o) :
      JobMove s w pc ((s.setDispatcher d).setWorker w pc') o
  | route {b : Buffer} (free : s.holder = none) :
      JobMove s w (.route b) (s.setWorker w (s.dispatcher.routeTo b)) .silent
  | push {q : QueueId} {b : Buffer} {queue : SyncFifoQueue Buffer}
      {ret : SyncFifoQueue.Ret Buffer} {notify : Bool}
      (pushed : (s.dispatcher.queues q).criticalSection (.push b.copy) = .done queue ret notify) :
      JobMove s w (.push q b)
        ((s.setDispatcher (s.dispatcher.setQueue q queue)).setWorker w .loop)
        (.ofPush q b.copy ret)
  | stopFails {e : DispatcherException} {sent : Bool} (free : s.holder = none)
      (fails : s.dispatcher.requestStop sent = (.error e, s.dispatcher)) :
      JobMove s w .stopping (s.setWorker w (.done .lost)) (.threw e)
  | stopSends {b : Buffer} {sent : Bool} (free : s.holder = none)
      (online : s.dispatcher.connStatus = .online) (started : s.dispatcher.activity = .started)
      (made : s.dispatcher.makeMessage s.dispatcher.controlGroup [0] sigHaltMsg
        Dispatcher.stopName = .ok b) :
      JobMove s w .stopping
        { s with
          dispatcher := (s.dispatcher.sendMessageToGroup b sent).2, holder := some (.worker w) }
        .haltSent
  | disconnects {sent : Bool} (o : Observation) (free : s.holder = none)
      (outcome : o = .silent ∨ ∃ e, o = .threw e) :
      JobMove s w .disconnecting
        ((s.setDispatcher (s.dispatcher.disconnect sent).2).setWorker w (.done .lost)) o

theorem resume_move {s s' : World} {w : WorkerId} {pc : WorkerPc} {privateGroup : Str}
    {r : Reading} {x : Reception} {d : Dispatcher} {o : Observation}
    (reading : pc.isReading) (traffic : Traffic s.dispatcher d)
    (h : (s.setDispatcher d).resume w privateGroup r x = (s', o)) : JobMove s w pc s' o := by
  rw [resume] at h
  split at h
  · obtain ⟨rfl, rfl⟩ := Prod.mk.inj h
    exact .read reading traffic (.call _)
  · obtain ⟨rfl, rfl⟩ := Prod.mk.inj h
    exact .read reading traffic (.returned _ _)

theorem jobStep_move {s s' : World} {w : WorkerId} {sent : Bool} {pc : WorkerPc}
    {o : Observation} (h : s.jobStep w sent pc = some (s', o)) : JobMove s w pc s' o := by
  have free : ∀ {x : World × Observation},
      (if s.holder.isSome then none else some x) = some (s', o) →
        s.holder = none ∧ x = (s', o) := by
    intro x hx
    split at hx
    · cases hx
    · rename_i hnone
      exact ⟨by simpa using hnone, Option.some.inj hx⟩
  cases pc with
  | loop =>
      obtain ⟨hfree, hs⟩ := free h
      obtain ⟨rfl, rfl⟩ := Prod.mk.inj hs
      exact .check hfree
  | call r =>
      have h := Option.some.inj h
      rw [enterReceive] at h
      split at h
      · exact resume_move rfl (.refl _) h
      · split at h
        · obtain ⟨rfl, rfl⟩ := Prod.mk.inj h
          exact .read rfl (.refl _) (.inside _ _)
        · exact resume_move rfl (.refl _) h
  | inside mbox r =>
      simp only [jobStep, endReceive] at h
      split at h
      · exact resume_move rfl (.refl _) (Option.some.inj h)
      · rename_i session hsession
        split at h
        · refine resume_move rfl (.of_set _ hsession ?_) (Option.some.inj h)
          rfl
        · split at h
          · refine resume_move rfl (.of_set _ hsession ?_) (Option.some.inj h)
            rfl
          · cases h
  | route b =>
      obtain ⟨hfree, hs⟩ := free h
      obtain ⟨rfl, rfl⟩ := Prod.mk.inj hs
      exact .route hfree
  | push q b =>
      simp only [jobStep] at h
      split at h
      · cases h
      · rename_i hpushed
        obtain ⟨rfl, rfl⟩ := Prod.mk.inj (Option.some.inj h)
        exact .push hpushed
  | stopping =>
      simp only [jobStep] at h
      split at h
      · cases h
      · rename_i hfree
        have hfree : s.holder = none := by simpa using hfree
        obtain ⟨e, hstop⟩ | ⟨honline, hstarted, b, hmade, hstop⟩ :=
          s.dispatcher.requestStop_cases sent
        · simp only [requestStop, hstop] at h
          obtain ⟨rfl, rfl⟩ := Prod.mk.inj (Option.some.inj h)
          exact .stopFails hfree hstop
        · simp only [requestStop, hstop] at h
          obtain ⟨rfl, rfl⟩ := Prod.mk.inj (Option.some.inj h)
          exact .stopSends hfree honline hstarted hmade
  | disconnecting =>
      simp only [jobStep] at h
      split at h
      · cases h
      · rename_i hfree
        have hfree : s.holder = none := by simpa using hfree
        split at h
        · obtain ⟨rfl, rfl⟩ := Prod.mk.inj (Option.some.inj h)
          exact .disconnects _ hfree (.inr ⟨_, rfl⟩)
        · obtain ⟨rfl, rfl⟩ := Prod.mk.inj (Option.some.inj h)
          exact .disconnects _ hfree (.inl rfl)
  | done why => cases h

/-- The steps of the world, by the event. -/
inductive Move (s : World) : Event → World → Observation → Prop
  | perform {t : ThreadId} {op : Operation} {sent : Bool} (free : s.holder = none)
      (idle : s.users t = .idle) :
      Move s (.perform t op sent) (s.setDispatcher (World.perform s.dispatcher sent op).2)
        (observe (World.perform s.dispatcher sent op).1)
  | startFails {t : ThreadId} (e : DispatcherException) : Move s (.start t) s (.threw e)
  | starts {t : ThreadId} (free : s.holder = none) (online : s.dispatcher.connStatus = .online)
      (stopped : s.dispatcher.activity = .stopped) :
      Move s (.start t)
        { s with
          dispatcher := { s.dispatcher with thread := some s.nextWorker, activity := .started }
          workers := Function.update s.workers s.nextWorker (some .loop)
          nextWorker := s.nextWorker + 1 }
        (.returned true)
  | stopFails {t : ThreadId} {sent : Bool} (e : DispatcherException) :
      Move s (.stop t sent) s (.threw e)
  | stopSends {t : ThreadId} {b : Buffer} {sent : Bool} (free : s.holder = none)
      (online : s.dispatcher.connStatus = .online) (started : s.dispatcher.activity = .started)
      (made : s.dispatcher.makeMessage s.dispatcher.controlGroup [0] sigHaltMsg
        Dispatcher.stopName = .ok b) :
      Move s (.stop t sent)
        { s with
          dispatcher := (s.dispatcher.sendMessageToGroup b sent).2, holder := some (.user t) }
        .haltSent
  | join {h : Holder} (held : s.holder = some h)
      (ended : ∀ w, s.dispatcher.thread = some w → ∃ why, s.workers w = some (.done why)) :
      Move s .join (s.release h s.dispatcher.joined) (.returned true)
  | timeOut {h : Holder} {w : WorkerId} (held : s.holder = some h)
      (thread : s.dispatcher.thread = some w) :
      Move s .timeOut (s.release h s.dispatcher.timedOut) (.returned false)
  | receiveFails {t : ThreadId} {groupName : Str} {isLocking : Bool} {o : Observation}
      (fails : o = .returned false ∨ ∃ e, o = .threw e) :
      Move s (.receive t groupName isLocking) s o
  | receives {t : ThreadId} {groupName : Str} {isLocking : Bool} {r : Registration}
      (free : s.holder = none) (idle : s.users t = .idle)
      (found : s.dispatcher.groups.lookup groupName = some r) :
      Move s (.receive t groupName isLocking) (s.setUser t (.popping r.queue isLocking)) .silent
  | pop {t : ThreadId} {q : QueueId} {isLocking : Bool} {queue : SyncFifoQueue Buffer}
      {ret : SyncFifoQueue.Ret Buffer} {notify : Bool}
      (popping : s.users t = .popping q isLocking)
      (popped : (s.dispatcher.queues q).criticalSection (if isLocking then .pop else .asyncPop) =
        .done queue ret notify) :
      Move s (.pop t)
        ((s.setDispatcher (s.dispatcher.setQueue q queue)).setUser t .idle)
        (.ofPop t q isLocking ret)
  | job {w : WorkerId} {sent : Bool} {pc : WorkerPc} {s' : World} {o : Observation}
      (at' : s.workers w = some pc) (move : JobMove s w pc s' o) : Move s (.job w sent) s' o
  | traffic {e : Event} {d : Dispatcher} (network : ∃ mbox, (∃ f, e = .deliver mbox f) ∨
      e = .order mbox ∨ e = .hangUp mbox) (traffic : Traffic s.dispatcher d) : Move s e (s.setDispatcher d) .silent

theorem enters_iff {s : World} {t : ThreadId} :
    s.enters t = true ↔ s.holder = none ∧ s.users t = .idle := by
  simp [enters]

theorem step_move {s s' : World} {e : Event} {o : Observation} (h : s.step e = some (s', o)) :
    Move s e s' o := by
  cases e with
  | perform t op sent =>
      simp only [step] at h
      split at h
      · rename_i henters
        obtain ⟨hfree, hidle⟩ := enters_iff.mp henters
        obtain ⟨rfl, rfl⟩ := Prod.mk.inj (Option.some.inj h)
        exact .perform hfree hidle
      · cases h
  | start t =>
      simp only [step] at h
      split at h
      · rename_i henters
        obtain ⟨hfree, -⟩ := enters_iff.mp henters
        obtain ⟨e, hstart⟩ | ⟨honline, hstopped, hstart⟩ := s.dispatcher.start_cases s.nextWorker
        · simp only [hstart] at h
          obtain ⟨rfl, rfl⟩ := Prod.mk.inj (Option.some.inj h)
          exact .startFails e
        · simp only [hstart] at h
          obtain ⟨rfl, rfl⟩ := Prod.mk.inj (Option.some.inj h)
          exact .starts hfree honline hstopped
      · cases h
  | stop t sent =>
      simp only [step] at h
      split at h
      · rename_i henters
        obtain ⟨hfree, -⟩ := enters_iff.mp henters
        obtain ⟨e, hstop⟩ | ⟨honline, hstarted, b, hmade, hstop⟩ :=
          s.dispatcher.requestStop_cases sent
        · simp only [requestStop, hstop] at h
          obtain ⟨rfl, rfl⟩ := Prod.mk.inj (Option.some.inj h)
          exact .stopFails e
        · simp only [requestStop, hstop] at h
          obtain ⟨rfl, rfl⟩ := Prod.mk.inj (Option.some.inj h)
          exact .stopSends hfree honline hstarted hmade
      · cases h
  | join =>
      simp only [step] at h
      split at h
      · rename_i held hthread
        obtain ⟨rfl, rfl⟩ := Prod.mk.inj (Option.some.inj h)
        exact .join held (by simp [hthread])
      · rename_i w held hthread
        split at h
        · rename_i why hdone
          obtain ⟨rfl, rfl⟩ := Prod.mk.inj (Option.some.inj h)
          refine .join held fun w' hw' => ⟨why, ?_⟩
          obtain rfl : w = w' := Option.some.inj (hthread.symm.trans hw')
          exact hdone
        · cases h
      · cases h
  | timeOut =>
      simp only [step] at h
      split at h
      · rename_i held hthread
        obtain ⟨rfl, rfl⟩ := Prod.mk.inj (Option.some.inj h)
        exact .timeOut held hthread
      · cases h
  | receive t groupName isLocking =>
      simp only [step] at h
      split at h
      · rename_i henters
        obtain ⟨hfree, hidle⟩ := enters_iff.mp henters
        split at h
        · obtain ⟨rfl, rfl⟩ := Prod.mk.inj (Option.some.inj h)
          exact .receiveFails (.inr ⟨_, rfl⟩)
        · obtain ⟨rfl, rfl⟩ := Prod.mk.inj (Option.some.inj h)
          exact .receiveFails (.inl rfl)
        · rename_i q hfound
          obtain ⟨rfl, rfl⟩ := Prod.mk.inj (Option.some.inj h)
          rw [Dispatcher.findQueue] at hfound
          split at hfound
          · cases hfound
          · split at hfound
            · cases hfound
            · rename_i r hlookup
              cases hfound
              exact .receives hfree hidle hlookup
      · cases h
  | pop t =>
      simp only [step] at h
      split at h
      · cases h
      · rename_i q isLocking hpopping
        split at h
        · cases h
        · rename_i hpopped
          obtain ⟨rfl, rfl⟩ := Prod.mk.inj (Option.some.inj h)
          exact .pop hpopping hpopped
  | job w sent =>
      simp only [step] at h
      split at h
      · cases h
      · rename_i pc hpc
        exact .job hpc (jobStep_move h)
  | deliver mbox f =>
      simp only [step] at h
      split at h
      · cases h
      · rename_i spread hdeliver
        obtain ⟨rfl, rfl⟩ := Prod.mk.inj (Option.some.inj h)
        exact .traffic ⟨mbox, .inl ⟨f, rfl⟩⟩ (deliver_traffic hdeliver)
  | order mbox =>
      simp only [step] at h
      split at h
      · cases h
      · rename_i spread horder
        obtain ⟨rfl, rfl⟩ := Prod.mk.inj (Option.some.inj h)
        exact .traffic ⟨mbox, .inr (.inl rfl)⟩ (order_traffic horder)
  | hangUp mbox =>
      simp only [step] at h
      split at h
      · cases h
      · rename_i spread hhang
        obtain ⟨rfl, rfl⟩ := Prod.mk.inj (Option.some.inj h)
        exact .traffic ⟨mbox, .inr (.inr rfl)⟩ (hangUp_traffic hhang)

end World

end Netbroker
