import Netbroker.Dispatcher.Steps

/-!
# Disconnecting and connecting again

`disconnect` removes the control group by a call of `unregisterGroup`, which looks at
the map of groups only when there is no send-only group. A control group that stays
behind makes the next `connect` throw, and one that was never there makes `disconnect`
itself throw.

Each operation of the cycle has the condition under which it returns normally, and what it
leaves to the next. `reconnects` is what they come to together, in terms of the state that the
cycle begins with.
-/

namespace Netbroker

open Spread Transition

namespace Dispatcher

/-- `disconnect` and an accepted `connect` return normally, and leave a dispatcher that
can be started and then stopped. -/
structure Cycles (d : Dispatcher) (privateGroup : Str) (worker : WorkerId) : Prop where
  disconnects : (d.disconnect true).1 = .ok ()
  offline : (d.disconnect true).2.connStatus = .offline
  connects : ((d.disconnect true).2.connect (.accepted privateGroup) true).1 = .ok true
  registered :
    d.controlGroup ∈ ((d.disconnect true).2.connect (.accepted privateGroup) true).2.groups
  starts :
    (((d.disconnect true).2.connect (.accepted privateGroup) true).2.start worker).1 = .ok ()
  stops :
    ((((d.disconnect true).2.connect (.accepted privateGroup) true).2.start
      worker).2.requestStop true).1 = .ok ()

/-- What `unregisterGroup` of the control group leaves of the send-only groups. -/
def keptSendOnly (d : Dispatcher) : List Group :=
  match d.sendOnlyGroups with
  | [] => []
  | first :: rest => if first.name = d.controlGroup then rest else first :: rest

/-- The control group's name fits, and it is registered if there is no send-only group;
if there is one, it is not registered, or only as a send-only group that takes a byte. -/
def reconnects (d : Dispatcher) : Bool :=
  decide (d.controlGroup.length < maxGroupName) &&
    if d.sendOnlyGroups = [] then decide (d.controlGroup ∈ d.groups)
    else d.controlGroup ∉ d.groups &&
      (d.keptSendOnly.find? (·.name = d.controlGroup)).all (1 ≤ ·.maxBufferSize)

variable {d : Dispatcher}

/-- What an online and stopped dispatcher's `disconnect` leaves. -/
structure Disconnected (d d' : Dispatcher) : Prop where
  offline : d'.connStatus = .offline
  stopped : d'.activity = .stopped
  controlGroup : d'.controlGroup = d.controlGroup
  groups : d'.groups = if d.sendOnlyGroups = [] then d.groups.erase d.controlGroup else d.groups
  sendOnlyGroups : d'.sendOnlyGroups = d.keptSendOnly

theorem disconnectNetwork_connector (c : Connection) :
    c.disconnectNetwork.2.connector = c.connector := by
  rw [Connection.disconnectNetwork]
  split <;> rfl

theorem disconnect_disconnected (honline : d.connStatus = .online)
    (hstopped : d.activity = .stopped) {sent : Bool} (hok : (d.disconnect sent).1 = .ok ()) :
    Disconnected d (d.disconnect sent).2 := by
  obtain ⟨e, h⟩ | ⟨hoffline, -⟩ | ⟨-, -, d', hunregister, h⟩ := d.disconnect_cases sent
  · rw [h] at hok
    cases hok
  · rw [honline] at hoffline
    cases hoffline
  · rw [h]
    obtain ⟨e, h'⟩ | ⟨first, rest, hgroups, -, h'⟩ | ⟨hnone, -, -, -, h'⟩ :=
      d.unregisterGroup_cases d.controlGroup sent
    · rw [h'] at hunregister
      cases hunregister
    · obtain rfl := (Prod.mk.inj (h'.symm.trans hunregister)).2
      by_cases hname : first.name = d.controlGroup
      · simp only [if_pos hname]
        refine ⟨rfl, hstopped, ?_, ?_, ?_⟩
        · rw [controlGroup, disconnectNetwork_connector]
          rfl
        · simp [hgroups]
        · simp [keptSendOnly, hgroups, hname]
      · simp only [if_neg hname]
        refine ⟨rfl, hstopped, ?_, ?_, ?_⟩
        · rw [controlGroup, disconnectNetwork_connector]
          rfl
        · simp [hgroups]
        · simp [keptSendOnly, hgroups, hname]
    · obtain rfl := (Prod.mk.inj (h'.symm.trans hunregister)).2
      refine ⟨rfl, hstopped, ?_, ?_, ?_⟩
      · rw [controlGroup, disconnectNetwork_connector]
        rfl
      · simp [hnone]
      · simp [keptSendOnly, hnone]

/-- What an accepted `connect` of an offline and stopped dispatcher leaves where it can
register the control group. -/
structure Reconnected (d d' : Dispatcher) : Prop where
  online : d'.connStatus = .online
  stopped : d'.activity = .stopped
  controlGroup : d'.controlGroup = d.controlGroup
  groups : ∃ queue, d'.groups =
    d.groups.insert d.controlGroup { group := Group.new d.controlGroup 1 1, queue }
  sendOnlyGroups : d'.sendOnlyGroups = d.sendOnlyGroups

/-- `connect` succeeds where the control group can be registered. -/
theorem connect_ok_iff (hoffline : d.connStatus = .offline) (hstopped : d.activity = .stopped)
    (privateGroup : Str) (sent : Bool) :
    (d.connect (.accepted privateGroup) sent).1 = .ok true ↔
      d.controlGroup.length < maxGroupName ∧ d.controlGroup ∉ d.groups := by
  rw [connect_accepted hoffline hstopped]
  have hgroups : (d.connected privateGroup).groups = d.groups := rfl
  have honline : (d.connected privateGroup).connStatus = .online := rfl
  by_cases hlength : maxGroupName ≤ d.controlGroup.length
  · simp [registerGroup, hlength, Nat.not_lt.mpr hlength, Except.map]
  · by_cases hmem : d.controlGroup ∈ d.groups
    · simp [registerGroup, hlength, hgroups, hmem, Except.map]
    · simp [registerGroup, insertGroup, hlength, Nat.not_le.mp hlength, hgroups, hmem, honline,
        Except.map]

theorem connect_reconnected (hoffline : d.connStatus = .offline) (hstopped : d.activity = .stopped)
    {privateGroup : Str} {sent : Bool}
    (hok : (d.connect (.accepted privateGroup) sent).1 = .ok true) :
    Reconnected d (d.connect (.accepted privateGroup) sent).2 := by
  rw [connect_accepted hoffline hstopped] at hok ⊢
  obtain ⟨e, h⟩ | ⟨h, -⟩ | ⟨-, -, -, -, ⟨honline, h⟩ | ⟨h, -⟩⟩ :=
    (d.connected privateGroup).registerGroup_cases d.controlGroup 1 1 false sent
  · rw [h] at hok
    cases hok
  · cases h
  · rw [h]
    exact ⟨honline, hstopped, rfl, ⟨_, rfl⟩, rfl⟩
  · cases h

theorem start_ok (worker : WorkerId) (honline : d.connStatus = .online)
    (hstopped : d.activity = .stopped) :
    d.start worker = (.ok (), { d with thread := some worker, activity := .started }) := by
  simp [start, honline, hstopped]

/-- A started dispatcher can be stopped where its halt message can be made. -/
theorem requestStop_ok_iff (honline : d.connStatus = .online) (hstarted : d.activity = .started)
    (sent : Bool) : (d.requestStop sent).1 = .ok () ↔ d.makesHalt = true := by
  refine ⟨fun hok => ?_, fun hmakes => requestStop_ok honline hstarted hmakes sent⟩
  obtain ⟨e, h⟩ | ⟨-, -, b, hmade, -⟩ := d.requestStop_cases sent
  · rw [h] at hok
    cases hok
  · exact (makeMessage_halt honline).mp ⟨b, hmade⟩

theorem start_requestStop_ok_iff (worker : WorkerId) (honline : d.connStatus = .online)
    (hstopped : d.activity = .stopped) (sent : Bool) :
    ((d.start worker).2.requestStop sent).1 = .ok () ↔ d.makesHalt = true := by
  rw [start_ok worker honline hstopped]
  exact requestStop_ok_iff (d := { d with thread := some worker, activity := .started })
    honline rfl sent

/-- A new control group takes the halt message, unless a send-only group goes first. -/
theorem Reconnected.makesHalt {d' : Dispatcher} (h : Reconnected d d') :
    d'.makesHalt =
      (d.sendOnlyGroups.find? (·.name = d.controlGroup)).all (1 ≤ ·.maxBufferSize) := by
  obtain ⟨queue, hgroups⟩ := h.groups
  rw [Dispatcher.makesHalt]
  rw [haltGroup, hgroups, h.controlGroup, h.sendOnlyGroups, AList.lookup_insert]
  cases d.sendOnlyGroups.find? (·.name = d.controlGroup) with
  | none => rfl
  | some g => rfl

/-- The cycle succeeds where each of its calls does. -/
theorem cycles_iff {privateGroup : Str} {worker : WorkerId} (honline : d.connStatus = .online)
    (hstopped : d.activity = .stopped) :
    d.Cycles privateGroup worker ↔ d.releasesControl = true ∧
      d.controlGroup ∉ (d.disconnect true).2.groups ∧
        (d.keptSendOnly.find? (·.name = d.controlGroup)).all (1 ≤ ·.maxBufferSize) = true := by
  constructor
  · intro h
    have hdisconnected := disconnect_disconnected honline hstopped h.disconnects
    have hconnect := (connect_ok_iff hdisconnected.offline hdisconnected.stopped _ _).mp h.connects
    have hreconnected :=
      connect_reconnected hdisconnected.offline hdisconnected.stopped h.connects
    have hstops := (start_requestStop_ok_iff worker hreconnected.online
      hreconnected.stopped true).mp h.stops
    have hhalt := hreconnected.makesHalt.symm.trans hstops
    rw [hdisconnected.sendOnlyGroups, hdisconnected.controlGroup] at hhalt
    rw [hdisconnected.controlGroup] at hconnect
    exact ⟨(disconnect_ok_iff honline hstopped true).mp h.disconnects, hconnect.2, hhalt⟩
  · rintro ⟨hreleases, hunregistered, hhalt⟩
    have hdisconnects := (disconnect_ok_iff honline hstopped true).mpr hreleases
    have hdisconnected := disconnect_disconnected honline hstopped hdisconnects
    have hshort : d.controlGroup.length < maxGroupName :=
      of_decide_eq_true ((Bool.and_eq_true _ _).mp hreleases).1
    have hconnects :
        ((d.disconnect true).2.connect (.accepted privateGroup) true).1 = .ok true := by
      rw [connect_ok_iff hdisconnected.offline hdisconnected.stopped, hdisconnected.controlGroup]
      exact ⟨hshort, hunregistered⟩
    have hreconnected :=
      connect_reconnected hdisconnected.offline hdisconnected.stopped hconnects
    refine ⟨hdisconnects, hdisconnected.offline, hconnects, ?_, ?_, ?_⟩
    · obtain ⟨queue, hgroups⟩ := hreconnected.groups
      rw [hgroups, hdisconnected.controlGroup]
      exact (AList.mem_insert _).mpr (.inl rfl)
    · rw [start_ok worker hreconnected.online hreconnected.stopped]
    · refine (start_requestStop_ok_iff worker hreconnected.online hreconnected.stopped true).mpr
        (hreconnected.makesHalt.trans ?_)
      rw [hdisconnected.sendOnlyGroups, hdisconnected.controlGroup]
      exact hhalt

/-- **Reconnecting.** An online and stopped dispatcher can be disconnected, connected
again, started and stopped exactly when it `reconnects`. -/
theorem cycles_iff_reconnects (d : Dispatcher) (honline : d.connStatus = .online)
    (hstopped : d.activity = .stopped) :
    (∀ privateGroup worker, d.Cycles privateGroup worker) ↔ d.reconnects = true := by
  simp only [cycles_iff honline hstopped, forall_const]
  by_cases hreleases : d.releasesControl = true
  · have hok := (disconnect_ok_iff honline hstopped true).mpr hreleases
    rw [(disconnect_disconnected honline hstopped hok).groups]
    cases hgroups : d.sendOnlyGroups with
    | nil => simp_all [reconnects, releasesControl, keptSendOnly]
    | cons first rest => simp_all [reconnects, releasesControl]
  · cases hgroups : d.sendOnlyGroups with
    | nil => simp_all [reconnects, releasesControl]
    | cons first rest => simp_all [reconnects, releasesControl]

end Dispatcher

namespace World

theorem cycles_iff_reconnects_online : demoOnline.dispatcher.Cycles [35, 97, 98] 0 :=
  (Dispatcher.cycles_iff_reconnects demoOnline.dispatcher rfl rfl).mpr (by decide) _ _

/-- The registration of the send-only group `g`. -/
def registersSendOnly : Event := .perform 0 (.registerGroup demoGroup 8 2 true) true

/-- `disconnect` looks at the send-only group, and `connect` finds the control group. -/
theorem reconnect_refused : ¬ ∀ s : World, (machine demoClient).Reachable (fun _ _ => True) s →
    s.dispatcher.connStatus = .online → s.dispatcher.activity = .stopped →
      ∀ privateGroup worker, s.dispatcher.Cycles privateGroup worker := by
  intro hall
  obtain ⟨s, hreach, honline, hstopped, hthrows⟩ := Machine.Reachable.exists_of_exec
    (fun _ _ => True) demo_init [connects, registersSendOnly]
    (fun s => s.dispatcher.connStatus = .online ∧ s.dispatcher.activity = .stopped ∧
      ((s.dispatcher.disconnect true).2.connect (.accepted []) true).1.isOk = false) (by decide)
  rw [(hall s hreach honline hstopped [] 0).connects] at hthrows
  cases hthrows

end World

end Netbroker
