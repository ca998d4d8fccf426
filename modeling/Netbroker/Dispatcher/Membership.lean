import Netbroker.Dispatcher.Steps

/-!
# The registered groups and the session

The registry is the dispatcher's, the joined groups are the session's, and nothing
compares them: `connect` opens an empty session beside whatever is registered, and
the time-out of `stop` ends the session of a dispatcher that stays online. As long
as neither happens the two agree while the dispatcher is online.

`Matched` is kept by each operation, under a condition on its arguments and on the state it
finds: a name that is joined has no NUL, and an accepted connect finds no group. All sends are
taken to succeed, since a lost one leaves the session without the group.
-/

namespace Netbroker

open Spread Transition

namespace Dispatcher

/-- `registerGroup` comes as far as `SP_join`. -/
def joinsGroup (d : Dispatcher) (groupName : Str) (bufferSize : Int) (sendOnly : Bool) : Bool :=
  bufferSize ≤ 92160 && decide (groupName.length < maxGroupName) && groupName ∉ d.groups
    && !sendOnly && d.connStatus = .online

/-- The group that an operation joins, with the connection it joins it on. -/
def joins (d : Dispatcher) : Operation → Option (Connection × Str)
  | .registerGroup groupName bufferSize _ sendOnly =>
      if d.joinsGroup groupName bufferSize sendOnly then some (d.connection, groupName) else none
  | .connect (.accepted privateGroup) =>
      let opened := d.connected privateGroup
      if d.connStatus = .offline ∧ d.activity = .stopped ∧
          opened.joinsGroup d.controlGroup 1 false then
        some (opened.connection, d.controlGroup)
      else none
  | _ => none

/-- The group that an operation of an online dispatcher leaves. -/
def leaves (d : Dispatcher) : Operation → Option Str
  | .unregisterGroup groupName =>
      if groupName.length < maxGroupName ∧ d.sendOnlyGroups = [] ∧ groupName ∈ d.groups ∧
          d.connStatus = .online then some groupName
      else none
  | _ => none

/-- `SP_join` and `SP_leave` succeed where the operation calls them on an open session. -/
def callsSucceed (d : Dispatcher) (sent : Bool) (op : Operation) : Bool :=
  (d.joins op).all (fun (c, name) => c.session.isNone || (c.joinGroup sent name).1 = 0) &&
    (d.leaves op).all fun name =>
      d.connection.session.isNone || (d.connection.leaveGroup sent name).1 = 0

/-- A name that is joined has no NUL, and an accepted connect finds no group registered. -/
def keepsStep (d : Dispatcher) (op : Operation) : Bool :=
  (d.joins op).all (fun (_, name) => (0 : UInt8) ∉ name) &&
    match op with
    | .connect (.accepted _) =>
        d.connStatus = .online || d.activity = .started || d.groups.entries = []
    | _ => true

/-- The session is open, and its groups are the registered ones. -/
def Joined (d : Dispatcher) : Prop :=
  ∃ session, d.connection.session = some session ∧
    ∀ name, name ∈ session.joined ↔ name ∈ d.groups

/-- What holds of an online dispatcher; a name with a NUL would be joined under another. -/
structure Matched (d : Dispatcher) : Prop where
  joined : d.connStatus = .online → d.Joined
  plain : d.connStatus = .online → ∀ name ∈ d.groups, (0 : UInt8) ∉ name

variable {d : Dispatcher}

theorem Matched.offline (h : d.connStatus = .offline) : d.Matched := by
  refine ⟨fun honline => ?_, fun honline => ?_⟩
  all_goals
    rw [h] at honline
    cases honline

theorem Matched.traffic {d' : Dispatcher} (h : d.Matched) (traffic : Traffic d d') :
    d'.Matched := by
  refine ⟨fun honline => ?_, fun honline => ?_⟩
  · obtain ⟨session, hsession, hjoined⟩ := h.joined (traffic.connStatus.symm.trans honline)
    have hmap := traffic.joined d.connection.connector.spreadMbox
    rw [show d.connection.spread.sessions d.connection.connector.spreadMbox = some session
      from hsession, Option.map_some, Option.map_eq_some_iff] at hmap
    obtain ⟨session', hsession', hsame⟩ := hmap
    refine ⟨session', ?_, fun name => ?_⟩
    · rw [Connection.session, traffic.connector]
      exact hsession'
    · rw [hsame, traffic.groups]
      exact hjoined name
  · rw [traffic.groups]
    exact h.plain (traffic.connStatus.symm.trans honline)

/-- `registerGroup` of a name that is joined as it stands. -/
theorem Matched.registerGroup (h : d.Matched) (groupName : Str) (bufferSize : Int)
    (queueSize : Nat) (sendOnly sent : Bool)
    (hjoins : d.joinsGroup groupName bufferSize sendOnly = true →
      (0 : UInt8) ∉ groupName ∧
        (d.connection.session.isNone || (d.connection.joinGroup sent groupName).1 = 0) = true) :
    (d.registerGroup groupName bufferSize queueSize sendOnly sent).2.Matched := by
  obtain ⟨e, hregister⟩ | ⟨-, hregister⟩ | ⟨hsendOnly, hsize, hlength, hnew,
    ⟨honline, hregister⟩ | ⟨hoffline, hregister⟩⟩ :=
      d.registerGroup_cases groupName bufferSize queueSize sendOnly sent
  · rw [hregister]
    exact h
  · rw [hregister]
    exact ⟨h.joined, h.plain⟩
  · obtain ⟨hplain, hjoin⟩ :=
      hjoins (by simp [joinsGroup, hsendOnly, hsize, hlength, hnew, honline])
    obtain ⟨session, hsession, hjoined⟩ := h.joined honline
    have hjoin : (d.connection.joinGroup sent groupName).1 = 0 := by
      simpa [hsession] using hjoin
    rw [hregister]
    refine ⟨fun _ => ⟨_, Connection.joinGroup_session hsession hjoin, fun name => ?_⟩,
      fun _ name hname => ?_⟩
    · rw [Finset.mem_insert, hjoined, cstr_of_not_mem hplain]
      exact (AList.mem_insert _).symm
    · rcases (AList.mem_insert _).mp hname with rfl | hname
      · exact hplain
      · exact h.plain honline name hname
  · rw [hregister]
    exact .offline hoffline

theorem Matched.unregisterGroup (h : d.Matched) (groupName : Str) (sent : Bool)
    (hleave : d.callsSucceed sent (.unregisterGroup groupName) = true) :
    (d.unregisterGroup groupName sent).2.Matched := by
  obtain ⟨e, hunregister⟩ | ⟨first, rest, -, -, hunregister⟩ |
    ⟨hnone, hlength, hmem, honline, hunregister⟩ := d.unregisterGroup_cases groupName sent
  · rw [hunregister]
    exact h
  · rw [hunregister]
    dsimp only
    split
    · exact ⟨h.joined, h.plain⟩
    · exact h
  · obtain ⟨session, hsession, hjoined⟩ := h.joined honline
    have hleave : (d.connection.leaveGroup sent groupName).1 = 0 := by
      simpa [callsSucceed, joins, leaves, hlength, hnone, hmem, honline, hsession] using hleave
    rw [hunregister]
    refine ⟨fun _ => ⟨_, Connection.leaveGroup_session hsession hleave, fun name => ?_⟩,
      fun _ name hname => ?_⟩
    · rw [Finset.mem_erase, hjoined, cstr_of_not_mem (h.plain honline groupName hmem)]
      exact AList.mem_erase.symm
    · exact h.plain honline name (AList.mem_erase.mp hname).2

theorem Matched.connect (h : d.Matched) (answer : Answer) (sent : Bool)
    (hsucceed : d.callsSucceed sent (.connect answer) = true)
    (hkeeps : d.keepsStep (.connect answer) = true) : (d.connect answer sent).2.Matched := by
  obtain ⟨e, hconnect⟩ | ⟨code, -, hconnect⟩ | ⟨privateGroup, rfl, hoffline, hstopped, hconnect⟩ :=
    d.connect_cases answer sent
  · rw [hconnect]
    exact h
  · rw [hconnect]
    exact h
  · rw [hconnect]
    have hkeeps := (Bool.and_eq_true _ _).mp hkeeps
    have hempty : d.groups = ∅ := by
      apply AList.ext
      simpa [hoffline, hstopped] using hkeeps.2
    have hopened : (d.connected privateGroup).Matched := by
      refine ⟨fun _ => ⟨_, Connection.connectNetwork_session _ _ _, fun name => ?_⟩,
        fun _ name hname => ?_⟩
      · simp [connected, hempty]
      · simp [connected, hempty] at hname
    apply hopened.registerGroup
    intro hjoins
    have hcall : d.joins (.connect (.accepted privateGroup)) =
        some ((d.connected privateGroup).connection, d.controlGroup) :=
      if_pos ⟨hoffline, hstopped, hjoins⟩
    rw [callsSucceed, hcall, Bool.and_eq_true] at hsucceed
    rw [hcall] at hkeeps
    exact ⟨of_decide_eq_true hkeeps.1, hsucceed.1⟩

theorem Matched.disconnect (h : d.Matched) (sent : Bool) : (d.disconnect sent).2.Matched := by
  obtain ⟨e, hdisconnect⟩ | ⟨-, -, hdisconnect⟩ | ⟨-, -, d', -, hdisconnect⟩ :=
    d.disconnect_cases sent
  · rw [hdisconnect]
    exact h
  · rw [hdisconnect]
    exact h
  · rw [hdisconnect]
    exact .offline rfl

theorem Matched.perform (h : d.Matched) (sent : Bool) (op : Operation)
    (hsucceed : d.callsSucceed sent op = true) (hkeeps : d.keepsStep op = true) :
    (World.perform d sent op).2.Matched := by
  cases op with
  | registerGroup groupName bufferSize queueSize sendOnly =>
      apply h.registerGroup
      intro hjoins
      have hcall : d.joins (.registerGroup groupName bufferSize queueSize sendOnly) =
          some (d.connection, groupName) := if_pos hjoins
      rw [callsSucceed, hcall, Bool.and_eq_true] at hsucceed
      have hkeeps := (Bool.and_eq_true _ _).mp hkeeps
      rw [hcall] at hkeeps
      exact ⟨of_decide_eq_true hkeeps.1, hsucceed.1⟩
  | unregisterGroup groupName => exact h.unregisterGroup groupName sent hsucceed
  | sendMessageToGroup b => exact h.traffic (sendMessageToGroup_traffic d b sent)
  | connect answer => exact h.connect answer sent hsucceed hkeeps
  | disconnect => exact h.disconnect sent

end Dispatcher

namespace World

/-- Spread does what is asked of it in the step. -/
def spreadSucceeds (s : World) : Event → Bool
  | .perform _ op sent => s.dispatcher.callsSucceed sent op
  | _ => true

/-- No `stop` gives up, and no operation takes the registry and the session apart. -/
def keepsStep (s : World) : Event → Bool
  | .perform _ op _ => s.dispatcher.keepsStep op
  | .timeOut => false
  | _ => true

theorem step_matched {s s' : World} {e : Event} {o : Observation} (hs : s.dispatcher.Matched)
    (hsucceeds : s.spreadSucceeds e = true) (hkeeps : s.keepsStep e = true)
    (h : s.step e = some (s', o)) : s'.dispatcher.Matched := by
  cases step_move h with
  | @perform t op sent => exact hs.perform sent op hsucceeds hkeeps
  | startFails => exact hs
  | starts => exact ⟨hs.joined, hs.plain⟩
  | stopFails => exact hs
  | stopSends => exact hs.traffic (sendMessageToGroup_traffic ..)
  | @join holder =>
      cases holder with
      | user => exact ⟨hs.joined, hs.plain⟩
      | worker => exact ⟨hs.joined, hs.plain⟩
  | timeOut => cases hkeeps
  | receiveFails => exact hs
  | receives => exact hs
  | pop => exact ⟨hs.joined, hs.plain⟩
  | traffic _ traffic => exact hs.traffic traffic
  | job _ move =>
      cases move with
      | check => exact hs
      | read _ traffic => exact hs.traffic traffic
      | route => exact hs
      | push => exact ⟨hs.joined, hs.plain⟩
      | stopFails => exact hs
      | stopSends => exact hs.traffic (sendMessageToGroup_traffic ..)
      | disconnects => exact hs.disconnect _

/-- **Membership.** If no `stop` gives up, every accepted connect finds the registry
empty, and the names that are joined have no NUL, then an online dispatcher's session
is open and has joined the registered groups, no more and no less. -/
theorem groups_joined (clientName : Str) {s : World}
    (h : (machine clientName).Reachable
      (fun s e => s.spreadSucceeds e = true ∧ s.keepsStep e = true) s)
    (honline : s.dispatcher.connStatus = .online) : s.dispatcher.Joined := by
  have hmatched : s.dispatcher.Matched := by
    refine h.invariant ?_ fun _ _ _ _ hs legal move => step_matched hs legal.1 legal.2 move
    rintro _ ⟨address, dropEcho, dropMembership, mbox, rfl⟩
    exact .offline rfl
  exact hmatched.joined honline

theorem groups_joined_after_register : ∃ s : World, demoGroup ∈ s.dispatcher.groups ∧
    s.dispatcher.Joined := by
  obtain ⟨s, hreach, hmem, honline⟩ := Machine.Reachable.exists_of_exec
    (fun s e => s.spreadSucceeds e = true ∧ s.keepsStep e = true) demo_init [connects, registers]
    (fun s => demoGroup ∈ s.dispatcher.groups ∧ s.dispatcher.connStatus = .online) (by decide)
  exact ⟨s, hmem, groups_joined demoClient hreach honline⟩

/-- A registered group outlives `disconnect` and is not joined again by `connect`. -/
theorem group_not_joined : ¬ ∀ s : World,
    (machine demoClient).Reachable (fun s e => s.spreadSucceeds e = true) s → s.holder = none →
      s.dispatcher.connStatus = .online → s.dispatcher.Joined := by
  intro hall
  obtain ⟨s, hreach, hfree, honline, hmem, hnot⟩ := Machine.Reachable.exists_of_exec
    (fun s e => s.spreadSucceeds e = true) demo_init
    [connects, registers, .perform 0 .disconnect true, connects]
    (fun s => s.holder = none ∧ s.dispatcher.connStatus = .online ∧
      demoGroup ∈ s.dispatcher.groups ∧
        (s.dispatcher.connection.session.all fun session => demoGroup ∉ session.joined) = true)
    (by decide)
  obtain ⟨session, hsession, hjoined⟩ := hall s hreach hfree honline
  rw [hsession] at hnot
  exact of_decide_eq_true hnot ((hjoined demoGroup).mpr hmem)

end World

end Netbroker
