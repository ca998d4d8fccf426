import Mathlib.Data.Set.Card
import Netbroker.Dispatcher.Registry

/-!
# Calls that fail half-way

`registerGroup` inserts a receiving group before it looks at the status and does not
look at what `joinGroup` returns; `connect` is ONLINE before it registers the control
group; `unregisterGroup` looks at one send-only group and returns. Each call keeps
what a caller can expect of it exactly where it does not come to that point.

For each of the three calls the states and arguments on which it keeps that are given exactly,
and the call is taken apart into what it checks and what it does. `joinGroup` succeeds exactly
on a `joinable` name, and the control group is registered by the same code as any other.
-/

namespace Netbroker

open Spread Transition

/-- The connector joins the group: its name is legal, there is a sound session behind the
mailbox, and the socket carries the message. -/
def Connection.joinable (c : Connection) (sent : Bool) (group : Str) : Bool :=
  legalGroup (cstr group) && sent && c.session.any (·.active)

theorem Connection.joinGroup_eq_zero_iff {c : Connection} {sent : Bool} {group : Str} :
    (c.joinGroup sent group).1 = 0 ↔ c.joinable sent group = true := by
  simp only [joinGroup, Spread.join, joinable, session]
  cases hlegal : legalGroup (cstr group) with
  | false => simp
  | true =>
      simp only [Bool.not_true, Bool.false_eq_true, if_false, internalMulticast]
      cases c.spread.sessions c.connector.spreadMbox with
      | none => simp
      | some s => cases hactive : s.active <;> cases sent <;> simp [hactive, maxGroupName]

namespace Dispatcher

variable {d : Dispatcher} {name : Str}

/-- What a caller can expect of `registerGroup`. -/
structure RegistersWhole (d : Dispatcher) (groupName : Str) (bufferSize : Int) (queueSize : Nat)
    (sendOnly sent : Bool) (c : Called DispatcherException Unit Dispatcher) : Prop where
  thrown : Strong (fun d => (d.groups, d.sendOnlyGroups)) d c
  receiving : ¬ Throws c → sendOnly = false → ∃ r, c.2.groups.lookup groupName = some r ∧
    r.group = Group.new groupName bufferSize queueSize ∧ c.2.queues r.queue = .new queueSize ∧
      (d.connection.joinGroup sent groupName).1 = 0
  sending : ¬ Throws c → sendOnly = true → c.2 = { d with
    sendOnlyGroups := d.sendOnlyGroups ++ [Group.new groupName bufferSize queueSize] }

/-- **All or nothing.** `registerGroup` registers the group and joins it or changes no
registry, exactly when a receiving group that comes past the checks finds the dispatcher
online and is joined. -/
theorem registersWhole_iff (d : Dispatcher) (groupName : Str) (bufferSize : Int)
    (queueSize : Nat) (sendOnly sent : Bool) :
    RegistersWhole d groupName bufferSize queueSize sendOnly sent
        (d.registerGroup groupName bufferSize queueSize sendOnly sent) ↔
      (sendOnly = false → d.admits groupName bufferSize false = true →
        d.connStatus = .online ∧ d.connection.joinable sent groupName = true) := by
  cases hadmits : d.admits groupName bufferSize sendOnly with
  | false =>
      obtain ⟨e, h⟩ := registerGroup_refuses queueSize sent hadmits
      rw [h]
      refine iff_of_true ⟨.of_same rfl, by simp, by simp⟩ ?_
      rintro rfl hadmitted
      rw [hadmits] at hadmitted
      cases hadmitted
  | true =>
      cases sendOnly with
      | true =>
          rw [registerGroup_sendOnly hadmits]
          exact iff_of_true ⟨.of_returns (by simp), by simp, fun _ _ => rfl⟩ (by simp)
      | false =>
          have hnew : groupName ∉ d.groups := (admits_iff.mp hadmits).2.2.1
          have hlookup := (insertGroup_lookup d (Group.new groupName bufferSize queueSize)
            queueSize groupName).trans (if_pos rfl)
          rw [← Connection.joinGroup_eq_zero_iff]
          obtain honline | hoffline := d.connStatus.online_or_offline
          · rw [registerGroup_online hadmits honline]
            constructor
            · intro hwhole _ _
              obtain ⟨r, -, -, -, hjoined⟩ := hwhole.receiving (by simp) rfl
              exact ⟨honline, hjoined⟩
            · intro hjoined
              refine ⟨.of_returns (by simp), fun _ _ => ?_, by simp⟩
              exact ⟨_, hlookup, rfl, Function.update_self .., (hjoined rfl hadmits).2⟩
          · rw [registerGroup_offline hadmits hoffline]
            refine iff_of_false (fun hwhole => ?_) (by simp [hadmits, hoffline])
            -- it throws with the group in the map
            have hsame : (d.insertGroup (Group.new groupName bufferSize queueSize)
                queueSize).groups = d.groups := congrArg Prod.fst (hwhole.thrown (by simp))
            rw [hsame, AList.lookup_eq_none.mpr hnew] at hlookup
            cases hlookup

/-- An offline registration throws and leaves the group in the map. -/
theorem registered_offline : ¬ ∀ s : World,
    (World.machine World.demoClient).Reachable (fun _ _ => True) s →
      ∀ groupName bufferSize queueSize sendOnly sent,
        RegistersWhole s.dispatcher groupName bufferSize queueSize sendOnly sent
          (s.dispatcher.registerGroup groupName bufferSize queueSize sendOnly sent) := by
  intro hall
  have hwhole := hall World.demo ⟨_, [], World.demo_init, .nil⟩ World.demoGroup 8 2 false true
  have hthrows : Throws (World.demo.dispatcher.registerGroup World.demoGroup 8 2 false true) :=
    ⟨.networkNotConnected, rfl⟩
  have hsame : (World.demo.dispatcher.registerGroup World.demoGroup 8 2 false true).2.groups =
      World.demo.dispatcher.groups := congrArg Prod.fst (hwhole.thrown hthrows)
  have hmem : World.demoGroup ∈
      (World.demo.dispatcher.registerGroup World.demoGroup 8 2 false true).2.groups := by decide
  rw [hsame] at hmem
  revert hmem
  decide

/-- The mailboxes with an open session behind them. -/
def openSessions (d : Dispatcher) : Set Mailbox :=
  {mbox | (d.connection.spread.sessions mbox).isSome}

/-- What a caller can expect of `connect`. -/
structure ConnectsWhole (d : Dispatcher) (c : Called DispatcherException Bool Dispatcher) :
    Prop where
  failed : Throws c ∨ c.1 = .ok false →
    c.2.connStatus = d.connStatus ∧ c.2.groups = d.groups ∧
      c.2.sendOnlyGroups = d.sendOnlyGroups ∧ c.2.openSessions.encard = d.openSessions.encard
  connected : c.1 = .ok true → c.2.connStatus = .online ∧ d.controlGroup ∈ c.2.groups

/-- **All or nothing.** `connect` ends ONLINE with its control group or changes neither the
status nor the groups nor the sessions, exactly when the control group can be registered
where the session is accepted. -/
theorem connectsWhole_iff (d : Dispatcher) (answer : Answer) (sent : Bool) :
    ConnectsWhole d (d.connect answer sent) ↔
      (d.connStatus = .offline → d.activity = .stopped →
        (∃ privateGroup, answer = .accepted privateGroup) →
          d.admits d.controlGroup 1 false = true) := by
  by_cases hopens : d.connStatus = .offline ∧ d.activity = .stopped
  · obtain ⟨hoffline, hstopped⟩ := hopens
    cases answer with
    | refused code =>
        rw [connect_refused hoffline hstopped]
        exact iff_of_true ⟨fun _ => ⟨rfl, rfl, rfl, rfl⟩, by simp⟩ (by simp)
    | accepted privateGroup =>
        rw [connect_accepted hoffline hstopped]
        cases hadmits : d.admits d.controlGroup 1 false with
        | false =>
            obtain ⟨e, h⟩ := registerGroup_refuses (d := d.connected privateGroup) 1 sent
              hadmits
            rw [h]
            refine iff_of_false (fun hwhole => ?_) (by simp [hoffline, hstopped])
            -- it throws and stays ONLINE
            have hstatus : ConnStatus.online = d.connStatus :=
              (hwhole.failed (.inl ⟨e, rfl⟩)).1
            rw [hoffline] at hstatus
            cases hstatus
        | true =>
            have hlookup := (insertGroup_lookup (d.connected privateGroup)
              (Group.new d.controlGroup 1 1) 1 d.controlGroup).trans (if_pos rfl)
            rw [registerGroup_online (d := d.connected privateGroup) hadmits rfl]
            refine iff_of_true ⟨?_, fun _ => ⟨rfl, ?_⟩⟩ (by simp)
            · rintro (⟨e, h⟩ | h) <;> cases h
            · exact AList.lookup_isSome.mp (Option.isSome_of_eq_some hlookup)
  · obtain ⟨e, h⟩ := connect_refuses hopens answer sent
    rw [h]
    refine iff_of_true ⟨fun _ => ⟨rfl, rfl, rfl, rfl⟩, fun h => ?_⟩ ?_
    · cases h
    · exact fun hoffline hstopped => absurd ⟨hoffline, hstopped⟩ hopens

/-- A client of 27 bytes: its control group's name is too long. -/
theorem connected_half : ¬ ∀ (clientName : Str) (s : World),
    (World.machine clientName).Reachable (fun _ _ => True) s → ∀ answer sent,
      ConnectsWhole s.dispatcher (s.dispatcher.connect answer sent) := by
  intro hall
  let clientName : Str := List.replicate 27 97
  let d := Dispatcher.initial clientName [] false true 0
  have hwhole := hall clientName (.initial d) ⟨_, [], ⟨[], false, true, 0, rfl⟩, .nil⟩
    (.accepted [35, 97]) true
  have hthrows : Throws (d.connect (.accepted [35, 97]) true) := ⟨.groupNameExceeded, rfl⟩
  have hstatus : ConnStatus.online = ConnStatus.offline := (hwhole.failed (.inl hthrows)).1
  cases hstatus

/-- What a caller can expect of `unregisterGroup`. -/
structure UnregistersOnly (d : Dispatcher) (groupName : Str) (sent : Bool)
    (c : Called DispatcherException Unit Dispatcher) : Prop where
  removed : ¬ Throws c → c.2.findGroup groupName = false
  sendOnly : ¬ Throws c → c.2.sendOnlyGroups.filter (·.name ≠ groupName) =
    d.sendOnlyGroups.filter (·.name ≠ groupName)
  receiving : ¬ Throws c → ∀ other, other ≠ groupName →
    c.2.groups.lookup other = d.groups.lookup other
  left : ¬ Throws c → groupName ∈ d.groups →
    c.2.connection = (d.connection.leaveGroup sent groupName).2
  throws_iff : Throws c ↔ maxGroupName ≤ groupName.length ∨ d.findGroup groupName = false ∨
    groupName ∈ d.groups ∧ d.connStatus ≠ .online
  thrown : Strong id d c

/-- The loop over the send-only groups does no harm: there is none, or the first one is
the group, which is registered nowhere else. -/
def firstOnly (d : Dispatcher) (groupName : Str) : Bool :=
  match d.sendOnlyGroups with
  | [] => true
  | first :: rest =>
      first.name = groupName && !rest.any (·.name = groupName) && groupName ∉ d.groups

/-- **Only the named group.** `unregisterGroup` removes the group and no other or throws and
changes nothing, exactly when the name is too long, no group is send-only, or the first
send-only group is the only one of the name. -/
theorem unregistersOnly_iff (d : Dispatcher) (groupName : Str) (sent : Bool) :
    UnregistersOnly d groupName sent (d.unregisterGroup groupName sent) ↔
      maxGroupName ≤ groupName.length ∨ d.firstOnly groupName = true := by
  by_cases hlength : maxGroupName ≤ groupName.length
  · rw [unregisterGroup, if_pos hlength]
    exact iff_of_true ⟨by simp, by simp, by simp, by simp, by simp [hlength], .of_same rfl⟩
      (.inl hlength)
  rw [unregisterGroup, if_neg hlength, or_iff_right hlength]
  cases hlist : d.sendOnlyGroups with
  | nil =>
      have hfirst : d.firstOnly groupName = true := by rw [firstOnly, hlist]
      refine iff_of_true ?_ hfirst
      have hfind : d.findGroup groupName = false ↔ groupName ∉ d.groups := by
        simp [findGroup, hlist]
      by_cases hmem : groupName ∈ d.groups
      · obtain honline | hoffline := d.connStatus.online_or_offline
        · simp only [hmem, honline, if_true]
          refine ⟨fun _ => ?_, by simp [hlist], fun _ other hother => ?_, fun _ _ => rfl, ?_,
            .of_returns (by simp)⟩
          · simp [findGroup, AList.mem_erase]
          · exact AList.lookup_erase_ne hother
          · simp [hfind, hmem, honline, hlength]
        · simp only [hmem, hoffline, if_true]
          exact ⟨by simp, by simp, by simp, by simp, by simp [hmem, hoffline], .of_same rfl⟩
      · simp only [hmem, if_false]
        exact ⟨by simp, by simp, by simp, by simp, by simp [hfind, hmem], .of_same rfl⟩
  | cons first rest =>
      have hfirst : d.firstOnly groupName = true ↔ first.name = groupName ∧
          (rest.any (·.name = groupName)) = false ∧ groupName ∉ d.groups := by
        rw [firstOnly, hlist]
        simp [and_assoc]
      rw [hfirst]
      by_cases hname : first.name = groupName
      · simp only [hname, if_true, true_and]
        constructor
        · intro hwhole
          have hremoved := hwhole.removed (by simp)
          simpa [findGroup] using hremoved
        · rintro ⟨hrest, hmem⟩
          refine ⟨fun _ => ?_, fun _ => ?_, fun _ _ _ => rfl, fun _ h => absurd h hmem, ?_,
            .of_returns (by simp)⟩
          · simpa [findGroup, hmem] using hrest
          · simp [hlist, hname]
          · simp [findGroup, hlist, hname, hlength, hmem]
      · -- the call returns whether or not the name is registered
        simp only [hname, if_false, false_and, iff_false]
        intro hwhole
        have hremoved : d.findGroup groupName = false := hwhole.removed (by simp)
        have hthrows := hwhole.throws_iff.mpr (.inr (.inl hremoved))
        simp at hthrows

/-- A receiving group behind a send-only one is not unregistered. -/
theorem not_unregistered : ¬ ∀ s : World,
    (World.machine World.demoClient).Reachable (fun _ _ => True) s → ∀ groupName sent,
      UnregistersOnly s.dispatcher groupName sent
        (s.dispatcher.unregisterGroup groupName sent) := by
  intro hall
  obtain ⟨s, reach, hreturned, hfound⟩ := Machine.Reachable.exists_of_exec (fun _ _ => True)
    World.demo_init [World.connects, World.registers,
      .perform 0 (.registerGroup [104] 2 1 true) true]
    (fun s => (s.dispatcher.unregisterGroup World.demoGroup true).1 = .ok () ∧
      (s.dispatcher.unregisterGroup World.demoGroup true).2.findGroup World.demoGroup = true)
    (by decide)
  have hwhole := hall s reach World.demoGroup true
  have hremoved := hwhole.removed (not_throws_iff.mpr ⟨(), hreturned⟩)
  rw [hfound] at hremoved
  cases hremoved

end Dispatcher

end Netbroker
