import Netbroker.Connector.Basic
import Netbroker.Transition.Machine

/-!
# The calls of a connector

A connector passes its stored mailbox number to the library and lets the library find
out whether a session is behind it. It stores a status beside the number, writes both
when a connect succeeds, and leaves both alone from then on: closing the session does
not change them.

Each call makes at most one call of the library. `SP_connect` gets its socket from the
system, so it may be any number that is not open, one that was open before included.

What a call does to the sessions is one inversion, `call_cases`. As long as the status is the
truth the stored number is that of the open session, if there is one, and the first call that
makes it untrue is one that opens a session beside that one or closes it.
-/

namespace Netbroker

open Spread Transition

/-- The calls of `SpreadConnector`, with what the library is up to in them. -/
inductive Call where
  | connectNetwork (address : Str) (socket : Mailbox) (answer : Answer)
  | disconnectNetwork
  | leaveNetwork
  | joinGroup (group : Str) (sent : Bool)
  | leaveGroup (group : Str) (sent : Bool)
  | sendToGroup (b : Buffer) (sent : Bool)

/-- The socket of a session that the call opens. -/
def Call.opens : Call → Option Mailbox
  | .connectNetwork _ socket (.accepted _) => some socket
  | _ => none

/-- The client `ab` connects, on the given socket. -/
def Call.connectsOn (socket : Mailbox) : Call :=
  .connectNetwork [] socket (.accepted [35, 97, 98])

namespace Connection

def leaveNetwork (c : Connection) : Int × Connection :=
  if c.connector.connectionStatus < 0 then (c.connector.connectionStatus, c)
  else
    let (ret, spread) := Spread.disconnect c.spread c.connector.spreadMbox
    (ret, { c with spread })

def isConnected (c : Connection) : Bool := !decide (c.connector.connectionStatus < 0)

def call (c : Connection) : Call → Option (Connection × Int)
  | .connectNetwork address socket answer =>
      if (c.spread.sessions socket).isSome then none
      else
        let c := { c with spread := { c.spread with opened := socket } }
        some (c.connectNetwork address answer).swap
  | .disconnectNetwork => some c.disconnectNetwork.swap
  | .leaveNetwork => some c.leaveNetwork.swap
  | .joinGroup group sent => some (c.joinGroup sent group).swap
  | .leaveGroup group sent => some (c.leaveGroup sent group).swap
  | .sendToGroup b sent => some (c.sendToGroup sent b).swap

/-- The call gets as far as `SP_disconnect`. -/
def closes (c : Connection) : Call → Bool
  | .disconnectNetwork => c.connector.connectionStatus = connJoinSuccess
  | .leaveNetwork => 0 ≤ c.connector.connectionStatus
  | _ => false

/-- `SP_internal_multicast` gets as far as the socket. -/
def carries (c : Connection) (len : Nat) : Bool :=
  c.session.any fun s => s.active && decide (len + maxGroupName ≤ 144000)

/-- The call closes the session behind the stored number, or sends something on it. -/
def reaches (c : Connection) : Call → Bool
  | .joinGroup group _ | .leaveGroup group _ => legalGroup (cstr group) && c.carries 0
  | .sendToGroup b _ => decide (b.groupName.length ≤ maxGroupName) && c.carries b.data.length
  | call => c.closes call && c.session.isSome

variable {c c' : Connection}

/-- A send leaves the numbers of the open sessions, and all sessions but the one it reaches. -/
theorem internalMulticast_keeps (c : Connection) (sent : Bool) (len : Nat)
    (effect : Session → Session) (mbox : Mailbox) :
    let sessions :=
      (internalMulticast c.spread c.connector.spreadMbox sent len effect).2.sessions
    (sessions mbox).isSome = (c.spread.sessions mbox).isSome ∧
      (mbox ≠ c.connector.spreadMbox ∨ c.carries len = false →
        sessions mbox = c.spread.sessions mbox) := by
  refine ⟨internalMulticast_isSome .., ?_⟩
  rintro (hne | hcarries)
  · obtain h | ⟨s, -, h | h⟩ :=
      internalMulticast_cases c.spread c.connector.spreadMbox sent len effect
    · rw [h]
    · rw [h, Library.set_sessions_of_ne _ hne]
    · rw [h, Library.set_sessions_of_ne _ hne]
  · have hsame :
        (internalMulticast c.spread c.connector.spreadMbox sent len effect).2 = c.spread := by
      rw [carries, session] at hcarries
      rw [internalMulticast]
      split
      · rfl
      · rename_i s hs
        rw [hs] at hcarries
        split
        · rfl
        · split
          · rfl
          · rename_i hactive hlength
            simp only [Bool.not_eq_true', Bool.not_eq_false] at hactive
            simp only [Option.any_some, hactive, Bool.true_and, decide_eq_false_iff_not]
              at hcarries
            exact absurd (Nat.not_lt.mp hlength) hcarries
    rw [hsame]

/-- So does a join or a leave, which looks at the name of the group first. -/
theorem group_keeps (c : Connection) (sent : Bool) (name : Str) (effect : Session → Session)
    (mbox : Mailbox) :
    let sessions := (if !legalGroup name then (illegalGroup, c.spread)
      else internalMulticast c.spread c.connector.spreadMbox sent 0 effect).2.sessions
    (sessions mbox).isSome = (c.spread.sessions mbox).isSome ∧
      (mbox ≠ c.connector.spreadMbox ∨ (legalGroup name && c.carries 0) = false →
        sessions mbox = c.spread.sessions mbox) := by
  cases hlegal : legalGroup name with
  | false => exact ⟨rfl, fun _ => rfl⟩
  | true =>
      rw [Bool.true_and]
      exact internalMulticast_keeps c sent 0 effect mbox

/-- Closing a number leaves it without a session, and the others as they were. -/
theorem disconnect_sessions (lib : Library) (mbox : Mailbox) :
    (Spread.disconnect lib mbox).2.sessions = Function.update lib.sessions mbox none := by
  rw [Spread.disconnect]
  split
  · rename_i hnone
    rw [← hnone, Function.update_eq_self]
  · rfl

/-- A call opens a session, closes the one behind the stored number, or leaves the table
of sessions with the same numbers, and the sessions alone if it does not reach them. -/
theorem call_cases {e : Call} {ret : Int} (h : c.call e = some (c', ret)) :
    (∃ address socket privateGroup, e = .connectNetwork address socket (.accepted privateGroup) ∧
        c.spread.sessions socket = none ∧ c'.connector.spreadMbox = socket ∧
        c'.connector.connectionStatus = connJoinSuccess ∧ c'.spread.sessions =
          Function.update c.spread.sessions socket (some
            { privateGroup, active := true, pending := [], unordered := [], closed := false, joined := ∅ })) ∨
      (c.closes e = true ∧ e.opens = none ∧ c'.connector = c.connector ∧ c'.spread.sessions =
        Function.update c.spread.sessions c.connector.spreadMbox none) ∨
      (c.closes e = false ∧ e.opens = none ∧ c'.connector = c.connector ∧ ∀ mbox,
        (c'.spread.sessions mbox).isSome = (c.spread.sessions mbox).isSome ∧
          (mbox ≠ c.connector.spreadMbox ∨ c.reaches e = false →
            c'.spread.sessions mbox = c.spread.sessions mbox)) := by
  cases e with
  | connectNetwork address socket answer =>
      simp only [call] at h
      split at h
      · cases h
      · rename_i hfree
        obtain ⟨rfl, -⟩ := Prod.mk.inj (Option.some.inj h)
        cases answer with
        | refused code => exact .inr (.inr ⟨rfl, rfl, rfl, fun mbox => ⟨rfl, fun _ => rfl⟩⟩)
        | accepted privateGroup =>
            exact .inl ⟨address, socket, privateGroup, rfl, by simpa using hfree, rfl, rfl, rfl⟩
  | disconnectNetwork =>
      simp only [call, disconnectNetwork] at h
      split at h
      · rename_i hstatus
        obtain ⟨rfl, -⟩ := Prod.mk.inj (Option.some.inj h)
        exact .inr (.inl ⟨by simp [closes, hstatus], rfl, rfl, disconnect_sessions ..⟩)
      · rename_i hstatus
        obtain ⟨rfl, -⟩ := Prod.mk.inj (Option.some.inj h)
        exact .inr (.inr ⟨by simp [closes, hstatus], rfl, rfl, fun mbox => ⟨rfl, fun _ => rfl⟩⟩)
  | leaveNetwork =>
      simp only [call, leaveNetwork] at h
      split at h
      · rename_i hstatus
        obtain ⟨rfl, -⟩ := Prod.mk.inj (Option.some.inj h)
        exact .inr (.inr ⟨by simp [closes, hstatus], rfl, rfl, fun mbox => ⟨rfl, fun _ => rfl⟩⟩)
      · rename_i hstatus
        obtain ⟨rfl, -⟩ := Prod.mk.inj (Option.some.inj h)
        exact .inr (.inl ⟨by simpa [closes] using hstatus, rfl, rfl, disconnect_sessions ..⟩)
  | joinGroup group sent =>
      obtain ⟨rfl, -⟩ := Prod.mk.inj (Option.some.inj h)
      refine .inr (.inr ⟨rfl, rfl, rfl, fun mbox => ?_⟩)
      exact group_keeps c sent (cstr group) _ mbox
  | leaveGroup group sent =>
      obtain ⟨rfl, -⟩ := Prod.mk.inj (Option.some.inj h)
      refine .inr (.inr ⟨rfl, rfl, rfl, fun mbox => ?_⟩)
      exact group_keeps c sent (cstr group) _ mbox
  | sendToGroup b sent =>
      obtain ⟨rfl, -⟩ := Prod.mk.inj (Option.some.inj h)
      refine .inr (.inr ⟨rfl, rfl, ?_, fun mbox => ?_⟩)
      · rw [sendToGroup]
        split <;> rfl
      · rw [sendToGroup]
        split
        · exact ⟨rfl, fun _ => rfl⟩
        · rename_i hname
          have hregular : isRegularMess safeMess = true := by decide
          have hfits : decide (b.groupName.length ≤ maxGroupName) = true :=
            decide_eq_true (Nat.not_lt.mp hname)
          simp only [Spread.multicast, hregular, reaches, hfits, Bool.true_and]
          exact internalMulticast_keeps c sent b.data.length _ mbox

/-- `isConnected` tells whether a session of the connector is open, and one is at most. -/
structure Truthful (c : Connection) : Prop where
  connected : c.isConnected = true ↔ ∃ mbox, (c.spread.sessions mbox).isSome = true
  single : ∀ mbox mbox', (c.spread.sessions mbox).isSome = true →
    (c.spread.sessions mbox').isSome = true → mbox = mbox'

/-- No call closes the session or opens a second one. -/
def Clings (c : Connection) (e : Call) : Prop :=
  c.session.isSome = true → e.opens = none ∧ c.closes e = false

/-- One connector in a process of its own. -/
def machine (clientName : Str) : Machine Connection Call Int where
  init c := ∃ mbox, c = initial clientName mbox
  step := call

/-- As long as the status is the truth, it is what the number stands for. -/
structure Sound (c : Connection) : Prop where
  truthful : c.Truthful
  here : ∀ mbox, (c.spread.sessions mbox).isSome = true → mbox = c.connector.spreadMbox
  status : c.connector.connectionStatus = connJoinSuccess ∨ c.connector.connectionStatus < 0

theorem Sound.isConnected_iff (h : c.Sound) :
    c.isConnected = true ↔ c.session.isSome = true := by
  rw [h.truthful.connected]
  constructor
  · rintro ⟨mbox, hopen⟩
    rw [session, ← h.here mbox hopen]
    exact hopen
  · exact fun hopen => ⟨_, hopen⟩

/-- After a session has been opened the status is the truth if there was none before. -/
theorem Sound.after_open {e : Call} {socket : Mailbox} {s : Session} (hc : c.Sound)
    (hopens : e.opens = some socket)
    (hfree : c.spread.sessions socket = none) (hmbox : c'.connector.spreadMbox = socket)
    (hstatus : c'.connector.connectionStatus = connJoinSuccess)
    (hsessions : c'.spread.sessions = Function.update c.spread.sessions socket (some s)) :
    (c'.Truthful → c'.Sound) ∧ (c'.Truthful ↔ c.Clings e) := by
  have hopen : (c'.spread.sessions socket).isSome = true := by
    rw [hsessions, Function.update_self]
    rfl
  have hconnected : c'.isConnected = true := by
    rw [isConnected, hstatus]
    rfl
  refine ⟨fun ht => ⟨ht, fun mbox hm => ?_, .inl hstatus⟩, fun ht hsession => ?_,
    fun hclings => ?_⟩
  · rw [hmbox]
    exact ht.single mbox socket hm hopen
  · have hne : c.connector.spreadMbox ≠ socket := by
      intro hsame
      rw [session, hsame, hfree] at hsession
      cases hsession
    have hstill : (c'.spread.sessions c.connector.spreadMbox).isSome = true := by
      rw [hsessions, Function.update_of_ne hne]
      exact hsession
    exact absurd (ht.single _ _ hstill hopen) hne
  · have honly : ∀ mbox, (c'.spread.sessions mbox).isSome = true → mbox = socket := by
      intro mbox hm
      by_contra hne
      rw [hsessions, Function.update_of_ne hne] at hm
      have hsession : c.session.isSome = true := by
        rw [session, ← hc.here mbox hm]
        exact hm
      rw [(hclings hsession).1] at hopens
      cases hopens
    exact ⟨⟨fun _ => ⟨socket, hopen⟩, fun _ => hconnected⟩,
      fun mbox mbox' hm hm' => (honly mbox hm).trans (honly mbox' hm').symm⟩

/-- After a session has been closed the status is not. -/
theorem Sound.after_close {e : Call} (hc : c.Sound) (hcloses : c.closes e = true)
    (hconnector : c'.connector = c.connector) (hsessions : c'.spread.sessions =
      Function.update c.spread.sessions c.connector.spreadMbox none) :
    (c'.Truthful → c'.Sound) ∧ (c'.Truthful ↔ c.Clings e) := by
  have hstatus : 0 ≤ c.connector.connectionStatus := by
    cases e <;> simp_all [closes]
  have hconnected : c.isConnected = true := by
    simpa [isConnected] using hstatus
  have huntrue : ¬ c'.Truthful := by
    intro ht
    obtain ⟨mbox, hm⟩ := ht.connected.mp (by rw [isConnected, hconnector]; exact hconnected)
    by_cases hmbox : mbox = c.connector.spreadMbox
    · rw [hsessions, hmbox, Function.update_self] at hm
      cases hm
    · rw [hsessions, Function.update_of_ne hmbox] at hm
      exact hmbox (hc.here mbox hm)
  refine ⟨fun ht => absurd ht huntrue, fun ht => absurd ht huntrue, fun hclings => ?_⟩
  rw [(hclings (hc.isConnected_iff.mp hconnected)).2] at hcloses
  cases hcloses

/-- Any other call leaves the status and what it tells. -/
theorem Sound.after_other {e : Call} (hc : c.Sound) (hcloses : c.closes e = false)
    (hopens : e.opens = none) (hconnector : c'.connector = c.connector)
    (hsame : ∀ mbox, (c'.spread.sessions mbox).isSome = (c.spread.sessions mbox).isSome) :
    (c'.Truthful → c'.Sound) ∧ (c'.Truthful ↔ c.Clings e) := by
  have ht : c'.Truthful := by
    constructor
    · have hold := hc.truthful.connected
      simp only [isConnected, hconnector, hsame] at hold ⊢
      exact hold
    · intro mbox mbox' hm hm'
      rw [hsame] at hm hm'
      exact hc.truthful.single mbox mbox' hm hm'
  refine ⟨fun _ => ⟨ht, fun mbox hm => ?_, ?_⟩, fun _ _ => ⟨hopens, hcloses⟩, fun _ => ht⟩
  · rw [hsame] at hm
    rw [hconnector]
    exact hc.here mbox hm
  · rw [hconnector]
    exact hc.status

/-- A second session, or a session closed under the old status. -/
theorem call_sound {e : Call} {ret : Int} (hc : c.Sound) (h : c.call e = some (c', ret)) :
    (c'.Truthful → c'.Sound) ∧ (c'.Truthful ↔ c.Clings e) := by
  obtain ⟨address, socket, privateGroup, rfl, hfree, hmbox, hstatus, hsessions⟩ |
    ⟨hcloses, -, hconnector, hsessions⟩ | ⟨hcloses, hopens, hconnector, hsame⟩ := call_cases h
  · exact hc.after_open rfl hfree hmbox hstatus hsessions
  · exact hc.after_close hcloses hconnector hsessions
  · exact hc.after_other hcloses hopens hconnector fun mbox => (hsame mbox).1

theorem initial_sound (clientName : Str) (mbox : Mailbox) : (initial clientName mbox).Sound := by
  refine ⟨⟨?_, ?_⟩, ?_, .inr ?_⟩
  · simp [isConnected, initial, connDisconnected, Library.initial]
  all_goals simp [initial, connDisconnected, Library.initial]

/-- **Status.** In every history of one connector: `isConnected` is true after each call
exactly while a session of the connector is open, and at most one is, exactly when no
call of the history opens a session or gets as far as `SP_disconnect` while one is open. -/
theorem status_truthful_iff (clientName : Str) {c₀ c : Connection} {trace : List (Call × Int)}
    (hinit : (machine clientName).init c₀)
    (run : (machine clientName).Run (fun _ _ => True) c₀ trace c) :
    (machine clientName).EveryStep c₀ trace (fun _ _ c' _ => c'.Truthful) ↔
      (machine clientName).Run Clings c₀ trace c := by
  obtain ⟨mbox, rfl⟩ := hinit
  refine run.everyStep_iff (I := Sound) (initial_sound clientName mbox) ?_ ?_
  · intro a e b o ha move hb
    exact (call_sound ha move).1 hb
  · intro a e b o ha move
    exact (call_sound ha move).2

theorem status_truthful_connected : ∃ c : Connection,
    (machine [97, 98]).Run Clings (initial [97, 98] 0)
        [(.connectsOn 7, 1), (.joinGroup [103] true, 0)] c ∧ c.isConnected = true ∧
      (machine [97, 98]).EveryStep (initial [97, 98] 0)
        [(.connectsOn 7, 1), (.joinGroup [103] true, 0)] (fun _ _ c' _ => c'.Truthful) := by
  obtain ⟨c, run, hconnected⟩ : ∃ c, (machine [97, 98]).Run Clings (initial [97, 98] 0)
      [(.connectsOn 7, 1), (.joinGroup [103] true, 0)] c ∧ c.isConnected = true :=
    ⟨_, .cons (fun hsession => nomatch hsession) rfl (.single (fun _ => ⟨rfl, rfl⟩) rfl), rfl⟩
  exact ⟨c, run, hconnected,
    (status_truthful_iff [97, 98] ⟨0, rfl⟩ (run.mono fun _ _ _ => trivial)).mpr run⟩

/-- The connector is still connected after `disconnectNetwork`. -/
theorem status_stale : ¬ ∀ c : Connection, (machine [97, 98]).Reachable (fun _ _ => True) c →
    c.Truthful := by
  intro hall
  have run : (machine [97, 98]).Run (fun _ _ => True) (initial [97, 98] 0)
      [(.connectsOn 7, 1), (.disconnectNetwork, 0)] _ :=
    .cons trivial rfl (.single trivial rfl)
  obtain ⟨mbox, hopen⟩ := (hall _ ⟨_, _, ⟨0, rfl⟩, run⟩).connected.mp rfl
  by_cases hmbox : mbox = 7
  · subst hmbox
    cases hopen
  · have hclosed : (Function.update (Function.update (fun _ => (none : Option Session)) 7 _) 7
        none mbox).isSome = true := hopen
    rw [Function.update_of_ne hmbox, Function.update_of_ne hmbox] at hclosed
    cases hclosed

end Connection

end Netbroker
