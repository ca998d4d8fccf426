import Netbroker.Connector.Calls

/-!
# Connectors of one process

The connectors of a process share the library's table of sessions, and their claim to
a session is the number they have stored. The system gives a number out again once its
session is closed, so a connector that keeps using the number of a session it has
closed, or never had one, may meet the session of another.
-/

namespace Netbroker

open Spread Transition

abbrev ConnectorId := Nat

/-- The connectors of a process, with the history of their calls beside them. -/
structure Process where
  connectors : ConnectorId → SpreadConnector
  spread : Library
  /-- The connector whose `SP_connect` got the mailbox last. -/
  opener : Mailbox → Option ConnectorId
  /-- The connector has connected, and has not got as far as `SP_disconnect` since. -/
  engaged : ConnectorId → Bool

namespace Process

/-- The process as one of its connectors sees it. -/
def view (p : Process) (id : ConnectorId) : Connection :=
  { connector := p.connectors id, spread := p.spread }

/-- The connector's claim to a session after a call. -/
def engages (p : Process) (id : ConnectorId) (e : Call) : Bool :=
  if e.opens.isSome then true
  else if (p.view id).closes e then false
  else p.engaged id

/-- The openers after a call. -/
def opened (p : Process) (id : ConnectorId) (e : Call) : Mailbox → Option ConnectorId :=
  match e.opens with
  | some socket => Function.update p.opener socket (some id)
  | none => p.opener

def step (p : Process) (x : ConnectorId × Call) : Option (Process × Int) :=
  match (p.view x.1).call x.2 with
  | none => none
  | some (c, ret) =>
      some ({ connectors := Function.update p.connectors x.1 c.connector
              spread := c.spread
              opener := p.opened x.1 x.2
              engaged := Function.update p.engaged x.1 (p.engages x.1 x.2) }, ret)

/-- Any connectors, none of them connected. -/
def machine : Machine Process (ConnectorId × Call) Int where
  init p := ∃ clientName mbox : ConnectorId → _, p =
    { connectors := fun id => (Connection.initial (clientName id) (mbox id)).connector
      spread := .initial, opener := fun _ => none, engaged := fun _ => false }
  step := step

/-- The call closes, or sends on, no session that another connector has opened. -/
def Minds (p : Process) (x : ConnectorId × Call) : Prop :=
  (p.view x.1).reaches x.2 = true → p.opener (p.connectors x.1).spreadMbox = some x.1

/-- A call that reaches a session is made on a connector that has one. -/
def Engaged (p : Process) (x : ConnectorId × Call) : Prop :=
  (p.view x.1).reaches x.2 = true → p.engaged x.1 = true

/-- A connector with a claim to a session holds the number of one that it has opened,
and a connector that holds such a number has a claim to it. -/
def Rightful (p : Process) : Prop :=
  ∀ id, p.engaged id = true ↔ ((p.view id).session.isSome = true ∧
    p.opener (p.connectors id).spreadMbox = some id)

theorem reaches_session {c : Connection} {e : Call} (h : c.reaches e = true) :
    c.session.isSome = true := by
  have carried : ∀ {len : Nat}, c.carries len = true → c.session.isSome = true := by
    intro len hcarries
    obtain ⟨s, hs, -⟩ := (Option.any_eq_true _ _).mp hcarries
    rw [hs]
    rfl
  cases e with
  | connectNetwork => cases h
  | disconnectNetwork | leaveNetwork => exact ((Bool.and_eq_true _ _).mp h).2
  | joinGroup | leaveGroup | sendToGroup => exact carried ((Bool.and_eq_true _ _).mp h).2

theorem minds_iff_engaged {p : Process} (hp : p.Rightful) (x : ConnectorId × Call) :
    p.Minds x ↔ p.Engaged x := by
  constructor
  · intro h hreaches
    exact (hp x.1).mpr ⟨reaches_session hreaches, h hreaches⟩
  · intro h hreaches
    exact ((hp x.1).mp (h hreaches)).2

/-- A call that gets as far as `SP_disconnect` reaches the session if there is one. -/
theorem reaches_of_closes {c : Connection} {e : Call} (hcloses : c.closes e = true)
    (hsession : c.session.isSome = true) : c.reaches e = true := by
  cases e with
  | disconnectNetwork | leaveNetwork => exact (Bool.and_eq_true _ _).mpr ⟨hcloses, hsession⟩
  | _ => cases hcloses

/-- Without an open session of its own a connector has no claim. -/
theorem Rightful.not_engaged {p : Process} (hp : p.Rightful) {id : ConnectorId}
    (h : (p.view id).session.isSome = true → p.opener (p.connectors id).spreadMbox ≠ some id) :
    p.engaged id = false := by
  rw [← Bool.not_eq_true, hp id]
  rintro ⟨hsession, hopener⟩
  exact h hsession hopener

theorem step_inv {p p' : Process} {id : ConnectorId} {e : Call} {ret : Int}
    (h : p.step (id, e) = some (p', ret)) : ∃ c, (p.view id).call e = some (c, ret) ∧ p' =
      { connectors := Function.update p.connectors id c.connector
        spread := c.spread
        opener := p.opened id e
        engaged := Function.update p.engaged id (p.engages id e) } := by
  rw [step] at h
  split at h
  · cases h
  · rename_i c ret' hcall
    obtain ⟨rfl, rfl⟩ := Prod.mk.inj (Option.some.inj h)
    exact ⟨c, hcall, rfl⟩

/-- A session of a number that was not open is the opener's alone. -/
theorem Rightful.after_open {p : Process} {id : ConnectorId} {e : Call} {c : Connection}
    {s : Session} {socket : Mailbox} (hp : p.Rightful) (hopens : e.opens = some socket)
    (hfree : p.spread.sessions socket = none) (hmbox : c.connector.spreadMbox = socket)
    (hsessions : c.spread.sessions = Function.update p.spread.sessions socket (some s)) :
    Rightful
      { connectors := Function.update p.connectors id c.connector
        spread := c.spread
        opener := p.opened id e
        engaged := Function.update p.engaged id (p.engages id e) } := by
  intro other
  have hold := hp other
  have hopened : p.opened id e = Function.update p.opener socket (some id) := by
    simp [opened, hopens]
  simp only [view, Connection.session, hopened, hsessions] at hold ⊢
  by_cases hother : other = id
  · subst hother
    simp [hmbox, engages, hopens]
  · rw [Function.update_of_ne hother, Function.update_of_ne hother]
    by_cases hshared : (p.connectors other).spreadMbox = socket
    · -- nobody can have had a claim to a number that was not open
      have hnone : p.engaged other = false := by
        apply hp.not_engaged
        intro hsession
        rw [view, Connection.session, hshared, hfree] at hsession
        cases hsession
      simp [hnone, hshared, Ne.symm hother]
    · simp only [Function.update_of_ne hshared]
      exact hold

/-- A session that is closed by its opener is lost to nobody else. -/
theorem Rightful.after_close {p : Process} {id : ConnectorId} {e : Call} {c : Connection}
    (hp : p.Rightful) (minds : p.Minds (id, e)) (hcloses : (p.view id).closes e = true)
    (hopens : e.opens = none) (hconnector : c.connector = p.connectors id)
    (hsessions : c.spread.sessions =
      Function.update p.spread.sessions (p.connectors id).spreadMbox none) :
    Rightful
      { connectors := Function.update p.connectors id c.connector
        spread := c.spread
        opener := p.opened id e
        engaged := Function.update p.engaged id (p.engages id e) } := by
  intro other
  have hold := hp other
  have hsameOpener : p.opened id e = p.opener := by simp [opened, hopens]
  have hleft : p.engages id e = false := by simp [engages, hopens, hcloses]
  simp only [view, Connection.session, hsameOpener, hleft, hsessions, hconnector] at hold ⊢
  by_cases hother : other = id
  · subst hother
    simp
  · rw [Function.update_of_ne hother, Function.update_of_ne hother]
    by_cases hshared : (p.connectors other).spreadMbox = (p.connectors id).spreadMbox
    · -- the session that has been closed was the closer's own
      have hnone : p.engaged other = false := by
        apply hp.not_engaged
        intro hsession hopener
        rw [view, Connection.session, hshared] at hsession
        rw [hshared, minds (reaches_of_closes hcloses hsession)] at hopener
        exact hother (Option.some.inj hopener).symm
      simp [hnone, hshared]
    · simp only [Function.update_of_ne hshared]
      exact hold

theorem step_rightful {p p' : Process} {x : ConnectorId × Call} {ret : Int} (hp : p.Rightful)
    (h : p.step x = some (p', ret)) (minds : p.Minds x) : p'.Rightful := by
  obtain ⟨id, e⟩ := x
  obtain ⟨c, hcall, rfl⟩ := step_inv h
  obtain ⟨address, socket, privateGroup, rfl, hfree, hmbox, -, hsessions⟩ |
    ⟨hcloses, hopens, hconnector, hsessions⟩ | ⟨hcloses, hopens, hconnector, hsame⟩ :=
      Connection.call_cases hcall
  · exact hp.after_open rfl hfree hmbox hsessions
  · exact hp.after_close minds hcloses hopens hconnector hsessions
  · intro other
    have hold := hp other
    have hsameOpener : p.opened id e = p.opener := by simp [opened, hopens]
    have hsameEngaged : p.engages id e = p.engaged id := by simp [engages, hopens, hcloses]
    have hsameConnector : c.connector = p.connectors id := hconnector
    simp only [view, Connection.session] at hold ⊢
    rw [hsameOpener, hsameEngaged, hsameConnector, Function.update_eq_self,
      Function.update_eq_self, (hsame _).1]
    exact hold

/-- **Isolation.** In every history of the connectors of one process, with any number that
is not open for a new session: no call closes, or sends on, a session that another
connector has opened, exactly when every call that reaches a session is made on a
connector that has connected and not disconnected since. -/
theorem isolated_iff_engaged {p₀ p : Process} {trace : List ((ConnectorId × Call) × Int)}
    (hinit : machine.init p₀) (run : machine.Run (fun _ _ => True) p₀ trace p) :
    machine.EveryStep p₀ trace (fun p x _ _ => p.Minds x) ↔ machine.Run Engaged p₀ trace p := by
  obtain ⟨clientName, mbox, rfl⟩ := hinit
  refine run.everyStep_iff (I := Rightful) ?_ ?_ ?_
  · intro id
    simp
  · intro a x b o ha move minds
    exact step_rightful ha move minds
  · intro a x b o ha _
    exact minds_iff_engaged ha x

/-- Connectors of the client `ab`. -/
def demo : Process :=
  { connectors := fun _ => (Connection.initial [97, 98] 0).connector
    spread := .initial, opener := fun _ => none, engaged := fun _ => false }

theorem demo_init : machine.init demo := ⟨fun _ => [97, 98], fun _ => 0, rfl⟩

/-- Two connectors with sessions of their own. -/
theorem isolated_iff_engaged_two : ∃ (trace : _) (p : Process),
    p.opener 7 = some 0 ∧ p.opener 8 = some 1 ∧
      machine.EveryStep demo trace (fun p x _ _ => p.Minds x) := by
  obtain ⟨trace, p, run, hzero, hone⟩ := Machine.Run.exists_of_exec machine
    (fun p x => (p.view x.1).reaches x.2 = true → p.engaged x.1 = true) demo
    [(0, .connectsOn 7), (1, .connectsOn 8), (0, .joinGroup [103] true), (0, .leaveNetwork)]
    (fun _ p => p.opener 7 = some 0 ∧ p.opener 8 = some 1) (by decide)
  exact ⟨trace, p, hzero, hone,
    (isolated_iff_engaged demo_init (run.mono fun _ _ _ => trivial)).mpr run⟩

/-- A connector disconnects twice, and its number is given to another one in between. -/
theorem session_stolen : ¬ ∀ (p p' : Process) (x : ConnectorId × Call) (ret : Int),
    machine.Reachable (fun _ _ => True) p → p.step x = some (p', ret) → p.Minds x := by
  intro hall
  obtain ⟨p, reach, hreaches, hopener, hsteps⟩ := Machine.Reachable.exists_of_exec
    (M := machine) (fun _ _ => True) demo_init
    [(0, .connectsOn 7), (0, .disconnectNetwork), (1, .connectsOn 7)]
    (fun p => (p.view 0).reaches .disconnectNetwork = true ∧
      p.opener (p.connectors 0).spreadMbox = some 1 ∧
      (p.step (0, .disconnectNetwork)).isSome = true) (by decide)
  obtain ⟨⟨p', ret⟩, hstep⟩ := Option.isSome_iff_exists.mp hsteps
  have hmine := hall p p' (0, .disconnectNetwork) ret reach hstep hreaches
  rw [hopener] at hmine
  cases hmine

end Process

end Netbroker
