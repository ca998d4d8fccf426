import Mathlib.Data.Finset.Erase
import Mathlib.Data.Finset.Insert
import Mathlib.Logic.Function.Basic
import Netbroker.Spread.Session

/-!
# The Spread library of the process

The library keeps a table of sessions, one for each open mailbox. What the daemon
holds for a session is kept with it: the groups it has joined and the frames
ordered for it. Every call that sends something takes as its argument `sent`
whether the socket carried it; a failed send marks the session as broken, and only
`SP_disconnect` takes a session off the table.

A multicast to a group the sender has joined comes back to it. The call only hands it to
the daemon, which orders it some time later, behind any number of frames of others, but
the multicasts of one session in the order of their calls. Joins and leaves take the same
way, so who has joined at the time of the call has joined when the frame gets its place.
-/

namespace Netbroker.Spread

/-- The socket of a session. A new session gets a new one. -/
abbrev Mailbox := Nat

structure Session where
  privateGroup : Str
  /-- `SESS_ACTIVE` as opposed to `SESS_ERROR`. -/
  active : Bool
  /-- What the daemon has ordered for the session and it has not read yet. -/
  pending : List Frame
  /-- The session's own multicasts that are to come back to it and have no place yet. -/
  unordered : List Frame
  /-- The daemon has hung up: nothing follows the pending frames. -/
  closed : Bool
  joined : Finset Str
  deriving DecidableEq

structure Library where
  sessions : Mailbox → Option Session
  /-- The sockets opened so far. -/
  opened : Mailbox

namespace Library

def initial : Library := { sessions := fun _ => none, opened := 0 }

def set (lib : Library) (mbox : Mailbox) (s : Option Session) : Library :=
  { lib with sessions := Function.update lib.sessions mbox s }

@[simp] theorem set_opened (lib : Library) (mbox : Mailbox) (s : Option Session) :
    (lib.set mbox s).opened = lib.opened := rfl

@[simp] theorem set_sessions_self (lib : Library) (mbox : Mailbox) (s : Option Session) :
    (lib.set mbox s).sessions mbox = s := Function.update_self ..

theorem set_sessions_of_ne (lib : Library) {mbox other : Mailbox} (h : other ≠ mbox)
    (s : Option Session) : (lib.set mbox s).sessions other = lib.sessions other :=
  Function.update_of_ne h ..

end Library

/-- How a daemon answers `SP_connect`: the documented failures are negative. -/
inductive Answer where
  | refused (code : { c : Int // c < 0 })
  | accepted (privateGroup : Str)

/-- `SP_connect`, with the mailbox and the private group of an accepted session. -/
def connect (lib : Library) : Answer → Int × Option (Mailbox × Str) × Library
  | .refused code => (code, none, lib)
  | .accepted privateGroup =>
      let session : Session :=
        { privateGroup, active := true, pending := [], unordered := [], closed := false, joined := ∅ }
      (acceptSession, some (lib.opened, privateGroup),
        { lib.set lib.opened session with opened := lib.opened + 1 })

/-- `SP_internal_multicast` of `len` bytes to one group: `effect` is what the
daemon does to the session when it gets the message. -/
def internalMulticast (lib : Library) (mbox : Mailbox) (sent : Bool) (len : Nat)
    (effect : Session → Session) : Int × Library :=
  match lib.sessions mbox with
  | none => (illegalSession, lib)
  | some s =>
      if !s.active then (netErrorOnSession, lib)
      -- `MAX_MESSAGE_BODY_LEN`, 100 scatter elements of 1440 bytes
      else if 144000 < len + maxGroupName then (messageTooLong, lib)
      else if !sent then (connectionClosed, lib.set mbox (some { s with active := false }))
      else (len, lib.set mbox (some (effect s)))

/-- A send either does nothing, breaks the session, or reaches the daemon. -/
theorem internalMulticast_cases (lib : Library) (mbox : Mailbox) (sent : Bool) (len : Nat)
    (effect : Session → Session) :
    (internalMulticast lib mbox sent len effect).2 = lib ∨
      ∃ s, lib.sessions mbox = some s ∧
        ((internalMulticast lib mbox sent len effect).2 =
            lib.set mbox (some { s with active := false }) ∨
          (internalMulticast lib mbox sent len effect).2 = lib.set mbox (some (effect s))) := by
  rw [internalMulticast]
  split
  · exact .inl rfl
  · rename_i s hs
    split
    · exact .inl rfl
    · split
      · exact .inl rfl
      · split
        · exact .inr ⟨s, hs, .inl rfl⟩
        · exact .inr ⟨s, hs, .inr rfl⟩

/-- A send neither opens a session nor takes one off the table. -/
theorem internalMulticast_isSome (lib : Library) (mbox other : Mailbox) (sent : Bool) (len : Nat)
    (effect : Session → Session) :
    ((internalMulticast lib mbox sent len effect).2.sessions other).isSome =
      (lib.sessions other).isSome := by
  obtain h | ⟨s, hs, h | h⟩ := internalMulticast_cases lib mbox sent len effect
  · rw [h]
  all_goals
    rw [h]
    by_cases hother : other = mbox
    · subst hother
      rw [Library.set_sessions_self, hs]
      rfl
    · rw [Library.set_sessions_of_ne lib hother]

/-- A send that succeeds has reached the daemon. -/
theorem internalMulticast_ok {lib : Library} {mbox : Mailbox} {sent : Bool} {len : Nat}
    {effect : Session → Session} {s : Session} (hs : lib.sessions mbox = some s)
    (hret : 0 ≤ (internalMulticast lib mbox sent len effect).1) :
    (internalMulticast lib mbox sent len effect).2 = lib.set mbox (some (effect s)) := by
  simp only [internalMulticast, hs] at hret ⊢
  split at hret
  · cases hret
  · split at hret
    · cases hret
    · rename_i hlength
      split at hret
      · cases hret
      · simp_all [Nat.not_lt.mpr (Nat.not_lt.mp hlength)]

/-- The check of a group's name in `SP_join` and `SP_leave`. -/
def legalGroup (name : Str) : Bool :=
  name ≠ [] && decide (name.length < maxGroupName) && name.all fun c => 36 ≤ c && c ≤ 126

/-- `SP_join`. -/
def join (lib : Library) (mbox : Mailbox) (sent : Bool) (group : Str) : Int × Library :=
  let name := cstr group
  if !legalGroup name then (illegalGroup, lib)
  else internalMulticast lib mbox sent 0 fun s => { s with joined := insert name s.joined }

/-- `SP_leave`. -/
def leave (lib : Library) (mbox : Mailbox) (sent : Bool) (group : Str) : Int × Library :=
  let name := cstr group
  if !legalGroup name then (illegalGroup, lib)
  else internalMulticast lib mbox sent 0 fun s => { s with joined := s.joined.erase name }

theorem join_ok {lib : Library} {mbox : Mailbox} {sent : Bool} {group : Str} {s : Session}
    (hs : lib.sessions mbox = some s) (hret : 0 ≤ (join lib mbox sent group).1) :
    (join lib mbox sent group).2 =
      lib.set mbox (some { s with joined := insert (cstr group) s.joined }) := by
  simp only [join] at hret ⊢
  split at hret
  · cases hret
  · rename_i hlegal
    rw [if_neg hlegal]
    exact internalMulticast_ok hs hret

theorem leave_ok {lib : Library} {mbox : Mailbox} {sent : Bool} {group : Str} {s : Session}
    (hs : lib.sessions mbox = some s) (hret : 0 ≤ (leave lib mbox sent group).1) :
    (leave lib mbox sent group).2 =
      lib.set mbox (some { s with joined := s.joined.erase (cstr group) }) := by
  simp only [leave] at hret ⊢
  split at hret
  · cases hret
  · rename_i hlegal
    rw [if_neg hlegal]
    exact internalMulticast_ok hs hret

/-- The daemon gets a multicast of the session's own. -/
def Session.echo (s : Session) (f : Frame) : Session :=
  if (f.groups.any fun g => g = s.privateGroup || g ∈ s.joined) && !s.closed then
    { s with unordered := s.unordered ++ [f] }
  else s

@[simp] theorem Session.echo_joined (s : Session) (f : Frame) : (s.echo f).joined = s.joined := by
  rw [Session.echo]
  split <;> rfl

/-- `SP_multicast` to one group, whose name is cut to its field. -/
def multicast (lib : Library) (mbox : Mailbox) (sent : Bool) (type : Service) (group : Str)
    (messType : BitVec 16) (mess : List UInt8) : Int × Library :=
  if !isRegularMess type then (illegalService, lib)
  else internalMulticast lib mbox sent mess.length fun s =>
    s.echo
      { type, oldType := 0, sender := s.privateGroup
        groups := [(cstr group).take (maxGroupName - 1)], messType, body := mess }

/-- `SP_disconnect`: the session is gone whatever becomes of the message. -/
def disconnect (lib : Library) (mbox : Mailbox) : Int × Library :=
  match lib.sessions mbox with
  | none => (illegalSession, lib)
  | some _ => (0, lib.set mbox none)

/-- The daemon orders a frame of somebody else's for the session. -/
def deliver (lib : Library) (mbox : Mailbox) (f : Frame) : Option Library :=
  match lib.sessions mbox with
  | none => none
  | some s =>
      if s.closed then none
      else some (lib.set mbox (some { s with pending := s.pending ++ [f] }))

/-- The daemon orders the oldest multicast of the session's own. -/
def order (lib : Library) (mbox : Mailbox) : Option Library :=
  match lib.sessions mbox with
  | none => none
  | some s =>
      match s.unordered with
      | [] => none
      | f :: rest =>
          if s.closed then none
          else some (lib.set mbox (some { s with pending := s.pending ++ [f], unordered := rest }))

/-- The daemon hangs up on the session. -/
def hangUp (lib : Library) (mbox : Mailbox) : Option Library :=
  match lib.sessions mbox with
  | none => none
  | some s => some (lib.set mbox (some { s with closed := true }))

end Netbroker.Spread
