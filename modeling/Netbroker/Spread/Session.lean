import Netbroker.Buffer

/-!
# One session of the Spread library: receiving a frame

The daemon orders the frames for a session; `pending` holds those it has ordered
and the session has not read yet. `SP_receive` works on the oldest one. When the
frame does not fit what the caller offers it stays at the head, its header saved,
and the caller's slots report what would be needed; otherwise it is consumed.

Senders share the byte order of this host, so a consumed frame reports the
`endian_mismatch` 0. Names are the bytes before the NUL of their 32-byte field.

Service types and return codes have the values of the library's header. `peek` and `consume`
are what a call does to the caller's variables in the two cases, and the lemmas at the end say
which case it is.
-/

namespace Netbroker.Spread

abbrev Service := BitVec 32

def safeMess : Service := 0x00000020
def regularMess : Service := 0x0000003f
def dropRecv : Service := 0x01000000
def regMembMess : Service := 0x00001000
def membershipMess : Service := 0x00003f00
def rejectMess : Service := 0x00400000

def isRejectMess (type : Service) : Bool := type &&& rejectMess ≠ 0

def isRegularMess (type : Service) : Bool := type &&& regularMess ≠ 0 && !isRejectMess type

def isMembershipMess (type : Service) : Bool :=
  type &&& membershipMess ≠ 0 && !isRejectMess type

def isRegMembMess (type : Service) : Bool := type &&& regMembMess ≠ 0

def isDropRecv (type : Service) : Bool := type &&& dropRecv ≠ 0

abbrev acceptSession : Int := 1
abbrev connectionClosed : Int := -8
abbrev illegalSession : Int := -11
abbrev illegalService : Int := -12
abbrev illegalGroup : Int := -14
abbrev bufferTooShort : Int := -15
abbrev groupsTooShort : Int := -16
abbrev messageTooLong : Int := -17
abbrev netErrorOnSession : Int := -18

structure Frame where
  type : Service
  /-- The type the daemon refused to deliver, sent along with a reject message only. -/
  oldType : Service
  sender : Str
  groups : List Str
  messType : BitVec 16
  body : List UInt8
  deriving DecidableEq, Repr

/-- The first destination group, the empty name if there is none. -/
def Frame.groupName (f : Frame) : Str := f.groups.headD []

/-- The caller's variables that `SP_receive` reads and writes. Entries of the group
array past the end of the list are empty names. -/
structure Slots where
  service : Service
  sender : Str
  numGroups : Int
  groups : List Str
  messType : BitVec 16
  endianMismatch : Int
  deriving DecidableEq, Repr

/-- The first entry of the group array. -/
def Slots.groupName (slots : Slots) : Str := slots.groups.headD []

/-- What one call of `SP_receive` does with the frame at the head. -/
structure Reception where
  ret : Int
  slots : Slots
  mess : List UInt8
  consumed : Bool
  deriving DecidableEq, Repr

/-- The frame's own opcode counts in regular and reject messages only. -/
def carriesOpCode (f : Frame) : Bool := isRegularMess f.type || isRejectMess f.type

/-- The head is too large for the caller: report the sizes it needs. -/
def peek (maxGroups maxLen : Nat) (slots : Slots) (mess : List UInt8) (f : Frame) : Reception :=
  { ret := if maxGroups < f.groups.length then groupsTooShort else bufferTooShort
    slots :=
      { slots with
        service := f.type
        sender := f.sender
        numGroups := if maxGroups < f.groups.length then -f.groups.length else 0
        messType := if carriesOpCode f then f.messType else 0
        endianMismatch := if maxLen < f.body.length then -f.body.length else 0 }
    mess
    consumed := false }

/-- The opcode of a consumed frame. A membership message has the reader's index
among its members, and -1 where the reader is none of them. -/
def opCodeOf (privateGroup : Str) (maxGroups : Nat) (f : Frame) : BitVec 16 :=
  let hint := if carriesOpCode f then f.messType else -1
  if isRegMembMess f.type && decide (f.groups.length ≤ maxGroups) then
    match f.groups.findIdx? (· = privateGroup) with
    | some i => BitVec.ofNat 16 i
    | none => hint
  else hint

/-- The service type of a consumed frame. -/
def serviceOf (f : Frame) : Service :=
  if isRejectMess f.type then f.oldType ||| rejectMess else f.type

/-- Read the frame, as far as it fits, and take it off the stream. -/
def consume (privateGroup : Str) (maxGroups maxLen : Nat) (slots : Slots) (mess : List UInt8)
    (f : Frame) : Reception :=
  let groups := f.groups.take maxGroups
  let body := f.body.take maxLen
  { ret := if maxLen < f.body.length then bufferTooShort else f.body.length
    slots :=
      { service := serviceOf f
        sender := f.sender
        numGroups := if maxGroups < f.groups.length then -f.groups.length else f.groups.length
        groups := groups ++ slots.groups.drop groups.length
        messType := opCodeOf privateGroup maxGroups f
        endianMismatch := 0 }
    mess := body ++ mess.drop body.length
    consumed := true }

/-- `SP_receive` with a frame at the head: the service slot of the call decides
whether an oversized frame is truncated or left where it is. -/
def receive (privateGroup : Str) (maxGroups maxLen : Nat) (slots : Slots) (mess : List UInt8)
    (f : Frame) : Reception :=
  if !isDropRecv slots.service
      && (decide (maxGroups < f.groups.length) || decide (maxLen < f.body.length)) then
    peek maxGroups maxLen slots mess f
  else consume privateGroup maxGroups maxLen slots mess f

theorem receive_peek {privateGroup : Str} {maxGroups maxLen : Nat} {slots : Slots}
    {mess : List UInt8} {f : Frame} (hdrop : isDropRecv slots.service = false)
    (hlarge : maxLen < f.body.length) :
    receive privateGroup maxGroups maxLen slots mess f = peek maxGroups maxLen slots mess f := by
  simp [receive, hdrop, hlarge]

theorem receive_consume {privateGroup : Str} {maxGroups maxLen : Nat} {slots : Slots}
    {mess : List UInt8} {f : Frame} (hgroups : f.groups.length ≤ maxGroups)
    (hfits : f.body.length ≤ maxLen) : receive privateGroup maxGroups maxLen slots mess f =
      consume privateGroup maxGroups maxLen slots mess f := by
  simp [receive, Nat.not_lt.mpr hgroups, Nat.not_lt.mpr hfits]

theorem receive_drop {privateGroup : Str} {maxGroups maxLen : Nat} {slots : Slots}
    {mess : List UInt8} {f : Frame} (hdrop : isDropRecv slots.service = true) :
    receive privateGroup maxGroups maxLen slots mess f =
      consume privateGroup maxGroups maxLen slots mess f := by
  simp [receive, hdrop]

end Netbroker.Spread
