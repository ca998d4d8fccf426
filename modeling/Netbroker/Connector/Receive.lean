import Netbroker.Connector.Basic

/-!
# `receiveFromGroup`

Each turn of the loop calls `SP_receive` twice: once with an empty buffer, to learn
the size of the frame at the head, and once with a buffer of that size. Both calls
write the same slots, so what the first one leaves there (the service type, the
group array, the opcode) is what the second one starts from.

`Reading` holds the variables between two calls, and `Reading.resume` is the code
that runs when a call returns. The dispatcher's worker takes these steps one at a
time, since other threads move in between; `receiveFromGroup` takes them all, with
the frames of a stream that nobody else touches.
-/

namespace Netbroker

open Spread

inductive Phase where
  | first
  | second
  deriving DecidableEq, Repr

/-- The variables of a turn ahead of one of its two calls of `SP_receive`. The
buffer's `m_opCode` is the call's `mess_type` slot. -/
structure Reading where
  phase : Phase
  slots : Slots
  deriving DecidableEq, Repr

/-- What a reader knows besides the stream: the private group of its session, the
connection name its connector has stored, and the drop flags. -/
structure Listener where
  privateGroup : Str
  connectionName : Str
  dropEcho : Bool
  dropMembership : Bool
  deriving DecidableEq, Repr

namespace Reading

/-- The top of the loop: the slots are cleared, of the group array only the first
entry, and the buffer is erased. -/
def top (slots : Slots) : Reading :=
  { phase := .first
    slots :=
      { service := 0, sender := [], numGroups := 0, groups := slots.groups.set 0 [],
        messType := 0, endianMismatch := 0 } }

/-- A fresh call of `receiveFromGroup`. -/
def start : Reading :=
  top { service := 0, sender := [], numGroups := 0, groups := [], messType := 0,
        endianMismatch := 0 }

/-- The size of the buffer the next call offers: 0, then `-_endian_mismatch`. -/
def maxLen (r : Reading) : Nat :=
  match r.phase with
  | .first => 0
  | .second => (-r.slots.endianMismatch).toNat

/-- The buffer the next call offers: `tmpBuf`, then a zeroed block. -/
def mess (r : Reading) : List UInt8 :=
  match r.phase with
  | .first => [0]
  | .second => List.replicate r.maxLen 0

/-- The next call of `SP_receive`, with a frame at the head of the stream. -/
def receive (privateGroup : Str) (r : Reading) (f : Frame) : Reception :=
  Spread.receive privateGroup maxGroupArraySize r.maxLen r.slots r.mess f

/-- The next call fails without having touched the slots. -/
def failed (r : Reading) (code : Int) : Reception :=
  { ret := code, slots := r.slots, mess := r.mess, consumed := false }

end Reading

/-- `__rBuffer` after the second call: erased at the top of the loop and filled since. -/
def filledBuffer (x : Reception) : Buffer :=
  { Buffer.erased with
    data := x.mess
    opCode := x.slots.messType
    groupName := x.slots.groupName
    sender := x.slots.sender }

/-- What the loop does with the second call's result: `none` is another turn. -/
def verdict (l : Listener) (x : Reception) : Option Int :=
  let own := decide (l.connectionName = x.slots.sender)
  if x.ret < 0 && x.ret ≠ bufferTooShort then some x.ret
  else if isMembershipMess x.slots.service then
    if l.dropMembership then none else some connMembershipMessage
  else if x.slots.messType = sigHaltMsg && own then
    if x.slots.groupName = [] then none else some 1
  else if own && !l.dropEcho then some connEchoMessage
  else if own then none
  else some x.ret

/-- How a returning `SP_receive` moves `receiveFromGroup` on. -/
inductive Progress where
  | call (r : Reading)
  | returned (ret : Int) (b : Buffer)
  deriving DecidableEq, Repr

/-- The code from the return of one call of `SP_receive` to the next call. -/
def Reading.resume (l : Listener) (r : Reading) (x : Reception) : Progress :=
  match r.phase with
  | .first => .call { phase := .second, slots := x.slots }
  | .second =>
      match verdict l x with
      | some ret => .returned ret (filledBuffer x)
      | none => .call (.top x.slots)

/-- How a call of `receiveFromGroup`, or a turn of its loop, ends on a stream: it
waits for a frame that never comes, goes on, or returns and leaves a rest. -/
inductive Outcome where
  | waits
  | again (slots : Slots) (rest : List Frame)
  | returned (ret : Int) (b : Buffer) (rest : List Frame)
  deriving DecidableEq, Repr

/-- The end of a turn: the call returns with the filled buffer, or there is another turn. -/
def settle (x : Reception) (rest : List Frame) : Option Int → Outcome
  | some ret => .returned ret (filledBuffer x) rest
  | none => .again x.slots rest

@[simp] theorem settle_some (x : Reception) (rest : List Frame) (ret : Int) :
    settle x rest (some ret) = .returned ret (filledBuffer x) rest := rfl

@[simp] theorem settle_none (x : Reception) (rest : List Frame) :
    settle x rest none = .again x.slots rest := rfl

/-- The second call of a turn. -/
def secondCall (l : Listener) (r : Reading) : List Frame → Outcome
  | [] => .waits
  | f :: rest =>
      let x := r.receive l.privateGroup f
      settle x (if x.consumed then rest else f :: rest) (verdict l x)

/-- One turn of the loop. -/
def turn (l : Listener) (slots : Slots) : List Frame → Outcome
  | [] => .waits
  | f :: rest =>
      let x := (Reading.top slots).receive l.privateGroup f
      secondCall l { phase := .second, slots := x.slots } (if x.consumed then rest else f :: rest)

/-- At most `n` turns of the loop. -/
def turns (l : Listener) : Nat → Slots → List Frame → Outcome
  | 0, slots, stream => .again slots stream
  | n + 1, slots, stream =>
      match turn l slots stream with
      | .again slots rest => turns l n slots rest
      | outcome => outcome

/-- `receiveFromGroup` on a stream: a turn takes a frame off, waits or returns, so
one turn more than there are frames is enough. -/
def receiveFromGroup (l : Listener) (stream : List Frame) : Outcome :=
  turns l (stream.length + 1) Reading.start.slots stream

end Netbroker
