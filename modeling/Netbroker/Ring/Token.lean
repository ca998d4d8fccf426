import Mathlib.Data.Int.Notation
import Netbroker.Ring.Deliver

/-!
# The turn of a daemon: `Prot_handle_token`

On its turn a daemon answers the requests that the token carries for its membership,
sends as many new packets as flow control lets it, asks for what it misses, brings the
token up to date and passes it on, and then delivers and discards what it may.

`DL_send` is taken to succeed, so a flush of the broadcast queue counts as one datagram
sent. Timers, status counters and the disposal of buffers are left out.

The broadcast queue, the retransmissions, the new packets and the fields of the token each
have their function, under the name of the C function where there is one, and the handlers put
them together.
-/

namespace Netbroker.Ring

/-- `Queued_bytes` and the number of elements of `Queue_scat`. -/
structure BcastQueue where
  bytes : Nat
  elements : Nat
  deriving DecidableEq, Repr

def BcastQueue.empty : BcastQueue := { bytes := 0, elements := 0 }

/-- The padding ahead of a packet that begins on a 4 byte alignment. -/
def alignBytes (queued : Nat) : Nat :=
  match queued % 4 with
  | 1 => 3
  | 2 => 2
  | 3 => 1
  | _ => 0

/-- The datagrams that `Net_flush_bcast` sends. -/
def BcastQueue.flush (q : BcastQueue) : Nat := if q.bytes = 0 then 0 else 1

/-- `Net_queue_bcast` of a packet: the datagrams it flushes, and the queue. -/
def BcastQueue.push (q : BcastQueue) (p : Packet) : Nat × BcastQueue :=
  let new := packetHeaderSize + p.dataLen
  let align := alignBytes q.bytes
  let pad := if align = 0 then 0 else 1
  if maxPacketSize < q.bytes + new + align ∨ archScatterSize < q.elements + 2 + pad then
    (q.flush, { bytes := new, elements := 2 })
  else (0, { bytes := q.bytes + align + new, elements := q.elements + pad + 2 })

/-- What `Answer_retrans` has worked out so far: the requests of other memberships that
stay on the token, to whom this daemon's own requests go, and what it has resent. -/
structure Answer where
  kept : List RingRtr
  procId : Option Nat
  segIndex : Option Nat
  resent : List Packet
  numRetrans : Nat
  queue : BcastQueue

namespace Daemon

/-- One requested number. A packet that is not here either is asked for from all, or from
the whole segment. -/
def answerSeq (my : My) (d : Daemon) (r : RingRtr) (a : Answer) (seq : Nat) :
    Except Exit Answer :=
  if seq < d.aru then .error (.retransBelowAru seq d.aru)
  else
    match d.slot seq with
    | none =>
        .ok
          { a with
            procId := none
            segIndex := if r.segIndex ≠ some my.segIndex then none else a.segIndex }
    | some info =>
        let a := { a with resent := a.resent ++ [info.packet] }
        if r.procId.isSome || r.segIndex.isSome then
          .ok { a with numRetrans := a.numRetrans + 1 }
        else
          let (flushed, queue) := a.queue.push info.packet
          .ok { a with numRetrans := a.numRetrans + flushed, queue }

/-- One entry of the token's list of requests. -/
def answerRtr (my : My) (d : Daemon) (a : Answer) (r : RingRtr) : Except Exit Answer :=
  if r.membId = my.membId then r.reqSeqs.foldlM (d.answerSeq my r) a
  else .ok { a with kept := a.kept ++ [r] }

/-- `Answer_retrans` -/
def answerRetrans (my : My) (d : Daemon) (rtr : List RingRtr) : Except Exit Answer := do
  let a ← rtr.foldlM (d.answerRtr my)
    { kept := [], procId := some my.id, segIndex := some my.segIndex, resent := []
      numRetrans := 0, queue := .empty }
  return { a with numRetrans := a.numRetrans + a.queue.flush }

/-- `FC_allowed` -/
def fcAllowed (d : Daemon) (flowControl : Int) : Nat :=
  if d.aru + maxSeqGap < d.highestSeq then 0
  else
    let allowed : Int := window + personalWindow - flowControl
    let allowed := if allowed < 0 then 0 else allowed
    let allowed := if allowed > window then (window : Int) else allowed
    let allowed := if allowed > personalWindow then (personalWindow : Int) else allowed
    allowed.toNat

/-- The next element of the message at the head of the down queue as a packet, with the
down queue moved past it. -/
def nextPacket (my : My) (d : Daemon) (m : DownLink) (rest : List DownLink) :
    Except Exit (Packet × Daemon) :=
  let cur := d.curElement + 1
  let packet (index : Int) : Packet :=
    { type := m.type, procId := my.id, seq := d.highestSeq + 1
      fifoSeq := d.highestFifoSeq + 1, packetIndex := index, body := m.mess.getD d.curElement [] }
  let d := { d with highestSeq := d.highestSeq + 1, highestFifoSeq := d.highestFifoSeq + 1 }
  if cur < m.mess.length then .ok (packet cur, { d with curElement := cur })
  else if cur = m.mess.length then
    .ok (packet (-m.mess.length), { d with downQueue := rest, curElement := 0 })
  else .error (.packetIndex cur m.mess.length)

/-- The sender's own packet goes into `Packets`. -/
def insertCreated (d : Daemon) (p : Packet) : Except Exit Daemon :=
  match d.slot p.seq with
  | some info => .error (.alreadyExist p.seq (if info.delivered then 2 else 1))
  | none => .ok (d.setSlot p.seq (some { packet := p, delivered := false }))

end Daemon

/-- The state of the loop of `Send_new_packets`. -/
structure Sending where
  daemon : Daemon
  created : List Packet
  numSent : Nat
  queue : BcastQueue

/-- The loop of `Send_new_packets`. A turn of it takes one element off the down queue, so
their number bounds it. -/
def sendLoop (my : My) (allowed : Nat) : Nat → Sending → Except Exit Sending
  | 0, s => .ok s
  | count + 1, s =>
      if s.numSent < allowed then
        match s.daemon.downQueue with
        | [] => .ok s
        | m :: rest => do
            let (packet, daemon) ← s.daemon.nextPacket my m rest
            let (flushed, queue) := s.queue.push packet
            let daemon ← daemon.insertCreated packet
            sendLoop my allowed count
              { daemon, created := s.created ++ [packet], numSent := s.numSent + flushed, queue }
      else .ok s

namespace Daemon

/-- The elements that the down queue holds. -/
def downElements (d : Daemon) : Nat := (d.downQueue.map fun m => m.mess.length).sum

/-- `Send_new_packets` -/
def sendNewPackets (my : My) (d : Daemon) (allowed : Nat) : Except Exit Sending := do
  let s ← sendLoop my allowed (d.downElements + 1)
    { daemon := d, created := [], numSent := 0, queue := .empty }
  return { s with numSent := s.numSent + s.queue.flush }

/-- The numbers without a packet among `count` numbers from `i` on. -/
def missing (d : Daemon) : Nat → Nat → List Nat
  | 0, _ => []
  | count + 1, i => if (d.slot i).isSome then d.missing count (i + 1)
      else i :: d.missing count (i + 1)

/-- The requests on the token: those of other memberships, and the daemon's own if at
least two fit. -/
def requests (my : My) (d : Daemon) (a : Answer) : List RingRtr :=
  if d.myAru < d.highestSeq then
    let newPtr := (a.kept.map RingRtr.size).sum
    let allowed := (tokenBodySize - newPtr - ringRtrSize) / 4
    if 1 < allowed then
      a.kept ++
        [{ membId := my.membId, procId := a.procId, segIndex := a.segIndex
           reqSeqs := d.missing (min (d.highestSeq - d.myAru) allowed) (d.myAru + 1) }]
    else a.kept
  else a.kept

/-- The assignment to an `int16`. -/
def int16 (x : Int) : Int := x.bmod (2 ^ 16)

/-- `Token->aru == Set_aru || Token->aru_last_id == My.id || Token->aru == Token->seq` -/
def SetsAru (my : My) (d : Daemon) (t : Token) : Prop :=
  d.setAru = some t.aru ∨ t.aruLastId = my.id ∨ t.aru = t.seq

instance (my : My) (d : Daemon) (t : Token) : Decidable (d.SetsAru my t) :=
  inferInstanceAs (Decidable (_ ∨ _ ∨ _))

/-- `Token->aru`, `Token->aru_last_id` and `Set_aru`. -/
def tokenAru (my : My) (d : Daemon) (t : Token) : Nat × Nat × Option Nat :=
  if d.SetsAru my t then
    (d.myAru, my.id, if d.myAru < d.highestSeq then some d.myAru else none)
  else if d.myAru < t.aru then (d.myAru, my.id, some d.myAru)
  else (t.aru, t.aruLastId, none)

/-- The leader opens a new round of the token. -/
def nextRound (my : My) (t : Token) : Token :=
  if my.isLeader then { t with arq := (t.arq + 1) % 0x10, retrans := 0 } else t

/-- `Is_token_hold` and `To_hold_token`, in a membership with a token. -/
def isTokenHold (d : Daemon) : Prop :=
  d.lastToken.retrans ≤ 1 ∧ d.aru = d.highestSeq ∧ 1 < d.tokenCounter

instance (d : Daemon) : Decidable d.isTokenHold := inferInstanceAs (Decidable (_ ∧ _))

end Daemon

/-- What a handler leaves: the daemon, the packets and tokens it has put on the network,
those of the packets that are new, and whether it has taken its turn. -/
structure Outcome where
  daemon : Daemon
  bcasts : List Packet
  created : List Packet
  tokens : List Token
  turn : Bool

def Outcome.quiet (d : Daemon) : Outcome :=
  { daemon := d, bcasts := [], created := [], tokens := [], turn := false }

namespace Daemon

/-- `Prot_token_hurry` -/
def tokenHurry (my : My) (d : Daemon) : Outcome :=
  let last := { d.lastToken with rtr := [] }
  let last := if my.isLeader then { last with retrans := (last.retrans + 1) % 0x10 } else last
  { Outcome.quiet { d with lastToken := last } with tokens := [last] }

/-- `Handle_hurry`, for a packet from a member. -/
def handleHurry (my : My) (d : Daemon) : Outcome :=
  if my.isLeader ∧ d.isTokenHold then tokenHurry my { d with tokenCounter := 0 }
  else .quiet d

/-- `Prot_new_message`, and whether a hurry packet goes to the leader. -/
def newMessage (my : My) (d : Daemon) (m : DownLink) : Outcome × Bool :=
  let d := { d with downQueue := d.downQueue ++ [m] }
  if d.downQueue.length = 1 ∧ d.isTokenHold then
    if my.isLeader then (d.handleHurry my, false) else (.quiet d, true)
  else (.quiet d, false)

/-- `Aru` is the smaller of what the token had on the last two turns. -/
def updateAru (d : Daemon) (t : Token) : Daemon :=
  let aru := if d.lastToken.aru < t.aru then d.lastToken.aru else t.aru
  { d with
    aru
    tokenCounter := if d.highestSeq = aru then d.tokenCounter + 1 else 0
    lastToken := t }

/-- The sending part of a turn. -/
def sendTurn (my : My) (d : Daemon) (t : Token) : Except Exit (Answer × Sending) := do
  let d := { d with highestSeq := max d.highestSeq t.seq }
  let a ← d.answerRetrans my t.rtr
  let s ← d.sendNewPackets my (d.fcAllowed t.flowControl)
  return (a, s)

/-- The daemon ahead of the update of the token. -/
def ready (s : Sending) (a : Answer) : Daemon :=
  { s.daemon with lastNumRetrans := a.numRetrans, lastNumSent := s.numSent }.advanceMyAru

/-- The token as it is passed on by a daemon that is ready; `old` had the counts of the
turn before. -/
def nextToken (my : My) (d old : Daemon) (t : Token) (a : Answer) : Token :=
  let (aru, aruLastId, _) := d.tokenAru my t
  nextRound my
    { t with
      seq := d.highestSeq
      aru
      aruLastId
      flowControl :=
        int16 (t.flowControl - old.lastNumRetrans - old.lastNumSent + d.lastNumRetrans +
          d.lastNumSent)
      rtr := d.requests my a }

/-- The delivering part of a turn. -/
def deliverTurn (d : Daemon) (numSent : Nat) : Except Exit Daemon := do
  let d ← d.discardPackets
  let d ← d.deliverAgreedPackets
  d.deliverReliablePackets (d.highestSeq + 1 - numSent) d.highestSeq

/-- `Prot_handle_token` from the point on where the token is taken. -/
def takeTurn (my : My) (d : Daemon) (t : Token) : Except Exit Outcome := do
  let (a, s) ← d.sendTurn my t
  let ready := ready s a
  let t' := ready.nextToken my d t a
  let held := my.isLeader ∧ ready.isTokenHold
  let (_, _, setAru) := ready.tokenAru my t
  let last ← ({ ready with setAru }.updateAru t').deliverTurn s.numSent
  pure
    { daemon := last
      bcasts := a.resent ++ s.created
      created := s.created
      tokens := if held then [] else [t']
      turn := true }

/-- `Prot_handle_token` on a regular token: a token of the round that is due is taken, and
only a copy sent again later in the daemon's own round is answered. -/
def handleToken (my : My) (d : Daemon) (t : Token) : Except Exit Outcome :=
  if maxWrapSequenceValue < t.seq then .ok (.quiet d)
  else if my.isLeader then
    if t.arq ≠ d.lastToken.arq then .ok (.quiet d) else d.takeTurn my t
  else if t.arq = d.lastToken.arq then
    if d.lastToken.retrans < t.retrans then
      .ok (tokenHurry my { d with lastToken := { d.lastToken with retrans := t.retrans } })
    else .ok (.quiet d)
  else if t.arq ≠ (d.lastToken.arq + 1) % 0x10 then .ok (.quiet d)
  else d.takeTurn my t

end Daemon

end Netbroker.Ring
