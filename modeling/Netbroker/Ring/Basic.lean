import Mathlib.Algebra.BigOperators.Fin
import Mathlib.Algebra.Order.BigOperators.Group.Finset
import Mathlib.Data.Nat.Notation
import Mathlib.Logic.Function.Basic

/-!
# The data of the daemons' token ring

A Spread daemon orders the messages of its clients with the other daemons of its
membership by a token that goes round. Daemons are named by their position in the ring,
which stands for `proc_id` and for the index `Conf_proc_by_id` finds; the leader is
daemon 0. An `aru_last_id` that a token carries over from an earlier membership may be
any number.

The `-1` that marks an absent `Set_aru`, `proc_id` or `seg_index` is `none`. An entry of
`Packets` is `none` where `exist` is 0, and its `delivered` tells 2 from 1.

The constants are those of the sources, and so are the texts of the alarms. `slot`, `setSlot`
and `walk` are how the array of packets is read and written.
-/

namespace Netbroker.Ring

def maxPacketsInStruct : Nat := 8192
def packetMask : Nat := 0x1fff
def maxSeqGap : Nat := 1600
def maxProcsRing : Nat := 128
def maxWrapSequenceValue : Nat := 2 ^ 30
def maxPacketSize : Nat := 1472
def archScatterSize : Nat := 1024
def window : Nat := 300
def personalWindow : Nat := 50

/-- `sizeof(packet_header)`. -/
def packetHeaderSize : Nat := 36

/-- `sizeof(token_body)`: a token's header has 32 bytes. -/
def tokenBodySize : Nat := maxPacketSize - 32

/-- `sizeof(ring_rtr)`. -/
def ringRtrSize : Nat := 16

/-- The types that `Message_get_packet_type` gives to packets. -/
inductive PacketType where
  | reliable
  | fifo
  | agreed
  | safe
  deriving DecidableEq, Repr

/-- The content of one element of a message's scatter. -/
abbrev Body := List UInt8

structure Packet where
  type : PacketType
  procId : Nat
  seq : Nat
  fifoSeq : Nat
  packetIndex : Int
  body : Body
  deriving DecidableEq, Repr

def Packet.dataLen (p : Packet) : Nat := p.body.length

/-- A message handed down for multicast. -/
@[ext]
structure DownLink where
  type : PacketType
  mess : List Body
  deriving DecidableEq, Repr

structure PacketInfo where
  packet : Packet
  delivered : Bool
  deriving DecidableEq, Repr

/-- `seq & PACKET_MASK`. -/
def packEntry (seq : Nat) : Nat := seq &&& packetMask

theorem packEntry_eq (seq : Nat) : packEntry seq = seq % maxPacketsInStruct := by
  have hmask := Nat.and_two_pow_sub_one_eq_mod seq 13
  simpa [packEntry, packetMask, maxPacketsInStruct] using hmask

/-- A request for retransmissions, made for the membership `membId`. -/
structure RingRtr where
  membId : Nat
  procId : Option Nat
  segIndex : Option Nat
  reqSeqs : List Nat
  deriving DecidableEq, Repr

/-- The bytes of a request in the token. -/
def RingRtr.size (r : RingRtr) : Nat := ringRtrSize + 4 * r.reqSeqs.length

structure Token where
  arq : Nat
  retrans : Nat
  seq : Nat
  aru : Nat
  aruLastId : Nat
  flowControl : Int
  rtr : List RingRtr
  deriving DecidableEq, Repr

/-- What `Sess_deliver_message` is given, with the type and the queue of the packet that
completed it. -/
structure Delivery where
  procIndex : Nat
  type : PacketType
  mess : List Body
  deriving DecidableEq, Repr

/-- `Up_queue`, and what has been pushed up from it. -/
structure UpQueue where
  parts : Nat → Option (List Body)
  delivered : List Delivery

def UpQueue.empty : UpQueue := { parts := fun _ => none, delivered := [] }

/-- What a daemon knows of itself in the membership. -/
structure My where
  id : Nat
  segIndex : Nat
  membId : Nat

/-- `Conf_leader( Memb_active_ptr() ) == My.id` -/
def My.isLeader (my : My) : Prop := my.id = 0

instance (my : My) : Decidable my.isLeader := inferInstanceAs (Decidable (_ = _))

structure Daemon where
  highestSeq : Nat
  highestFifoSeq : Nat
  myAru : Nat
  aru : Nat
  setAru : Option Nat
  lastDiscarded : Nat
  lastDelivered : Nat
  lastToken : Token
  lastNumRetrans : Nat
  lastNumSent : Nat
  tokenCounter : Nat
  packets : Nat → Option PacketInfo
  downQueue : List DownLink
  curElement : Nat
  up : UpQueue

/-- The alarms of the modelled functions that end the daemon. -/
inductive Exit where
  | retransBelowAru (seq aru : Nat)
  | alreadyExist (seq exist : Nat)
  | packetIndex (curElement numElements : Nat)
  | sequence (packetIndex : Int) (should : Nat)
  | agreedMissing
  | discardMissing (seq : Nat)
  deriving DecidableEq, Repr

def Exit.text : Exit → String
  | .retransBelowAru seq aru =>
      s!"Answer_retrans: retrans of {seq} requested while Aru is {aru}"
  | .alreadyExist seq exist => s!"Send_new_packets: created packet {seq} already exist {exist}"
  | .packetIndex cur num => s!"Send_new_packets: error in packet index: {cur} {num}"
  | .sequence index should =>
      s!"Deliver_packet: sequence error: sec is {index}, should be {should}"
  | .agreedMissing => "Deliver_agreed_packets: Error, exist is 0"
  | .discardMissing seq => s!"Discard_packets: (NOT EVS) packet {seq} not exist"

namespace Daemon

/-- `Packets[seq & PACKET_MASK]` -/
def slot (d : Daemon) (seq : Nat) : Option PacketInfo := d.packets (packEntry seq)

def setSlot (d : Daemon) (seq : Nat) (info : Option PacketInfo) : Daemon :=
  { d with packets := Function.update d.packets (packEntry seq) info }

/-- The walk of `My_aru` over the packets that are there: `count` bounds it by
`Highest_seq`. -/
def walk (d : Daemon) : Nat → Nat → Nat
  | 0, aru => aru
  | count + 1, aru => if (d.slot (aru + 1)).isSome then d.walk count (aru + 1) else aru

/-- The loops that let `My_aru` catch up. -/
def advanceMyAru (d : Daemon) : Daemon :=
  { d with myAru := d.walk (d.highestSeq - d.myAru) d.myAru }

end Daemon

end Netbroker.Ring
