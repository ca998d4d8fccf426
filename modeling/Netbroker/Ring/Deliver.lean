import Netbroker.Ring.Basic

/-!
# Delivering packets

A packet is chained to the message its sender has in `Up_queue`; the packet that ends the
message pushes it up to the session. A reliable message of a single packet has an entry
of its own past the last daemon's, so it does not wait for the others.

Three loops deliver: as soon as a reliable single packet is there, in order up to the
first safe packet not delivered yet, and in order up to `Aru` when packets are discarded.
-/

namespace Netbroker.Ring

/-- `Is_reliable( type ) && packet_index == -1` -/
def Packet.single (p : Packet) : Prop := p.type = .reliable ∧ p.packetIndex = -1

instance (p : Packet) : Decidable p.single := inferInstanceAs (Decidable (_ ∧ _))

/-- The entry of `Up_queue` for a packet. -/
def Packet.queue (p : Packet) : Nat := if p.single then maxProcsRing else p.procId

/-- `Deliver_packet`, as far as it acts on `Up_queue` and on the session. -/
def UpQueue.push (up : UpQueue) (p : Packet) : Except Exit UpQueue :=
  let elements := (up.parts p.queue).getD []
  if elements.length + 1 ≠ p.packetIndex.natAbs then
    .error (.sequence p.packetIndex (elements.length + 1))
  else if p.packetIndex < 0 then
    .ok
      { parts := Function.update up.parts p.queue none
        delivered := up.delivered ++
          [{ procIndex := p.queue, type := p.type, mess := elements ++ [p.body] }] }
  else .ok { up with parts := Function.update up.parts p.queue (some (elements ++ [p.body])) }

namespace Daemon

/-- `Deliver_packet` on the entry of `Packets` that holds the packet numbered `seq`. -/
def deliverPacket (d : Daemon) (seq : Nat) (info : PacketInfo) : Except Exit Daemon := do
  let up ← d.up.push info.packet
  return { d.setSlot seq (some { info with delivered := true }) with up }

/-- The loop of `Deliver_agreed_packets`, from `i` on. -/
def agreedLoop : Nat → Nat → Daemon → Except Exit Daemon
  | 0, _, d => .ok d
  | count + 1, i, d =>
      match d.slot i with
      | none => .error .agreedMissing
      | some info =>
          if info.delivered then
            agreedLoop count (i + 1) { d with lastDelivered := d.lastDelivered + 1 }
          else if info.packet.type = .safe then .ok d
          else do
            let d ← d.deliverPacket i info
            agreedLoop count (i + 1) { d with lastDelivered := d.lastDelivered + 1 }

/-- `Deliver_agreed_packets` -/
def deliverAgreedPackets (d : Daemon) : Except Exit Daemon :=
  agreedLoop (d.myAru - d.lastDelivered) (d.lastDelivered + 1) d

/-- The loop of `Deliver_reliable_packets`, from `i` on. -/
def reliableLoop : Nat → Nat → Daemon → Except Exit Daemon
  | 0, _, d => .ok d
  | count + 1, i, d =>
      match d.slot i with
      | none => reliableLoop count (i + 1) d
      | some info =>
          if !info.delivered && info.packet.single then do
            let d ← d.deliverPacket i info
            reliableLoop count (i + 1) d
          else reliableLoop count (i + 1) d

/-- `Deliver_reliable_packets`, for the packets from `start` up to `stop`. -/
def deliverReliablePackets (d : Daemon) (start stop : Nat) : Except Exit Daemon :=
  let start := max start (d.lastDelivered + 1)
  reliableLoop (stop + 1 - start) start d

/-- A packet that is discarded is delivered first, unless it has been. -/
def deliverLeft (d : Daemon) (seq : Nat) (info : PacketInfo) : Except Exit Daemon :=
  if info.delivered then .ok d else d.deliverPacket seq info

/-- The loop of `Discard_packets`, from `i` on. -/
def discardLoop : Nat → Nat → Daemon → Except Exit Daemon
  | 0, _, d => .ok d
  | count + 1, i, d =>
      match d.slot i with
      | none => .error (.discardMissing i)
      | some info => do
          let d ← d.deliverLeft i info
          discardLoop count (i + 1) (d.setSlot i none)

/-- `Discard_packets` outside of a membership change. -/
def discardPackets (d : Daemon) : Except Exit Daemon :=
  if d.aru ≤ d.lastDiscarded then .ok d
  else do
    let d ← discardLoop (d.aru - d.lastDiscarded) (d.lastDiscarded + 1) d
    return { d with lastDiscarded := d.aru, lastDelivered := max d.lastDelivered d.aru }

/-- A packet that is received goes into its entry. -/
def insertPacket (d : Daemon) (p : Packet) : Daemon :=
  { d.setSlot p.seq (some { packet := p, delivered := false }) with
    highestSeq := max d.highestSeq p.seq }

/-- One packet of a datagram in `Prot_handle_bcast`. -/
def handlePacket (d : Daemon) (p : Packet) : Except Exit Daemon :=
  if p.seq ≤ d.aru then .ok d
  else if (d.slot p.seq).isSome then .ok d
  else if p.seq = d.myAru + 1 then (d.insertPacket p).advanceMyAru.deliverAgreedPackets
  else (d.insertPacket p).deliverReliablePackets p.seq p.seq

/-- `Prot_handle_bcast` on the packets of a datagram of the daemon's own membership. -/
def handleBcast (d : Daemon) (packets : List Packet) : Except Exit Daemon :=
  packets.foldlM handlePacket d

end Daemon

end Netbroker.Ring
