import Netbroker.Ring.Delivery

/-!
# What a turn puts on the network

`Send_new_packets` cuts the messages of the down queue into packets and numbers them from
the top of the log on. `Feeds` ties the down queue of a daemon to the log: the messages
that come together in the log are, in their order, those it has been given. `Answer_retrans`
sends packets of the log again.

One packet, the broadcast queue and the loop of a turn are treated in turn. The loop ends at
its own condition, and the packets it has created are in the log, held by the daemon that
created them, and within what flow control has allowed.
-/

namespace Netbroker.Ring

open Transition

/-- A message whose only packet does not wait for its order. -/
def DownLink.ordered (m : DownLink) : Bool := !(m.type = .reliable && m.mess.length = 1)

/-- A packet of daemon `x` that is such a message. -/
def Packet.singleOf (x : Nat) (p : Packet) : Bool := p.single && p.procId = x

/-- A message of daemon `x` as it is delivered. -/
def DownLink.delivery (x : Nat) (m : DownLink) : Delivery :=
  { procIndex := x, type := m.type, mess := m.mess }

/-- The effect on the log's messages of a packet at the end of the log. -/
def Follows (up up' : UpQueue) (p : Packet) : Prop :=
  if p.ordered then up.push p = .ok up' else up' = up

/-- `up` is what the packets of the log make. Daemon `x` has been given `submitted`; the
elements of the first message of its down queue are sent up to `curElement`. -/
structure Feeds (x : Nat) (log : List Packet) (up : UpQueue) (submitted : List DownLink)
    (d : Daemon) : Prop where
  nonempty : ∀ m ∈ d.downQueue, m.mess ≠ []
  cur : d.curElement < (d.downQueue.head?.map fun m => m.mess.length).getD 1
  parts : up.parts x = if d.curElement = 0 then none else
    d.downQueue.head?.map fun m => m.mess.take d.curElement
  delivered : ∃ sent, submitted = sent ++ d.downQueue ∧
    up.delivered.filter (fun m => m.procIndex = x) =
      (sent.filter DownLink.ordered).map (DownLink.delivery x) ∧
    (log.filter (Packet.singleOf x)).map Packet.message =
      (sent.filter fun m => !m.ordered).map (DownLink.delivery maxProcsRing)

namespace Feeds

variable {x : Nat} {log : List Packet} {up up' : UpQueue} {submitted : List DownLink}
  {d d' : Daemon}

theorem congr (h : Feeds x log up submitted d) (hqueue : d'.downQueue = d.downQueue)
    (hcur : d'.curElement = d.curElement) : Feeds x log up submitted d' where
  nonempty := by rw [hqueue]; exact h.nonempty
  cur := by rw [hqueue, hcur]; exact h.cur
  parts := by rw [hqueue, hcur]; exact h.parts
  delivered := by rw [hqueue]; exact h.delivered

/-- A packet of another daemon. -/
theorem other {p : Packet} (h : Feeds x log up submitted d) (hx : p.procId ≠ x)
    (hfollows : Follows up up' p) : Feeds x (log ++ [p]) up' submitted d := by
  have hsingles : (log ++ [p]).filter (Packet.singleOf x) = log.filter (Packet.singleOf x) := by
    simp [Packet.singleOf, hx]
  have hsame : up'.parts x = up.parts x ∧
      up'.delivered.filter (fun m => m.procIndex = x) =
        up.delivered.filter (fun m => m.procIndex = x) := by
    rw [Follows] at hfollows
    split at hfollows
    · rename_i hp
      have hqueue : p.queue ≠ x := by
        rwa [Packet.queue_of_not_single (Packet.ordered_iff.mp hp)]
      obtain ⟨-, ⟨-, hparts, hdelivered⟩ | ⟨-, hparts, hdelivered⟩⟩ :=
        UpQueue.push_cases hfollows
      · rw [hparts, hdelivered, Function.update_of_ne hqueue.symm, List.filter_append]
        simp [hqueue]
      · rw [hparts, hdelivered, Function.update_of_ne hqueue.symm]
        exact ⟨rfl, rfl⟩
    · rw [hfollows]
      exact ⟨rfl, rfl⟩
  exact
    { h with
      parts := hsame.1.trans h.parts
      delivered := by
        rw [hsame.2, hsingles]
        exact h.delivered }

/-- Packets of another daemon. -/
theorem others {new : List Packet} (h : Feeds x log up submitted d)
    (hnew : ∀ p ∈ new, p.procId ≠ x)
    (hpush : (new.filter Packet.ordered).foldlM UpQueue.push up = .ok up') :
    Feeds x (log ++ new) up' submitted d := by
  induction new generalizing log up with
  | nil =>
      obtain rfl : up = up' := Except.ok.inj hpush
      rwa [List.append_nil]
  | cons p rest ih =>
      have hp := hnew p List.mem_cons_self
      have hrest : ∀ q ∈ rest, q.procId ≠ x := fun q hq => hnew q (List.mem_cons_of_mem _ hq)
      rw [List.append_cons]
      by_cases hordered : p.ordered = true
      · rw [List.filter_cons_of_pos hordered, List.foldlM_cons] at hpush
        cases hone : up.push p with
        | error e => rw [hone] at hpush; cases hpush
        | ok next =>
            rw [hone] at hpush
            have hfollows : Follows up next p := by rw [Follows, if_pos hordered]; exact hone
            exact ih (h.other hp hfollows) hrest hpush
      · rw [List.filter_cons_of_neg hordered] at hpush
        have hfollows : Follows up up p := by rw [Follows, if_neg hordered]
        exact ih (h.other hp hfollows) hrest hpush

/-- A new message of the daemon waits behind the others. -/
theorem newMessage {m : DownLink} (h : Feeds x log up submitted d) (hm : m.mess ≠ []) :
    Feeds x log up (submitted ++ [m]) { d with downQueue := d.downQueue ++ [m] } := by
  have hlength : 0 < m.mess.length := List.length_pos_iff.mpr hm
  have hcur := h.cur
  have hparts := h.parts
  have hnonempty := h.nonempty
  obtain ⟨sent, hsent, hdelivered⟩ := h.delivered
  constructor
  case nonempty =>
    intro m' hm'
    rcases List.mem_append.mp hm' with hm' | hm'
    · exact hnonempty m' hm'
    · obtain rfl := List.mem_singleton.mp hm'
      exact hm
  case cur =>
    cases hqueue : d.downQueue with
    | nil =>
        rw [hqueue] at hcur
        simp at hcur ⊢
        omega
    | cons first rest => simpa [hqueue] using hcur
  case parts =>
    cases hqueue : d.downQueue with
    | nil =>
        rw [hqueue] at hcur hparts
        have hzero : d.curElement = 0 := by simpa using hcur
        simpa [hzero] using hparts
    | cons first rest => simpa [hqueue] using hparts
  case delivered => exact ⟨sent, by rw [hsent, List.append_assoc], hdelivered⟩

end Feeds

/-- The element of a message that is due fits where the ones ahead of it are. -/
theorem push_element {up : UpQueue} {x cur : Nat} {mess : List Body} {p : Packet}
    (hparts : up.parts x = if cur = 0 then none else some (mess.take cur))
    (hcur : cur < mess.length) (hproc : p.procId = x) (hsingle : ¬ p.single)
    (hbody : p.body = mess.getD cur []) (hindex : p.packetIndex.natAbs = cur + 1) :
    ∃ up', up.push p = .ok up' ∧
      (p.packetIndex < 0 → up'.parts x = none ∧
        up'.delivered = up.delivered ++ [⟨x, p.type, mess.take (cur + 1)⟩]) ∧
      (¬ p.packetIndex < 0 → up'.parts x = some (mess.take (cur + 1)) ∧
        up'.delivered = up.delivered) := by
  have hqueue : p.queue = x := (Packet.queue_of_not_single hsingle).trans hproc
  have helement : mess[cur]? = some p.body := by
    rw [hbody, List.getD_eq_getElem?_getD, List.getElem?_eq_getElem hcur]
    rfl
  have hold : (up.parts p.queue).getD [] = mess.take cur := by
    rw [hqueue, hparts]
    split
    · rename_i hzero
      rw [hzero, List.take_zero]
      rfl
    · rfl
  have htake : mess.take cur ++ [p.body] = mess.take (cur + 1) := by
    rw [List.take_add_one, helement]
    rfl
  have hfits : ((up.parts p.queue).getD []).length + 1 = p.packetIndex.natAbs := by
    rw [hold, List.length_take]
    omega
  obtain ⟨up', hpush⟩ := UpQueue.push_ok hfits
  refine ⟨up', hpush, ?_⟩
  obtain ⟨-, ⟨hlast, hnew, hdelivered⟩ | ⟨hmore, hnew, hdelivered⟩⟩ := UpQueue.push_cases hpush
  · rw [hold, htake, hqueue] at hdelivered
    rw [hnew, hqueue, Function.update_self]
    exact ⟨fun _ => ⟨rfl, hdelivered⟩, fun hmore => absurd hlast hmore⟩
  · rw [hold, htake] at hnew
    rw [hnew, hqueue, Function.update_self]
    exact ⟨fun hlast => absurd hlast hmore, fun _ => ⟨rfl, hdelivered⟩⟩

/-- What sending new packets leaves alone. -/
def Daemon.sendState (d : Daemon) : Daemon :=
  { d with
    highestSeq := 0, highestFifoSeq := 0, downQueue := [], curElement := 0
    packets := fun _ => none }

theorem Daemon.field_of_sendState {β : Type} {d d' : Daemon} (f : Daemon → β)
    (hf : ∀ d, f d.sendState = f d) (h : d'.sendState = d.sendState) : f d' = f d := by
  rw [← hf d', h, hf d]

/-- What the next packet of a daemon is, and what it leaves of the daemon. -/
structure Emits (my : My) (log : List Packet) (up : UpQueue) (submitted : List DownLink)
    (d : Daemon) (r : Packet × Daemon) : Prop where
  proc : r.1.procId = my.id
  seq : r.1.seq = d.highestSeq + 1
  feeds : ∃ up', Follows up up' r.1 ∧ Feeds my.id (log ++ [r.1]) up' submitted r.2
  highest : r.2.highestSeq = d.highestSeq + 1
  packets : r.2.packets = d.packets
  frame : r.2.sendState = d.sendState
  left : r.2.downElements - r.2.curElement + 1 = d.downElements - d.curElement

/-- The next element of the down queue is the next packet of its sender. -/
theorem nextPacket_returns {my : My} {log : List Packet} {up : UpQueue}
    {submitted : List DownLink} {d : Daemon} {m : DownLink} {rest : List DownLink}
    (h : Feeds my.id log up submitted d) (hqueue : d.downQueue = m :: rest) :
    Returns (d.nextPacket my m rest) (Emits my log up submitted d) := by
  obtain ⟨hnonempty, hcur, hparts, sent, hsent, hdelivered, hsingles⟩ := h
  rw [hqueue] at hnonempty hcur hparts hsent
  simp only [List.head?_cons, Option.map_some, Option.getD_some] at hcur hparts
  have hrest : ∀ m' ∈ rest, m'.mess ≠ [] := fun m' hm' =>
    hnonempty m' (List.mem_cons_of_mem _ hm')
  have hkept : ∀ p : Packet, ¬ p.single →
      (log ++ [p]).filter (Packet.singleOf my.id) = log.filter (Packet.singleOf my.id) := by
    intro p hp
    simp [Packet.singleOf, hp]
  have helements : d.downElements = m.mess.length + (rest.map fun m => m.mess.length).sum := by
    rw [Daemon.downElements, hqueue, List.map_cons, List.sum_cons]
  simp only [Daemon.nextPacket]
  split
  · -- an element ahead of the last one
    rename_i hmore
    have hsingle : ∀ p : Packet, p.packetIndex = (d.curElement + 1 : Nat) → ¬ p.single := by
      rintro p hp ⟨-, hlast⟩
      omega
    obtain ⟨up', hpush, -, hnext⟩ := push_element (p := ⟨m.type, my.id, d.highestSeq + 1,
      d.highestFifoSeq + 1, (d.curElement + 1 : Nat), m.mess.getD d.curElement []⟩) hparts hcur rfl
      (hsingle _ rfl) rfl (Int.natAbs_natCast _)
    obtain ⟨hparts', hdelivered'⟩ := hnext (by simp only; omega)
    refine .ok ⟨rfl, rfl, ⟨up', ?_, ?_⟩, rfl, rfl, rfl, ?_⟩
    · rw [Follows, if_pos (Packet.ordered_iff.mpr (hsingle _ rfl))]
      exact hpush
    · constructor
      case nonempty => rw [hqueue]; exact hnonempty
      case cur => simpa [hqueue] using hmore
      case parts => simpa [hqueue] using hparts'
      case delivered =>
        refine ⟨sent, by rw [hqueue]; exact hsent, by rw [hdelivered']; exact hdelivered, ?_⟩
        rw [hkept _ (hsingle _ rfl)]
        exact hsingles
    · simp only [Daemon.downElements] at helements ⊢
      omega
  · -- the last element
    rename_i hmore
    have hlast : d.curElement + 1 = m.mess.length := by omega
    rw [if_pos hlast]
    have hwhole : m.mess.take (d.curElement + 1) = m.mess := by
      rw [hlast, List.take_length]
    have hleft : (rest.map fun m => m.mess.length).sum - 0 + 1 =
        d.downElements - d.curElement := by omega
    have hnew : (rest.head?.map fun m => m.mess.length).getD 1 ≠ 0 := by
      cases rest with
      | nil => simp
      | cons next _ =>
          have hne := hrest next List.mem_cons_self
          simpa using hne
    by_cases hsingle : m.ordered = true
    · have hpacket : ∀ p : Packet, p.type = m.type → p.packetIndex = -(m.mess.length : Int) →
          ¬ p.single := by
        rintro p htype hp ⟨hreliable, hone⟩
        have hlength : m.mess.length = 1 := by omega
        simp [DownLink.ordered, ← htype, hreliable, hlength] at hsingle
      obtain ⟨up', hpush, hnext, -⟩ := push_element (p := ⟨m.type, my.id, d.highestSeq + 1,
        d.highestFifoSeq + 1, -(m.mess.length : Int), m.mess.getD d.curElement []⟩) hparts hcur rfl
        (hpacket _ rfl rfl) rfl (by simp only; omega)
      obtain ⟨hparts', hdelivered'⟩ := hnext (by simp only; omega)
      refine .ok ⟨rfl, rfl, ⟨up', ?_, ?_⟩, rfl, rfl, rfl, hleft⟩
      · rw [Follows, if_pos (Packet.ordered_iff.mpr (hpacket _ rfl rfl))]
        exact hpush
      · constructor
        case nonempty => exact hrest
        case cur => exact Nat.pos_of_ne_zero hnew
        case parts => simpa using hparts'
        case delivered =>
          refine ⟨sent ++ [m], by rw [hsent]; simp, ?_, ?_⟩
          · rw [hdelivered', List.filter_append, hdelivered, List.filter_append, List.map_append,
              hwhole, List.filter_cons_of_pos hsingle]
            simp [DownLink.delivery]
          · rw [hkept _ (hpacket _ rfl rfl), hsingles, List.filter_append]
            simp [hsingle]
    · -- a reliable message of a single packet leaves the order alone
      have hzero : d.curElement = 0 ∧ m.type = .reliable ∧ m.mess.length = 1 := by
        simp [DownLink.ordered] at hsingle
        exact ⟨by omega, hsingle⟩
      refine .ok ⟨rfl, rfl, ⟨up, ?_, ?_⟩, rfl, rfl, rfl, hleft⟩
      · have hpacket : Packet.ordered ⟨m.type, my.id, d.highestSeq + 1, d.highestFifoSeq + 1,
            -(m.mess.length : Int), m.mess.getD d.curElement []⟩ = false := by
          simp [Packet.ordered, Packet.single, hzero.2]
        rw [Follows, if_neg]
        rw [hpacket]
        exact Bool.false_ne_true
      · constructor
        case nonempty => exact hrest
        case cur => exact Nat.pos_of_ne_zero hnew
        case parts => simpa [hzero.1] using hparts
        case delivered =>
          obtain ⟨hcurzero, hreliable, hone⟩ := hzero
          obtain ⟨body, hbody⟩ := List.length_eq_one_iff.mp hone
          refine ⟨sent ++ [m], by rw [hsent]; simp, ?_, ?_⟩
          · rw [hdelivered, List.filter_append, List.filter_cons_of_neg hsingle]
            simp
          · rw [List.filter_append, List.map_append, hsingles, List.filter_append, List.map_append]
            simp [Packet.singleOf, Packet.single, Packet.message, DownLink.ordered,
              DownLink.delivery, hcurzero, hreliable, hbody]

/-- The most packets that a datagram holds: the header alone takes 36 bytes. -/
def maxPacked : Nat := maxPacketSize / packetHeaderSize

/-- There are `k` packets in the queue, and more than one only within a datagram. -/
structure Packed (q : BcastQueue) (k : Nat) : Prop where
  bytes : packetHeaderSize * k ≤ q.bytes
  fits : q.bytes ≤ maxPacketSize ∨ k ≤ 1

theorem Packed.empty : Packed .empty 0 := ⟨Nat.zero_le _, .inr (Nat.zero_le _)⟩

theorem Packed.le {q : BcastQueue} {k : Nat} (h : Packed q k) : k ≤ maxPacked := by
  have hbytes := h.bytes
  have hfits := h.fits
  simp only [maxPacked, packetHeaderSize, maxPacketSize] at *
  omega

/-- A packet is put in a queue of its own, after a flush, or behind the others. -/
theorem BcastQueue.push_cases (q : BcastQueue) (p : Packet) :
    ((q.push p).1 = q.flush ∧ (q.push p).2.bytes = packetHeaderSize + p.dataLen) ∨
      ((q.push p).1 = 0 ∧ q.bytes + packetHeaderSize ≤ (q.push p).2.bytes ∧
        (q.push p).2.bytes ≤ maxPacketSize) := by
  simp only [push]
  generalize (if alignBytes q.bytes = 0 then 0 else 1) = pad
  split
  · exact .inl ⟨rfl, rfl⟩
  · refine .inr ⟨rfl, ?_, ?_⟩
    · simp only
      omega
    · simp only
      omega

theorem BcastQueue.flush_le (q : BcastQueue) : q.flush ≤ 1 := by
  rw [flush]
  split <;> omega

/-- A flush takes all the packets of the queue with it. -/
theorem Packed.push {q : BcastQueue} {k : Nat} (h : Packed q k) (p : Packet) :
    ∃ k', Packed (q.push p).2 k' ∧ k + 1 ≤ maxPacked * (q.push p).1 + k' := by
  have hbytes := h.bytes
  have hle := h.le
  rcases q.push_cases p with ⟨hflushed, hnew⟩ | ⟨hflushed, hnew, hfits⟩
  · refine ⟨1, ⟨by omega, .inr le_rfl⟩, ?_⟩
    rw [hflushed, BcastQueue.flush]
    split
    · simp only [packetHeaderSize] at hbytes
      omega
    · omega
  · refine ⟨k + 1, ⟨by rw [Nat.mul_add]; omega, .inl hfits⟩, ?_⟩
    rw [hflushed]
    omega

/-- The most new packets of a turn. -/
def maxCreated (allowed : Nat) : Nat := maxPacked * (allowed + 1)

/-- The most datagrams of a turn: the last flush may go one beyond what is allowed. -/
def maxSent (allowed : Nat) : Nat := if allowed = 0 then 0 else allowed + 1

/-- The loop of `Send_new_packets`: the log with what has been created so far, and the
daemon, which has nothing but the down queue, the packets and their numbers changed. -/
structure SendInv (my : My) (log : List Packet) (submitted : List DownLink) (start : Daemon)
    (allowed : Nat) (s : Sending) : Prop where
  ordered : Ordered (log ++ s.created)
  feeds : ∃ up, assemble ((log ++ s.created).filter Packet.ordered) = .ok up ∧
    Feeds my.id (log ++ s.created) up submitted s.daemon
  proc : ∀ p ∈ s.created, p.procId = my.id
  view : ∃ early, View (log ++ s.created) start.aru start.lastDelivered early s.daemon
  highest : s.daemon.highestSeq = (log ++ s.created).length
  frame : s.daemon.sendState = start.sendState
  slots : ∀ q, start.aru < q → q ≤ log.length → s.daemon.slot q = start.slot q
  packed : ∃ k, Packed s.queue k ∧ s.created.length ≤ maxPacked * s.numSent + k
  sent : s.numSent ≤ allowed
  idle : allowed = 0 → s.created = [] ∧ s.queue = .empty

namespace SendInv

variable {my : My} {log : List Packet} {submitted : List DownLink} {start : Daemon}
  {allowed : Nat} {s : Sending}

theorem created_le (h : SendInv my log submitted start allowed s) :
    s.created.length ≤ maxCreated allowed := by
  obtain ⟨k, hpacked, hlength⟩ := h.packed
  have hk := hpacked.le
  have hsent := Nat.mul_le_mul_left maxPacked h.sent
  rw [maxCreated, Nat.mul_add, Nat.mul_one]
  omega

/-- One turn of the loop: the packet goes to the end of the log and into its entry. -/
theorem step {up : UpQueue} {p : Packet} {d : Daemon}
    (h : SendInv my log submitted start allowed s)
    (hup : assemble ((log ++ s.created).filter Packet.ordered) = .ok up)
    (hemits : Emits my (log ++ s.created) up submitted s.daemon (p, d)) (hallowed : s.numSent < allowed)
    (hroom : log.length + maxCreated allowed ≤ start.aru + maxPacketsInStruct)
    (hid : my.id < maxProcsRing) :
    Returns (d.insertCreated p) fun d' =>
      SendInv my log submitted start allowed
        { daemon := d', created := s.created ++ [p], numSent := s.numSent + (s.queue.push p).1
          queue := (s.queue.push p).2 } ∧
      d'.downElements - d'.curElement + 1 = s.daemon.downElements - s.daemon.curElement := by
  obtain ⟨hproc, hseq, ⟨up', hfollows, hfeeds⟩, hhighest, hpackets, hframe, hleft⟩ := hemits
  simp only at hproc hseq hfeeds hhighest hpackets hframe hleft
  obtain ⟨early, hview⟩ := h.view
  obtain ⟨k, hpacked, hcount⟩ := h.packed
  obtain ⟨k', hpacked', hcount'⟩ := hpacked.push p
  have hflushed : (s.queue.push p).1 ≤ 1 := by
    have hle := s.queue.flush_le
    rcases s.queue.push_cases p with ⟨hpush, -⟩ | ⟨hpush, -⟩ <;> omega
  have htop : (log ++ (s.created ++ [p])).length = (log ++ s.created).length + 1 := by
    simp only [List.length_append, List.length_singleton]
    omega
  have hhigh := h.highest
  -- the log with the packet at its end
  have happend : log ++ (s.created ++ [p]) = (log ++ s.created) ++ [p] := by simp
  have hassembled : assemble ((log ++ (s.created ++ [p])).filter Packet.ordered) = .ok up' := by
    rw [happend, List.filter_append]
    rw [Follows] at hfollows
    split at hfollows
    · rename_i hordered
      rw [List.filter_cons_of_pos hordered, List.filter_nil]
      exact assemble_snoc hup hfollows
    · rename_i hordered
      rw [List.filter_cons_of_neg hordered, List.filter_nil, List.append_nil, hup, hfollows]
  have hordered : Ordered (log ++ (s.created ++ [p])) := by
    constructor
    case number =>
      intro i q hq
      rw [happend] at hq
      by_cases hi : i < (log ++ s.created).length
      · rw [List.getElem?_append_left hi] at hq
        exact h.ordered.number i q hq
      · have hlast : i = (log ++ s.created).length := by
          have hlt := (List.getElem?_eq_some_iff.mp hq).1
          rw [← happend, htop] at hlt
          omega
        rw [hlast, List.getElem?_concat_length, Option.some.injEq] at hq
        rw [← hq, hseq, hhigh, hlast]
    case proc =>
      intro q hq
      rw [happend] at hq
      rcases List.mem_append.mp hq with hq | hq
      · exact h.ordered.proc q hq
      · rw [List.mem_singleton.mp hq, hproc]
        exact hid
    case assembled => exact ⟨up', hassembled⟩
  have hsending : SendInv my log submitted start allowed s → (s.created ++ [p]).length ≤
      maxCreated allowed := by
    intro _
    have hle := hpacked'.le
    have hsent : maxPacked * (s.numSent + (s.queue.push p).1) ≤ maxPacked * allowed :=
      Nat.mul_le_mul_left _ (by omega)
    rw [maxCreated, Nat.mul_add, Nat.mul_one]
    rw [Nat.mul_add] at hsent
    simp only [List.length_append, List.length_singleton]
    omega
  have hwindow : (log ++ (s.created ++ [p])).length ≤ start.aru + maxPacketsInStruct := by
    have hle := hsending h
    rw [List.length_append]
    omega
  have hlo : start.aru < p.seq := by
    have hle := hview.lo_le
    have hdel := hview.del_le
    have hmyAru := hview.myAru_le
    omega
  have hroom' : p.seq ≤ start.aru + maxPacketsInStruct := by omega
  -- its entry is free: what the array holds is at most one length of it back
  have hslot : s.daemon.slot p.seq = none := by
    cases hslot : s.daemon.slot p.seq with
    | none => rfl
    | some info =>
        have hle := (hview.slot_entry hslot hlo hroom').2.1
        omega
  have hslot' : d.slot p.seq = none := by rw [Daemon.slot, hpackets]; exact hslot
  rw [happend] at hordered hwindow
  have hinsert := (hview.extend hordered hwindow).insert hordered (by simp) hlo hslot
  rw [← happend] at hinsert hordered
  rw [Daemon.insertCreated, hslot']
  refine .ok ⟨?_, hleft⟩
  constructor
  case ordered => exact hordered
  case feeds =>
    refine ⟨up', hassembled, ?_⟩
    rw [happend]
    exact hfeeds.congr rfl rfl
  case proc =>
    intro q hq
    rcases List.mem_append.mp hq with hq | hq
    · exact h.proc q hq
    · rw [List.mem_singleton.mp hq]
      exact hproc
  case view =>
    refine ⟨early, hinsert.congr ?_ ?_ ?_ ?_⟩
    · simp only [Daemon.insertPacket, Daemon.setSlot, hpackets]
    · exact Daemon.field_of_sendState Daemon.myAru (fun _ => rfl) hframe
    · simp only [Daemon.insertPacket, Daemon.setSlot, hhighest, hseq]
      omega
    · exact Daemon.field_of_sendState Daemon.up (fun _ => rfl) hframe
  case highest =>
    simp only [Daemon.setSlot, hhighest, htop]
    omega
  case frame => exact hframe.trans h.frame
  case slots =>
    intro q hq hq'
    have hlength : q < p.seq := by
      rw [hseq, hhigh, List.length_append]
      omega
    rw [Daemon.slot_setSlot, if_neg, Daemon.slot, hpackets]
    · exact h.slots q hq hq'
    · intro hentry
      have heq := packEntry_inj hq (by omega) hlo hroom' hentry
      omega
  case packed =>
    refine ⟨k', hpacked', ?_⟩
    simp only [List.length_append, List.length_singleton]
    rw [Nat.mul_add]
    omega
  case sent =>
    simp only
    omega
  case idle => exact fun hzero => by omega

end SendInv

/-- The loop ends at its own condition: the down queue is empty, or as many datagrams are
sent as are allowed. -/
theorem sendLoop_returns {my : My} {log : List Packet} {submitted : List DownLink}
    {start : Daemon} {allowed : Nat} {s : Sending} (count : Nat)
    (h : SendInv my log submitted start allowed s)
    (hcount : s.daemon.downElements - s.daemon.curElement < count)
    (hroom : log.length + maxCreated allowed ≤ start.aru + maxPacketsInStruct)
    (hid : my.id < maxProcsRing) :
    Returns (sendLoop my allowed count s) fun s' =>
      SendInv my log submitted start allowed s' ∧
        (s'.daemon.downQueue = [] ∨ s'.numSent = allowed) := by
  induction count generalizing s with
  | zero => omega
  | succ count ih =>
      rw [sendLoop]
      split
      · rename_i hallowed
        split
        · rename_i hqueue
          exact .ok ⟨h, .inl hqueue⟩
        · rename_i m rest hqueue
          obtain ⟨up, hup, hfeeds⟩ := h.feeds
          refine (nextPacket_returns hfeeds hqueue).bind ?_
          rintro ⟨p, d⟩ hemits
          refine (h.step hup hemits hallowed hroom hid).bind ?_
          rintro d' ⟨hinv, hleft⟩
          exact ih hinv (by simp only; omega)
      · rename_i hallowed
        have hsent := h.sent
        exact .ok ⟨h, .inr (by omega)⟩

end Netbroker.Ring
