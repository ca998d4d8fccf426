import Netbroker.Connector.Turns

/-!
# Frames that stay at the head

`receiveFromGroup` treats `BUFFER_TOO_SHORT` as a result and every other negative code
as an error of the session. A frame with more groups than the array holds makes both
calls of a turn answer `GROUPS_TOO_SHORT` and stays where it is. A frame in the other
byte order that the first call already consumes leaves 1 in the slot that the second
call's buffer size is negated from.

`SP_receive` keeps the size -1 in a `size_t`, so that its test for negative sizes never
fires, and adds it up in an `int`, which every length exceeds. Whether the next frame stays
at the head depends on the service type that the first call has left. With `DROP_RECV` the
frame is taken and its overflow discarded, which is one byte more than it has.

A packet is a frame with the byte order of its sender, which `Frame` leaves out. Packets
that a native sender has written are the frames of the other modules.
-/

namespace Netbroker

open Spread

/-- A frame, and whether its sender wrote the opcode in the other byte order. -/
structure Packet where
  frame : Frame
  foreign : Bool
  deriving DecidableEq, Repr

namespace Packet

/-- A frame of a sender that shares the byte order of this host. -/
def native (f : Frame) : Packet := { frame := f, foreign := false }

/-- The reader turns the opcode over, and says so in `endian_mismatch`. -/
def flips (p : Packet) : Bool := p.foreign && carriesOpCode p.frame

/-- The packet fits the first call of a turn, which offers the group array and no buffer. -/
def fitsFirst (p : Packet) : Bool :=
  decide (p.frame.groups.length ≤ maxGroupArraySize) && p.frame.body = []

/-- The second call of a turn that has only peeked at the packet consumes it: its groups
fit, or its type left `DROP_RECV` in the service slot. -/
def fitsSecond (p : Packet) : Bool :=
  isDropRecv p.frame.type || decide (p.frame.groups.length ≤ maxGroupArraySize)

end Packet

namespace Reading

/-- The second call offers a buffer of size -1, behind a null pointer. -/
def offersNegative (r : Reading) : Bool := r.phase = .second && decide (0 < r.slots.endianMismatch)

/-- `SP_receive` with a buffer of size -1: each body is too long for it, an empty one too. -/
def receiveNegative (privateGroup : Str) (r : Reading) (f : Frame) : Reception :=
  if isDropRecv r.slots.service then
    { consume privateGroup maxGroupArraySize 0 r.slots r.mess f with ret := bufferTooShort }
  else peek maxGroupArraySize 0 r.slots r.mess f

/-- The next call of `SP_receive`, with a packet at the head. -/
def receivePacket (privateGroup : Str) (r : Reading) (p : Packet) : Reception :=
  let x :=
    if r.offersNegative then r.receiveNegative privateGroup p.frame
    else r.receive privateGroup p.frame
  if x.consumed && p.flips then { x with slots := { x.slots with endianMismatch := 1 } } else x

/-- The overflow that the next call discards has a byte of the packet behind: `data_len` less
the size -1. -/
def tears (r : Reading) : Bool := r.offersNegative && isDropRecv r.slots.service

end Reading

/-- How a call of `receiveFromGroup`, or a turn of its loop, ends on a stream of packets. -/
inductive Fate where
  | waits
  | again (slots : Slots) (rest : List Packet)
  | returned (ret : Int) (b : Buffer) (rest : List Packet)
  /-- A packet has lost its first byte, and the stream goes on behind it. -/
  | torn
  deriving DecidableEq, Repr

/-- The end of a turn on packets. -/
def Fate.settle (x : Reception) (rest : List Packet) : Option Int → Fate
  | some ret => .returned ret (filledBuffer x) rest
  | none => .again x.slots rest

/-- The second call of a turn on packets. One that discards a byte of the packet behind
waits for it. -/
def secondPacket (l : Listener) (r : Reading) : List Packet → Fate
  | [] => .waits
  | p :: rest =>
      if r.tears then if rest = [] then .waits else .torn
      else
        let x := r.receivePacket l.privateGroup p
        .settle x (if x.consumed then rest else p :: rest) (verdict l x)

/-- One turn of the loop on packets. -/
def turnPackets (l : Listener) (slots : Slots) : List Packet → Fate
  | [] => .waits
  | p :: rest =>
      let x := (Reading.top slots).receivePacket l.privateGroup p
      secondPacket l { phase := .second, slots := x.slots } (if x.consumed then rest else p :: rest)

/-- At most `n` turns of the loop on packets. -/
def turnsPackets (l : Listener) : Nat → Slots → List Packet → Fate
  | 0, slots, stream => .again slots stream
  | n + 1, slots, stream =>
      match turnPackets l slots stream with
      | .again slots rest => turnsPackets l n slots rest
      | fate => fate

/-- `receiveFromGroup` on a stream of packets. -/
def receivePackets (l : Listener) (stream : List Packet) : Fate :=
  turnsPackets l (stream.length + 1) Reading.start.slots stream

/-- The same outcome with the frames as native packets. -/
def Outcome.packets : Outcome → Fate
  | .waits => .waits
  | .again slots rest => .again slots (rest.map .native)
  | .returned ret b rest => .returned ret b (rest.map .native)

theorem settle_packets (x : Reception) (rest : List Frame) (answer : Option Int) :
    Fate.settle x (rest.map .native) answer = (settle x rest answer).packets := by
  cases answer <;> rfl

theorem receivePacket_native {privateGroup : Str} {r : Reading} (hr : r.offersNegative = false)
    (f : Frame) : r.receivePacket privateGroup (.native f) = r.receive privateGroup f := by
  simp [Reading.receivePacket, hr, Packet.native, Packet.flips]

theorem receive_endianMismatch (privateGroup : Str) (r : Reading) (f : Frame) :
    (r.receive privateGroup f).slots.endianMismatch ≤ 0 := by
  rw [Reading.receive, Spread.receive]
  split
  · simp only [peek]
    split <;> omega
  · exact Int.le_refl 0

theorem secondPacket_native (l : Listener) {r : Reading} (hr : r.offersNegative = false)
    (stream : List Frame) :
    secondPacket l r (stream.map .native) = (secondCall l r stream).packets := by
  cases stream with
  | nil => rfl
  | cons f rest =>
      have htears : r.tears = false := by simp [Reading.tears, hr]
      simp only [List.map_cons, secondPacket, htears, Bool.false_eq_true, if_false,
        receivePacket_native hr, secondCall]
      rw [← settle_packets]
      split <;> rfl

theorem turnPackets_native (l : Listener) (slots : Slots) (stream : List Frame) :
    turnPackets l slots (stream.map .native) = (turn l slots stream).packets := by
  cases stream with
  | nil => rfl
  | cons f rest =>
      have htop : (Reading.top slots).offersNegative = false := rfl
      simp only [List.map_cons, turnPackets, receivePacket_native htop, turn]
      have hsecond : Reading.offersNegative
          { phase := .second,
            slots := ((Reading.top slots).receive l.privateGroup f).slots } = false := by
        have hle := receive_endianMismatch l.privateGroup (Reading.top slots) f
        simp [Reading.offersNegative, Int.not_lt.mpr hle]
      rw [← secondPacket_native l hsecond]
      split <;> rfl

theorem turnsPackets_native (l : Listener) (n : Nat) (slots : Slots) (stream : List Frame) :
    turnsPackets l n slots (stream.map .native) = (turns l n slots stream).packets := by
  induction n generalizing slots stream with
  | zero => rfl
  | succ n ih =>
      rw [turnsPackets, turns, turnPackets_native]
      cases turn l slots stream with
      | again slots rest => exact ih slots rest
      | waits => rfl
      | returned => rfl

/-- On frames of this host's byte order the two models agree. -/
theorem receivePackets_native (l : Listener) (stream : List Frame) :
    receivePackets l (stream.map .native) = (receiveFromGroup l stream).packets := by
  rw [receivePackets, receiveFromGroup, List.length_map]
  exact turnsPackets_native l _ _ stream

/-- Every call on the stream takes at least one packet off, and the calls go on until
one of them waits with all of it taken. A packet that has lost its first byte is never
taken: what is left of it is read as something else. -/
inductive Drains (l : Listener) : List Packet → Prop
  | waits {stream : List Packet} (call : receivePackets l stream = .waits) : Drains l stream
  | returns {stream taken rest : List Packet} {ret : Int} {b : Buffer}
      (call : receivePackets l stream = .returned ret b rest) (split : stream = taken ++ rest)
      (some : taken ≠ []) (others : Drains l rest) : Drains l stream

/-- Read from the head, turn by turn: no packet stays there for ever, and none loses its
first byte. -/
def Passable : List Packet → Bool
  | [] => true
  | [p] => p.fitsSecond
  | p :: q :: rest =>
      if p.fitsFirst then
        if p.flips then if isDropRecv (serviceOf p.frame) then rest = [] else Passable (q :: rest)
        else if isDropRecv (serviceOf p.frame) || q.fitsFirst then Passable rest
        else Passable (q :: rest)
      else p.fitsSecond && Passable (q :: rest)

/-- What a turn, or a call, does to the stream. -/
inductive Moves (stream : List Packet) : Fate → Prop
  | waits (clear : Passable stream = true) : Moves stream .waits
  | again {slots : Slots} {taken rest : List Packet} (split : stream = taken ++ rest)
      (some : taken ≠ []) (same : Passable stream = Passable rest) :
      Moves stream (.again slots rest)
  | returned {ret : Int} {b : Buffer} {taken rest : List Packet} (split : stream = taken ++ rest)
      (some : taken ≠ []) (same : Passable stream = Passable rest) :
      Moves stream (.returned ret b rest)
  | blocked {ret : Int} {b : Buffer} (stuck : Passable stream = false) :
      Moves stream (.returned ret b stream)
  | torn (stuck : Passable stream = false) : Moves stream .torn

variable {l : Listener}

theorem Moves.settle {stream rest : List Packet} {x : Reception} {answer : Option Int}
    (taken : List Packet)
    (split : stream = taken ++ rest) (some : taken ≠ [])
    (same : Passable stream = Passable rest) : Moves stream (.settle x rest answer) := by
  cases answer with
  | none => exact .again split some same
  | some => exact .returned split some same

theorem Passable_first {p : Packet} (rest : List Packet) (h : p.fitsFirst = false) :
    Passable (p :: rest) = (p.fitsSecond && Passable rest) := by
  cases rest with
  | nil => simp [Passable]
  | cons q rest => simp [Passable, h]

/-- A call with a size takes the packet if it asks for truncation or offers enough. -/
theorem receivePacket_consumed {privateGroup : Str} {r : Reading} (hr : r.offersNegative = false)
    (p : Packet) : (r.receivePacket privateGroup p).consumed =
      (isDropRecv r.slots.service || (decide (p.frame.groups.length ≤ maxGroupArraySize) &&
        decide (p.frame.body.length ≤ r.maxLen))) := by
  have hreceive : (r.receive privateGroup p.frame).consumed =
      (isDropRecv r.slots.service || (decide (p.frame.groups.length ≤ maxGroupArraySize) &&
        decide (p.frame.body.length ≤ r.maxLen))) := by
    rw [Reading.receive, Spread.receive]
    split
    · rename_i h
      simp only [Bool.and_eq_true, Bool.not_eq_true', Bool.or_eq_true, decide_eq_true_eq] at h
      simp only [peek, h.1, Bool.false_or]
      grind
    · rename_i h
      simp only [Bool.and_eq_true, Bool.not_eq_true', Bool.or_eq_true, decide_eq_true_eq] at h
      simp only [consume]
      grind
  simp only [Reading.receivePacket, hr, Bool.false_eq_true, if_false]
  split
  · exact hreceive
  · exact hreceive

/-- A call with the size -1 leaves every packet, unless it asks for truncation. -/
theorem receivePacket_left {privateGroup : Str} {r : Reading} (hr : r.offersNegative = true)
    (hdrop : isDropRecv r.slots.service = false) (p : Packet) :
    (r.receivePacket privateGroup p).consumed = false := by
  have hpeek : r.receiveNegative privateGroup p.frame =
      peek maxGroupArraySize 0 r.slots r.mess p.frame := by
    rw [Reading.receiveNegative, if_neg (by simp [hdrop])]
  have hkept : (peek maxGroupArraySize 0 r.slots r.mess p.frame).consumed = false := rfl
  simp only [Reading.receivePacket, hr, if_true, hpeek, hkept, Bool.false_and, Bool.false_eq_true,
    if_false]

/-- The first call takes a packet that fits, and marks a foreign one. -/
theorem top_takes (slots : Slots) {p : Packet} (h : p.fitsFirst = true) :
    ∃ x, (Reading.top slots).receivePacket l.privateGroup p = x ∧ x.consumed = true ∧
      x.slots.service = serviceOf p.frame ∧
      x.slots.endianMismatch = if p.flips then 1 else 0 := by
  refine ⟨_, rfl, ?_⟩
  simp only [Packet.fitsFirst, Bool.and_eq_true, decide_eq_true_eq] at h
  have hreceive : (Reading.top slots).receive l.privateGroup p.frame =
      consume l.privateGroup maxGroupArraySize 0 (Reading.top slots).slots [0] p.frame :=
    receive_consume h.1 (by simp [h.2])
  have hsized : (Reading.top slots).offersNegative = false := rfl
  simp only [Reading.receivePacket, hsized, hreceive, Bool.false_eq_true, if_false]
  cases p.flips <;> exact ⟨rfl, rfl, rfl⟩

/-- The first call leaves any other packet, and asks for its size. -/
theorem top_peeks (slots : Slots) {p : Packet} (h : p.fitsFirst = false) :
    ∃ x, (Reading.top slots).receivePacket l.privateGroup p = x ∧ x.consumed = false ∧
      x.slots.service = p.frame.type ∧ x.slots.endianMismatch = -p.frame.body.length := by
  refine ⟨_, rfl, ?_⟩
  have hsized : (Reading.top slots).offersNegative = false := rfl
  have hlarge : (decide (maxGroupArraySize < p.frame.groups.length) ||
      decide (0 < p.frame.body.length)) = true := by
    simp only [Packet.fitsFirst, Bool.and_eq_false_iff, decide_eq_false_iff_not,
      Nat.not_le] at h
    simpa [List.length_pos_iff] using h
  have hreceive : (Reading.top slots).receive l.privateGroup p.frame =
      peek maxGroupArraySize 0 (Reading.top slots).slots [0] p.frame := by
    have hnodrop := top_not_dropRecv slots
    have hlen : (Reading.top slots).maxLen = 0 := rfl
    rw [Reading.receive, Spread.receive]
    exact if_pos (by simpa [hnodrop, hlen] using hlarge)
  have hkept : (peek maxGroupArraySize 0 (Reading.top slots).slots [0] p.frame).consumed =
      false := rfl
  simp only [Reading.receivePacket, hsized, hreceive, hkept, Bool.false_and, Bool.false_eq_true,
    if_false]
  refine ⟨trivial, rfl, ?_⟩
  simp only [peek]
  split <;> omega

/-- A packet with too many groups is left, and the answer ends the call. -/
theorem blocked_verdict {r : Reading} (hsized : r.offersNegative = false) {p : Packet}
    (hservice : r.slots.service = p.frame.type) (h : p.fitsSecond = false) :
    verdict l (r.receivePacket l.privateGroup p) = some groupsTooShort := by
  simp only [Packet.fitsSecond, Bool.or_eq_false_iff, decide_eq_false_iff_not, Nat.not_le] at h
  have hreceive : r.receive l.privateGroup p.frame =
      peek maxGroupArraySize r.maxLen r.slots r.mess p.frame := by
    rw [Reading.receive, Spread.receive]
    exact if_pos (by simp [hservice, h])
  have hret : (r.receivePacket l.privateGroup p).ret = groupsTooShort := by
    have hkept : (peek maxGroupArraySize r.maxLen r.slots r.mess p.frame).consumed = false := rfl
    simp only [Reading.receivePacket, hsized, hreceive, hkept, Bool.false_and, Bool.false_eq_true,
      if_false]
    exact if_pos h.2
  rw [verdict, hret]
  rfl

/-- After a packet that the first call has taken. -/
theorem second_moves {left : Slots} {p : Packet} (rest : List Packet) (h : p.fitsFirst = true)
    (hservice : left.service = serviceOf p.frame)
    (hmismatch : left.endianMismatch = if p.flips then 1 else 0) :
    Moves (p :: rest) (secondPacket l { phase := .second, slots := left } rest) := by
  cases rest with
  | nil =>
      refine .waits ?_
      simp only [Packet.fitsFirst, Bool.and_eq_true] at h
      simp [Passable, Packet.fitsSecond, h.1]
  | cons q rest =>
      cases hflips : p.flips with
      | true =>
          have hnegative : Reading.offersNegative { phase := .second, slots := left } = true := by
            simp [Reading.offersNegative, hmismatch, hflips]
          cases hdrop : isDropRecv (serviceOf p.frame) with
          | true =>
              have htears : Reading.tears { phase := .second, slots := left } = true := by
                simp [Reading.tears, hnegative, hservice, hdrop]
              rw [secondPacket, if_pos htears]
              split
              · rename_i hlast
                exact .waits (by simp [Passable, h, hflips, hdrop, hlast])
              · rename_i hmore
                exact .torn (by simp [Passable, h, hflips, hdrop, hmore])
          | false =>
              have htears : Reading.tears { phase := .second, slots := left } = false := by
                simp [Reading.tears, hservice, hdrop]
              have hleft : (Reading.receivePacket l.privateGroup
                  { phase := .second, slots := left } q).consumed = false :=
                receivePacket_left hnegative ((congrArg isDropRecv hservice).trans hdrop) q
              simp only [secondPacket, htears, hleft, Bool.false_eq_true, if_false]
              exact .settle [p] rfl (by simp) (by simp [Passable, h, hflips, hdrop])
      | false =>
          have hsized : Reading.offersNegative { phase := .second, slots := left } = false := by
            simp [Reading.offersNegative, hmismatch, hflips]
          have htears : Reading.tears { phase := .second, slots := left } = false := by
            simp [Reading.tears, hsized]
          have hlen : Reading.maxLen { phase := .second, slots := left } = 0 := by
            simp [Reading.maxLen, hmismatch, hflips]
          have hconsumed : (Reading.receivePacket l.privateGroup
              { phase := .second, slots := left } q).consumed =
                (isDropRecv (serviceOf p.frame) || q.fitsFirst) := by
            rw [receivePacket_consumed hsized, hlen, hservice, Packet.fitsFirst]
            simp
          simp only [secondPacket, htears, Bool.false_eq_true, if_false, hconsumed]
          split
          · rename_i htaken
            exact .settle [p, q] rfl (by simp)
              (by simp only [Passable, h, hflips, htaken]; simp)
          · rename_i hleft
            exact .settle [p] rfl (by simp)
              (by simp only [Passable, h, hflips, hleft]; simp)

theorem turnPackets_moves (slots : Slots) (stream : List Packet) :
    Moves stream (turnPackets l slots stream) := by
  cases stream with
  | nil => exact .waits rfl
  | cons p rest =>
      cases hfits : p.fitsFirst with
      | true =>
          obtain ⟨x, hx, hconsumed, hservice, hmismatch⟩ := top_takes (l := l) slots hfits
          simp only [turnPackets, hx, hconsumed, if_true]
          exact second_moves rest hfits hservice hmismatch
      | false =>
          obtain ⟨x, hx, hconsumed, hservice, hmismatch⟩ := top_peeks (l := l) slots hfits
          have hsized : Reading.offersNegative { phase := .second, slots := x.slots } = false := by
            simp [Reading.offersNegative, hmismatch]
          have htears : Reading.tears { phase := .second, slots := x.slots } = false := by
            simp [Reading.tears, hsized]
          have hlen : Reading.maxLen { phase := .second, slots := x.slots } =
              p.frame.body.length := by
            simp [Reading.maxLen, hmismatch]
          have htaken : (Reading.receivePacket l.privateGroup
              { phase := .second, slots := x.slots } p).consumed = p.fitsSecond := by
            rw [receivePacket_consumed hsized, hlen, hservice, Packet.fitsSecond]
            simp
          simp only [turnPackets, hx, hconsumed, Bool.false_eq_true, if_false, secondPacket,
            htears, htaken]
          cases hsecond : p.fitsSecond with
          | true =>
              rw [if_pos rfl]
              exact .settle [p] rfl (by simp)
                (by rw [Passable_first rest hfits, hsecond, Bool.true_and])
          | false =>
              rw [if_neg (by simp), blocked_verdict hsized hservice hsecond]
              exact .blocked (by rw [Passable_first rest hfits, hsecond, Bool.false_and])

theorem Moves.after {stream taken rest : List Packet} {fate : Fate}
    (split : stream = taken ++ rest) (some : taken ≠ []) (same : Passable stream = Passable rest)
    (h : Moves rest fate) : Moves stream fate := by
  cases h with
  | waits clear => exact .waits (same.trans clear)
  | @again slots taken' rest' split' _ same' =>
      have hsplit : stream = (taken ++ taken') ++ rest' := by
        rw [split, split', List.append_assoc]
      exact .again hsplit (by simp [some]) (same.trans same')
  | @returned ret b taken' rest' split' _ same' =>
      have hsplit : stream = (taken ++ taken') ++ rest' := by
        rw [split, split', List.append_assoc]
      exact .returned hsplit (by simp [some]) (same.trans same')
  | blocked => exact .returned split some same
  | torn stuck => exact .torn (same.trans stuck)

/-- With more turns than packets a call ends. -/
theorem turnsPackets_moves {n : Nat} (slots : Slots) {stream : List Packet}
    (hn : stream.length < n) : Moves stream (turnsPackets l n slots stream) ∧
      ∀ slots' rest, turnsPackets l n slots stream ≠ .again slots' rest := by
  induction n generalizing slots stream with
  | zero => exact absurd hn (Nat.not_lt_zero _)
  | succ n ih =>
      have hturn := turnPackets_moves (l := l) slots stream
      rw [turnsPackets]
      cases hfate : turnPackets l slots stream with
      | again slots' rest =>
          rw [hfate] at hturn
          cases hturn with
          | @again _ taken _ split some same =>
              have hpos := List.length_pos_iff.mpr some
              have hshorter : rest.length < n := by
                rw [split, List.length_append] at hn
                omega
              obtain ⟨hmoves, hends⟩ := ih slots' hshorter
              exact ⟨hmoves.after split some same, hends⟩
      | waits =>
          rw [hfate] at hturn
          exact ⟨hturn, by simp⟩
      | returned =>
          rw [hfate] at hturn
          exact ⟨hturn, by simp⟩
      | torn =>
          rw [hfate] at hturn
          exact ⟨hturn, by simp⟩

theorem receivePackets_moves (l : Listener) (stream : List Packet) :
    Moves stream (receivePackets l stream) ∧
      ∀ slots rest, receivePackets l stream ≠ .again slots rest :=
  turnsPackets_moves _ (Nat.lt_succ_self _)

/-- A stream that drains has its next call wait, or return with less of it. -/
theorem Drains.next {stream : List Packet} (h : Drains l stream) :
    receivePackets l stream = .waits ∨ ∃ ret b taken rest, taken ≠ [] ∧ stream = taken ++ rest ∧
      receivePackets l stream = .returned ret b rest ∧ Drains l rest := by
  cases h with
  | waits call => exact .inl call
  | returns call split some others => exact .inr ⟨_, _, _, _, some, split, call, others⟩

/-- **Progress.** On any stream of packets, for any reader: every call that returns has
taken a packet off, and the calls come to the end of the stream, exactly when the stream
is passable. -/
theorem drains_iff_passable (l : Listener) (stream : List Packet) :
    Drains l stream ↔ Passable stream = true := by
  induction hlength : stream.length using Nat.strong_induction_on generalizing stream with
  | _ length ih =>
      obtain ⟨hmoves, hends⟩ := receivePackets_moves l stream
      have hnext : Drains l stream → _ := Drains.next
      generalize hfate : receivePackets l stream = fate at hmoves hends hnext
      cases hmoves with
      | again => exact absurd rfl (hends _ _)
      | waits clear => exact ⟨fun _ => clear, fun _ => .waits hfate⟩
      | torn stuck =>
          rw [stuck]
          refine ⟨fun h => ?_, fun h => nomatch h⟩
          obtain hwaits | ⟨_, _, _, _, -, -, hreturns, -⟩ := hnext h
          · cases hwaits
          · cases hreturns
      | blocked stuck =>
          rw [stuck]
          refine ⟨fun h => ?_, fun h => nomatch h⟩
          obtain hwaits | ⟨_, _, taken, _, some, split, hreturns, -⟩ := hnext h
          · cases hwaits
          · cases hreturns
            exact absurd (List.self_eq_append_left.mp split) some
      | @returned ret b taken rest split some same =>
          have hpos := List.length_pos_iff.mpr some
          have hshorter : rest.length < length := by
            rw [← hlength, split, List.length_append]
            omega
          rw [same, ← ih rest.length hshorter rest rfl]
          refine ⟨fun h => ?_, fun others => .returns hfate split some others⟩
          obtain hwaits | ⟨_, _, _, _, -, -, hreturns, others⟩ := hnext h
          · cases hwaits
          · cases hreturns
            exact others

/-- A member of a group that drops membership messages. -/
def crowdReader : Listener :=
  { privateGroup := [35, 97], connectionName := [35, 97], dropEcho := false
    dropMembership := true }

/-- A membership message of the group when it has 101 members. -/
def crowd : Packet :=
  .native { type := regMembMess, oldType := 0, sender := [103]
            groups := List.replicate 101 [35, 97], messType := 0, body := [0] }

/-- Every call returns with the message still at the head. -/
theorem receiver_blocked : ¬ ∀ (l : Listener) (stream : List Packet), Drains l stream := by
  intro hall
  obtain hwaits | ⟨_, _, taken, _, some, split, hreturns, -⟩ := (hall crowdReader [crowd]).next
  · cases hwaits
  · have hstays : ∃ b, receivePackets crowdReader [crowd] = .returned groupsTooShort b [crowd] :=
      ⟨_, rfl⟩
    obtain ⟨b, hstays⟩ := hstays
    cases hstays.symm.trans hreturns
    exact some (List.self_eq_append_left.mp split)

end Netbroker
