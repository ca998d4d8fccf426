import Netbroker.Connector.Receive

/-!
# One turn of `receiveFromGroup`

A frame with a body takes its turn alone: the first call peeks at it and the second
one takes it. A frame without a body is taken by the first call already, so the
second call meets the next frame: it takes that one too, body cut off, or peeks at
it, and either way the slots mix the two frames.

`reply` is the verdict on a turn whose second call has not failed. What a turn makes of the
next frames follows from it, `turn_full` for a frame with a body and `turn_empty` for one
without. `poses` tells in advance whether the header that a second call leaves reads as a halt
message.
-/

namespace Netbroker

open Spread

/-- The opcode of a frame for this reader. -/
def Listener.opCode (l : Listener) (f : Frame) : BitVec 16 :=
  opCodeOf l.privateGroup maxGroupArraySize f

/-- `b` carries the body, its length, the opcode, the sender and the first group of `f`. -/
structure Carries (l : Listener) (b : Buffer) (f : Frame) : Prop where
  data : b.data = f.body
  size : b.size = f.body.length
  opCode : b.opCode = l.opCode f
  sender : b.sender = f.sender
  groupName : b.groupName = f.groupName

/-- The frames of a Spread session: at most as many groups as the array holds, and
a first group with a name for a data message. -/
structure Regular (f : Frame) : Prop where
  groups : f.groups.length ≤ maxGroupArraySize
  named : isMembershipMess f.type = false → f.groupName ≠ []

variable (l : Listener)

/-- The frames that the drop flags discard: membership messages, and echoes of the
connection's own messages, its halt message apart. -/
def discards (f : Frame) : Bool :=
  if isMembershipMess f.type then l.dropMembership
  else l.connectionName = f.sender && l.opCode f ≠ sigHaltMsg && l.dropEcho

/-- A data message that the drop flags do not discard. -/
def wanted (f : Frame) : Bool :=
  !isMembershipMess f.type && !discards l f

/-- The opcode that a peek at a frame reports. -/
def peekedOpCode (f : Frame) : BitVec 16 := if carriesOpCode f then f.messType else 0

/-- After the empty `f`, the second call takes `g` too: `g` fits an empty buffer, or
the service type left behind by `f` asks for truncation. -/
def takesBoth (f g : Frame) : Bool := isDropRecv (serviceOf f) || g.body = []

/-- After the empty `f`, the header of the peeked `g` ends the call with a value `≥ 0`. -/
def returnsOnPeek (f g : Frame) : Bool :=
  if isMembershipMess g.type then !l.dropMembership
  else l.connectionName = g.sender &&
    if peekedOpCode g = sigHaltMsg then f.groupName ≠ [] else !l.dropEcho

/-- The header of the peeked `g` happens to be that of `f`. -/
def twins (f g : Frame) : Bool :=
  f.sender = g.sender && peekedOpCode g = l.opCode f

theorem top_groupName (slots : Slots) : (Reading.top slots).slots.groupName = [] := by
  cases h : slots.groups <;> simp [Reading.top, Slots.groupName, h]

theorem top_not_dropRecv (slots : Slots) :
    isDropRecv (Reading.top slots).slots.service = false := by
  have hzero : (Reading.top slots).slots.service = 0 := rfl
  rw [hzero]
  decide

/-- Rejected frames keep the type's membership bits out of sight in both calls. -/
theorem isMembershipMess_serviceOf (f : Frame) :
    isMembershipMess (serviceOf f) = isMembershipMess f.type := by
  by_cases hreject : isRejectMess f.type
  · have hbit : isRejectMess (f.oldType ||| rejectMess) = true := by
      have hmask : (f.oldType ||| rejectMess) &&& rejectMess = rejectMess := by
        ext i
        simp
        grind
      rw [isRejectMess, hmask]
      decide
    simp [serviceOf, isMembershipMess, hreject, hbit]
  · simp [serviceOf, hreject]

/-- The group name after a frame: its first group, else what was there before. -/
theorem consume_groupName (privateGroup : Str) (maxLen : Nat) (slots : Slots) (mess : List UInt8)
    (f : Frame) : (consume privateGroup maxGroupArraySize maxLen slots mess f).slots.groupName =
      f.groups.headD slots.groupName := by
  cases h : f.groups <;> simp [consume, Slots.groupName, h]

/-- The verdict on a turn whose second call has not failed. -/
def reply (x : Reception) : Option Int :=
  if isMembershipMess x.slots.service then
    if l.dropMembership then none else some connMembershipMessage
  else if l.connectionName = x.slots.sender then
    if x.slots.messType = sigHaltMsg then if x.slots.groupName = [] then none else some 1
    else if l.dropEcho then none else some connEchoMessage
  else some x.ret

theorem verdict_eq_reply {l : Listener} {x : Reception} (h : 0 ≤ x.ret ∨ x.ret = bufferTooShort) :
    verdict l x = reply l x := by
  have herror : (decide (x.ret < 0) && decide (x.ret ≠ bufferTooShort)) = false := by
    rcases h with h | h <;> simp [h]
  simp only [verdict, herror, reply]
  by_cases hown : l.connectionName = x.slots.sender
  · by_cases hop : x.slots.messType = sigHaltMsg <;> cases l.dropEcho <;> simp [hown, hop]
  · simp [hown]

/-- The reply to a frame whose header is in the slots, first group included. -/
theorem reply_of_header {x : Reception} {f : Frame} (hf : Regular f)
    (hservice : isMembershipMess x.slots.service = isMembershipMess f.type)
    (hsender : x.slots.sender = f.sender) (hop : x.slots.messType = l.opCode f)
    (hgroup : f.groupName ≠ [] → x.slots.groupName ≠ []) :
    (discards l f = true ∧ reply l x = none) ∨
      (discards l f = false ∧ ∃ ret, reply l x = some ret ∧
        (0 ≤ ret ∨ ret = x.ret ∧ wanted l f = true)) := by
  rw [wanted, reply, discards]
  rw [hservice, hsender, hop]
  by_cases hmemb : isMembershipMess f.type
  · cases l.dropMembership <;> simp [hmemb]
  · have hnamed := hgroup (hf.named (by simpa using hmemb))
    by_cases hown : l.connectionName = f.sender
    · by_cases hhalt : l.opCode f = sigHaltMsg
      · simp [hmemb, ← hown, hhalt, hnamed]
      · cases l.dropEcho <;> simp [hmemb, ← hown, hhalt]
    · simp [hmemb, hown]

/-- A frame with a body is taken by the second call of its turn, all by itself. -/
theorem turn_full (slots : Slots) {f : Frame} (rest : List Frame) (hf : Regular f)
    (hbody : f.body ≠ []) :
    (discards l f = true ∧ ∃ slots', turn l slots (f :: rest) = .again slots' rest) ∨
      (discards l f = false ∧ ∃ ret b, turn l slots (f :: rest) = .returned ret b rest ∧
        0 ≤ ret ∧ Carries l b f) := by
  have hlength : 0 < f.body.length := List.length_pos_iff.mpr hbody
  -- the first call leaves the frame and learns its size
  have hfirst : (Reading.top slots).receive l.privateGroup f =
      peek maxGroupArraySize 0 (Reading.top slots).slots [0] f :=
    receive_peek (top_not_dropRecv slots) hlength
  generalize hx : consume l.privateGroup maxGroupArraySize f.body.length
    (peek maxGroupArraySize 0 (Reading.top slots).slots [0] f).slots
    (List.replicate f.body.length 0) f = x
  have hsecond : Reading.receive l.privateGroup
      { phase := .second, slots := ((Reading.top slots).receive l.privateGroup f).slots } f =
        x := by
    have hlen : Reading.maxLen
        { phase := .second, slots := ((Reading.top slots).receive l.privateGroup f).slots } =
          f.body.length := by
      simp [Reading.maxLen, hfirst, peek, hlength]
    rw [Reading.receive, Reading.mess, hlen, hfirst]
    exact (receive_consume hf.groups le_rfl).trans hx
  have hret : x.ret = f.body.length := by simp [← hx, consume]
  have hservice : isMembershipMess x.slots.service = isMembershipMess f.type := by
    simp [← hx, consume, isMembershipMess_serviceOf]
  have hsender : x.slots.sender = f.sender := by simp [← hx, consume]
  have hop : x.slots.messType = l.opCode f := by rw [← hx]; rfl
  have hgroup : x.slots.groupName = f.groupName := by
    rw [← hx, consume_groupName]
    have hkept : (peek maxGroupArraySize 0 (Reading.top slots).slots [0] f).slots.groupName = [] :=
      top_groupName slots
    rw [hkept, Frame.groupName]
  have hcarries : Carries l (filledBuffer x) f :=
    ⟨by simp [filledBuffer, ← hx, consume], by simp [filledBuffer, Buffer.size, ← hx, consume],
      hop, hsender, hgroup⟩
  have hturn : turn l slots (f :: rest) = settle x rest (reply l x) := by
    have hkept : ((Reading.top slots).receive l.privateGroup f).consumed = false := by
      rw [hfirst]
      rfl
    have htaken : x.consumed = true := by rw [← hx]; rfl
    simp only [turn, hkept, Bool.false_eq_true, if_false, secondCall, hsecond, htaken, if_true]
    rw [verdict_eq_reply (Or.inl (by rw [hret]; omega))]
  rw [hturn]
  obtain ⟨hdiscards, hnone⟩ | ⟨hkeeps, ret, hsome, hret'⟩ :=
    reply_of_header l hf hservice hsender hop (by rw [hgroup]; exact id)
  · exact .inl ⟨hdiscards, x.slots, by rw [hnone, settle_none]⟩
  · refine .inr ⟨hkeeps, ret, filledBuffer x, by rw [hsome, settle_some], ?_, hcarries⟩
    rcases hret' with h | ⟨h, -⟩ <;> omega

/-- A frame without a body is taken by the first call, which leaves its header in the
slots and an empty buffer for the second call. -/
theorem turn_empty (slots : Slots) {f : Frame} (rest : List Frame) (hf : Regular f)
    (hbody : f.body = []) : ∃ left : Slots,
      left.service = serviceOf f ∧ left.sender = f.sender ∧ left.groupName = f.groupName ∧
        (∀ g, Reading.receive l.privateGroup { phase := .second, slots := left } g =
          Spread.receive l.privateGroup maxGroupArraySize 0 left [] g) ∧
        turn l slots (f :: rest) = secondCall l { phase := .second, slots := left } rest := by
  have hfirst : (Reading.top slots).receive l.privateGroup f =
      consume l.privateGroup maxGroupArraySize 0 (Reading.top slots).slots [0] f :=
    receive_consume hf.groups (by simp [hbody])
  refine ⟨(consume l.privateGroup maxGroupArraySize 0 (Reading.top slots).slots [0] f).slots,
    rfl, rfl, ?_, fun g => rfl, ?_⟩
  · rw [consume_groupName, top_groupName, Frame.groupName]
  · simp only [turn, hfirst]
    rfl

/-- After an empty frame the second call may take the next one, body cut off. -/
theorem turn_takes (slots : Slots) {f g : Frame} (rest : List Frame) (hf : Regular f)
    (hg : Regular g) (hbody : f.body = []) (htakes : takesBoth f g = true) :
    (discards l g = true ∧ ∃ slots', turn l slots (f :: g :: rest) = .again slots' rest) ∨
      (discards l g = false ∧ ∃ ret b, turn l slots (f :: g :: rest) = .returned ret b rest ∧
        (0 ≤ ret ∨ wanted l g = true) ∧
        (0 ≤ ret ∧ Carries l b g ↔ g.body = [] ∧ (g.groups ≠ [] ∨ f.groupName = []))) := by
  obtain ⟨left, hservice, -, hgroup, hcall, hturn⟩ := turn_empty l slots (g :: rest) hf hbody
  generalize hx : consume l.privateGroup maxGroupArraySize 0 left [] g = x
  have hsecond : Reading.receive l.privateGroup { phase := .second, slots := left } g = x := by
    rw [hcall, ← hx]
    simp only [takesBoth, Bool.or_eq_true, decide_eq_true_eq] at htakes
    rcases htakes with hdrop | hnobody
    · exact receive_drop (by rw [hservice]; exact hdrop)
    · exact receive_consume hg.groups (by simp [hnobody])
  have hret : x.ret = if 0 < g.body.length then bufferTooShort else g.body.length := by
    rw [← hx]; rfl
  have hname : x.slots.groupName = g.groups.headD f.groupName := by
    rw [← hx, consume_groupName, hgroup]
  have hreply : turn l slots (f :: g :: rest) = settle x rest (reply l x) := by
    have htaken : x.consumed = true := by rw [← hx]; rfl
    rw [hturn, secondCall, hsecond, htaken, if_pos rfl, verdict_eq_reply]
    rw [hret]
    split
    · exact .inr rfl
    · exact .inl (by omega)
  have hcarries : Carries l (filledBuffer x) g ↔
      g.body = [] ∧ (g.groups ≠ [] ∨ f.groupName = []) := by
    have hdata : (filledBuffer x).data = [] := by simp [filledBuffer, ← hx, consume]
    constructor
    · intro h
      refine ⟨by rw [← h.data, hdata], ?_⟩
      have hsame : g.groups.headD f.groupName = g.groupName := hname.symm.trans h.groupName
      cases hgroups : g.groups with
      | nil => exact .inr (by simpa [hgroups, Frame.groupName] using hsame)
      | cons => exact .inl (by simp)
    · rintro ⟨hnobody, hgroups⟩
      have hsize : (filledBuffer x).size = g.body.length := by simp [Buffer.size, hdata, hnobody]
      have hfirst : (filledBuffer x).groupName = g.groupName := by
        refine hname.trans ?_
        cases h : g.groups with
        | nil => simpa [h, Frame.groupName] using hgroups
        | cons => simp [h, Frame.groupName]
      exact ⟨by rw [hdata, hnobody], hsize, by rw [← hx]; rfl, by rw [← hx]; rfl, hfirst⟩
  rw [hreply]
  obtain ⟨hdiscards, hnone⟩ | ⟨hkeeps, ret, hsome, hret'⟩ :=
    reply_of_header l (x := x) hg (by rw [← hx]; exact isMembershipMess_serviceOf g)
      (by rw [← hx]; rfl) (by rw [← hx]; rfl)
      (by rw [hname]; cases h : g.groups <;> simp [h, Frame.groupName])
  · exact .inl ⟨hdiscards, x.slots, by rw [hnone, settle_none]⟩
  · refine .inr ⟨hkeeps, ret, filledBuffer x, by rw [hsome, settle_some], ?_, ?_⟩
    · exact hret'.imp_right And.right
    · rw [hcarries]
      refine and_iff_right_of_imp ?_
      rintro ⟨hnobody, -⟩
      rcases hret' with h | ⟨h, -⟩
      · exact h
      · simp [h, hret, hnobody]

/-- After an empty frame the second call may peek at the next one and leave it. -/
theorem turn_peeks (slots : Slots) {f g : Frame} (rest : List Frame) (hf : Regular f)
    (hg : Regular g) (hbody : f.body = []) (htakes : takesBoth f g = false) :
    (returnsOnPeek l f g = false ∧ ∃ slots',
        turn l slots (f :: g :: rest) = .again slots' (g :: rest)) ∨
      ∃ ret b, turn l slots (f :: g :: rest) = .returned ret b (g :: rest) ∧
        (returnsOnPeek l f g = true ∧ 0 ≤ ret ∧ (Carries l b f ↔ twins l f g = true) ∨
          returnsOnPeek l f g = false ∧ ret < 0) := by
  obtain ⟨left, hservice, -, hgroup, hcall, hturn⟩ := turn_empty l slots (g :: rest) hf hbody
  simp only [takesBoth, Bool.or_eq_false_iff, decide_eq_false_iff_not] at htakes
  generalize hx : peek maxGroupArraySize 0 left [] g = x
  have hsecond : Reading.receive l.privateGroup { phase := .second, slots := left } g = x := by
    rw [hcall, ← hx]
    exact receive_peek (by rw [hservice]; exact htakes.1) (List.length_pos_iff.mpr htakes.2)
  have hret : x.ret = bufferTooShort := by
    rw [← hx, peek, if_neg (Nat.not_lt.mpr hg.groups)]
  have hname : x.slots.groupName = f.groupName := by rw [← hx, ← hgroup]; rfl
  have hservice : x.slots.service = g.type := by rw [← hx]; rfl
  have hsender : x.slots.sender = g.sender := by rw [← hx]; rfl
  have hop : x.slots.messType = peekedOpCode g := by rw [← hx]; rfl
  have hreply : turn l slots (f :: g :: rest) = settle x (g :: rest) (reply l x) := by
    have hkept : x.consumed = false := by rw [← hx]; rfl
    rw [hturn, secondCall, hsecond, hkept, if_neg (by simp), verdict_eq_reply (.inr hret)]
  have hcarries : Carries l (filledBuffer x) f ↔ twins l f g = true := by
    have hdata : (filledBuffer x).data = [] := by rw [← hx]; rfl
    have htwins : twins l f g = true ↔ x.slots.sender = f.sender ∧
        x.slots.messType = l.opCode f := by
      rw [hsender, hop, eq_comm (a := g.sender)]
      simp [twins]
    rw [htwins]
    constructor
    · exact fun h => ⟨h.sender, h.opCode⟩
    · exact fun h => ⟨by rw [hdata, hbody], by simp [Buffer.size, hdata, hbody], h.2, h.1, hname⟩
  rw [hreply]
  rw [reply, returnsOnPeek] at *
  rw [hservice, hsender, hop, hname, hret]
  by_cases hmemb : isMembershipMess g.type
  · cases l.dropMembership <;> simp [hmemb, hcarries]
  · by_cases hown : l.connectionName = g.sender
    · by_cases hhalt : peekedOpCode g = sigHaltMsg
      · by_cases hempty : f.groupName = [] <;> simp [hmemb, hown, hhalt, hempty, hcarries]
      · cases l.dropEcho <;> simp [hmemb, hown, hhalt, hcarries]
    · simp [hmemb, hown]

theorem turn_empty_last (slots : Slots) {f : Frame} (hf : Regular f) (hbody : f.body = []) :
    turn l slots [f] = .waits := by
  obtain ⟨left, -, -, -, -, hturn⟩ := turn_empty l slots [] hf hbody
  exact hturn

/-- A failed call ends `receiveFromGroup` with its code. -/
theorem verdict_failed (l : Listener) {x : Reception} (hx : x.ret < 0 ∧ x.ret ≠ bufferTooShort) :
    verdict l x = some x.ret := by
  have hfails : (decide (x.ret < 0) && decide (x.ret ≠ bufferTooShort)) = true := by
    rw [Bool.and_eq_true]
    exact ⟨decide_eq_true hx.1, decide_eq_true hx.2⟩
  rw [verdict, if_pos hfails]

/-- The slots have the header of a halt message. -/
def Spread.Slots.saysHalt (slots : Slots) (controlGroup : Str) : Bool :=
  slots.messType = sigHaltMsg && slots.groupName = controlGroup

/-- The frame makes the second call leave the header of a halt message. -/
def Reading.poses (r : Reading) (privateGroup controlGroup : Str) (f : Frame) : Bool :=
  if isDropRecv r.slots.service ||
      decide (f.groups.length ≤ maxGroupArraySize) && decide (f.body.length ≤ r.maxLen) then
    opCodeOf privateGroup maxGroupArraySize f = sigHaltMsg &&
      f.groups.headD r.slots.groupName = controlGroup
  else peekedOpCode f = sigHaltMsg && r.slots.groupName = controlGroup

theorem poses_iff {r : Reading} {privateGroup controlGroup : Str} {f : Frame} :
    r.poses privateGroup controlGroup f = true ↔
      (r.receive privateGroup f).slots.saysHalt controlGroup = true := by
  rw [Reading.poses, Slots.saysHalt, Reading.receive, Spread.receive]
  by_cases htakes : (isDropRecv r.slots.service ||
      decide (f.groups.length ≤ maxGroupArraySize) && decide (f.body.length ≤ r.maxLen)) = true
  · have hfits : (!isDropRecv r.slots.service && (decide (maxGroupArraySize < f.groups.length) ||
        decide (r.maxLen < f.body.length))) = false := by
      cases hdrop : isDropRecv r.slots.service <;> simp_all
    rw [if_pos htakes, hfits, if_neg Bool.false_ne_true, consume_groupName]
    simp [consume]
  · have hlarge : (!isDropRecv r.slots.service && (decide (maxGroupArraySize < f.groups.length) ||
        decide (r.maxLen < f.body.length))) = true := by
      cases hdrop : isDropRecv r.slots.service <;> simp_all
      grind
    rw [if_neg htakes, hlarge, if_pos rfl]
    simp [peek, peekedOpCode, Slots.groupName]

end Netbroker
