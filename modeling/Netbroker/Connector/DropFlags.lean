import Netbroker.Connector.Fidelity
import Netbroker.Connector.Progress

/-!
# The drop flags

The loop of `receiveFromGroup` goes on while `echoMessage` is 0, and a `continue` for a
membership message looks at the value that an earlier turn has left. It is 0 at the top
of every turn, so a dropped message always makes another turn, and a value `≥ 0` is
about the frame that the second call of the last turn has read.

A call that has discarded the first byte of a packet leaves the session out of step. What
follows is cut into headers where no packet begins, and `misread` stands for it: whatever
these bytes are taken for, packets or headers that `SP_receive` refuses, the flags are
honoured on it too.
-/

namespace Netbroker

open Spread

/-- `strcmp`, as far as the loop can tell. -/
def strcmp (s t : Str) : Int := if s = t then 0 else 1

/-- The condition of the loop: `none` is another turn. -/
def loopEnd (echoMessage ret : Int) : Option Int × Int :=
  (if echoMessage = 0 then none else some ret, echoMessage)

/-- The code behind the second call, with what it leaves in `echoMessage`. -/
def verdictFrom (l : Listener) (echoMessage : Int) (x : Reception) : Option Int × Int :=
  if x.ret < 0 && x.ret ≠ bufferTooShort then (some x.ret, echoMessage)
  else if isMembershipMess x.slots.service then
    if l.dropMembership then loopEnd echoMessage x.ret
    else (some connMembershipMessage, echoMessage)
  else
    let echoMessage := strcmp l.connectionName x.slots.sender
    if x.slots.messType = sigHaltMsg && decide (echoMessage = 0) then
      if x.slots.groupName = [] then loopEnd echoMessage x.ret else (some 1, echoMessage)
    else if decide (echoMessage = 0) && !l.dropEcho then (some connEchoMessage, echoMessage)
    else loopEnd echoMessage x.ret

abbrev illegalMessage : Int := -13

/-- What `SP_receive` finds at the head of the session: a packet, or, out of step, a header
with a negative count of groups or bytes. -/
inductive Head where
  | packet (p : Packet)
  | illegal
  deriving DecidableEq, Repr

/-- The next call of `SP_receive`. A header that it refuses is lost, and nothing is written. -/
def Reading.receiveHead (privateGroup : Str) (r : Reading) : Head → Reception
  | .packet p => r.receivePacket privateGroup p
  | .illegal => { r.failed illegalMessage with consumed := true }

/-- How a call of `receiveFromGroup`, or a turn of its loop, ends on a session. -/
inductive Course where
  | waits
  | again (slots : Slots) (rest : List Head)
  | returned (ret : Int) (b : Buffer) (rest : List Head)
  deriving DecidableEq, Repr

def Course.settle (x : Reception) (rest : List Head) : Option Int → Course
  | some ret => .returned ret (filledBuffer x) rest
  | none => .again x.slots rest

/-- The second call of a turn, with `echoMessage` ahead of it and behind it. -/
def secondFrom (l : Listener) (misread : List Head → List Head) (echoMessage : Int)
    (r : Reading) : List Head → Course × Int
  | [] => (.waits, echoMessage)
  | head :: rest =>
      let x := r.receiveHead l.privateGroup head
      let decided := verdictFrom l echoMessage x
      if head ≠ .illegal && r.tears then
        if rest = [] then (.waits, echoMessage)
        else (.settle x (misread rest) decided.1, decided.2)
      else (.settle x (if x.consumed then rest else head :: rest) decided.1, decided.2)

/-- One turn of the loop, with `echoMessage` ahead of it and behind it. -/
def turnFrom (l : Listener) (misread : List Head → List Head) (echoMessage : Int)
    (slots : Slots) : List Head → Course × Int
  | [] => (.waits, echoMessage)
  | head :: rest =>
      let x := (Reading.top slots).receiveHead l.privateGroup head
      secondFrom l misread echoMessage { phase := .second, slots := x.slots }
        (if x.consumed then rest else head :: rest)

/-- At most `n` turns of the loop. -/
def turnsFrom (l : Listener) (misread : List Head → List Head) :
    Nat → Int → Slots → List Head → Course
  | 0, _, slots, stream => .again slots stream
  | n + 1, echoMessage, slots, stream =>
      match turnFrom l misread echoMessage slots stream with
      | (.again slots rest, echoMessage) => turnsFrom l misread n echoMessage slots rest
      | (course, _) => course

variable {l : Listener}

/-- What the code decides with `echoMessage` at 0, which is where it stays for another turn. -/
theorem verdictFrom_zero (x : Reception) :
    (verdictFrom l 0 x).1 = verdict l x ∧ (verdict l x = none → (verdictFrom l 0 x).2 = 0) := by
  unfold verdictFrom verdict strcmp loopEnd
  dsimp only
  by_cases hown : l.connectionName = x.slots.sender
  · simp only [hown, if_true, decide_true, Bool.and_true, Bool.true_and]
    grind
  · simp only [hown, if_false, decide_false, Bool.and_false, Bool.false_and]
    grind

/-- The end of a turn with `echoMessage` at 0. -/
theorem settle_zero (x : Reception) (rest : List Head) :
    Course.settle x rest (verdictFrom l 0 x).1 = .settle x rest (verdict l x) ∧
      ∀ slots rest', Course.settle x rest (verdict l x) = .again slots rest' →
        (verdictFrom l 0 x).2 = 0 := by
  obtain ⟨hverdict, hzero⟩ := verdictFrom_zero (l := l) x
  refine ⟨by rw [hverdict], fun slots rest' hagain => hzero ?_⟩
  cases hnone : verdict l x with
  | none => rfl
  | some ret =>
      rw [hnone] at hagain
      cases hagain

/-- The head that the second call of a turn finds. -/
def secondOf (l : Listener) (slots : Slots) : List Head → Option Head
  | [] => none
  | head :: rest =>
      if ((Reading.top slots).receiveHead l.privateGroup head).consumed then rest.head?
      else some head

/-- The head that the second call of the last turn finds. -/
def lastRead (l : Listener) (misread : List Head → List Head) :
    Nat → Int → Slots → List Head → Option Head
  | 0, _, _, _ => none
  | n + 1, echoMessage, slots, stream =>
      match turnFrom l misread echoMessage slots stream with
      | (.again slots rest, echoMessage) => lastRead l misread n echoMessage slots rest
      | _ => secondOf l slots stream

/-- What the returned value says about the frame that was read last, whose sender the
buffer names. -/
structure Honours (l : Listener) (f : Frame) (ret : Int) (b : Buffer) : Prop where
  sender : b.sender = f.sender
  membership : isMembershipMess f.type = true →
    l.dropMembership = false ∧ ret = connMembershipMessage
  echo : isMembershipMess f.type = false → f.sender = l.connectionName →
    (carriesOpCode f = true ∧ f.messType = sigHaltMsg ∧ b.groupName ≠ [] ∧ ret = 1) ∨
      (l.dropEcho = false ∧ ret = connEchoMessage)

/-- A consumed frame without an opcode of its own has an index for one, or -1. -/
theorem opCodeOf_halt {privateGroup : Str} {f : Frame}
    (h : opCodeOf privateGroup maxGroupArraySize f = sigHaltMsg) :
    carriesOpCode f = true ∧ f.messType = sigHaltMsg := by
  have hhint : (if carriesOpCode f then f.messType else -1) = sigHaltMsg →
      carriesOpCode f = true ∧ f.messType = sigHaltMsg := by
    intro hhint
    split at hhint
    · exact ⟨‹_›, hhint⟩
    · exact absurd hhint (by decide)
  simp only [opCodeOf] at h
  split at h
  · rename_i hmember
    split at h
    · rename_i i hindex
      have hlt : i < f.groups.length := (List.findIdx?_eq_some_iff_getElem.mp hindex).1
      simp only [Bool.and_eq_true, decide_eq_true_eq] at hmember
      have hnat := congrArg BitVec.toNat h
      have hmax : f.groups.length ≤ 100 := hmember.2
      have hhalt : sigHaltMsg.toNat = 1212 := by decide
      rw [BitVec.toNat_ofNat, hhalt] at hnat
      omega
    · exact hhint h
  · exact hhint h

/-- Both ways of reading a frame fill in its sender, whether it is a membership message,
and the halt opcode only where the frame carries it. -/
structure Header (f : Frame) (slots : Slots) : Prop where
  membership : isMembershipMess slots.service = isMembershipMess f.type
  sender : slots.sender = f.sender
  halt : slots.messType = sigHaltMsg → carriesOpCode f = true ∧ f.messType = sigHaltMsg

theorem peek_header (maxLen : Nat) (slots : Slots) (mess : List UInt8) (f : Frame) :
    Header f (peek maxGroupArraySize maxLen slots mess f).slots where
  membership := rfl
  sender := rfl
  halt hhalt := by
    simp only [peek] at hhalt
    split at hhalt
    · exact ⟨‹_›, hhalt⟩
    · exact absurd hhalt (by decide)

theorem consume_header (privateGroup : Str) (maxLen : Nat) (slots : Slots) (mess : List UInt8)
    (f : Frame) : Header f (consume privateGroup maxGroupArraySize maxLen slots mess f).slots where
  membership := isMembershipMess_serviceOf f
  sender := rfl
  halt := opCodeOf_halt

/-- So does a call with any size. A sender's byte order shows in `endian_mismatch` alone. -/
theorem receivePacket_header (privateGroup : Str) (r : Reading) (p : Packet) :
    Header p.frame (r.receivePacket privateGroup p).slots := by
  have hread : Header p.frame (if r.offersNegative then r.receiveNegative privateGroup p.frame
      else r.receive privateGroup p.frame).slots := by
    split
    · rw [Reading.receiveNegative]
      split
      · exact consume_header privateGroup 0 r.slots r.mess p.frame
      · exact peek_header ..
    · rw [Reading.receive, Spread.receive]
      split
      · exact peek_header ..
      · exact consume_header ..
  simp only [Reading.receivePacket]
  generalize (if r.offersNegative then r.receiveNegative privateGroup p.frame
    else r.receive privateGroup p.frame) = x at hread ⊢
  split
  · exact ⟨hread.membership, hread.sender, hread.halt⟩
  · exact hread

/-- A value `≥ 0` by the slots of the second call. -/
theorem verdict_nonneg {x : Reception} {ret : Int} (h : verdict l x = some ret) (hret : 0 ≤ ret) :
    (isMembershipMess x.slots.service = true →
        l.dropMembership = false ∧ ret = connMembershipMessage) ∧
      (isMembershipMess x.slots.service = false → x.slots.sender = l.connectionName →
        (x.slots.messType = sigHaltMsg ∧ x.slots.groupName ≠ [] ∧ ret = 1) ∨
          (l.dropEcho = false ∧ ret = connEchoMessage)) := by
  have hread : 0 ≤ x.ret ∨ x.ret = bufferTooShort := by
    by_contra herror
    have hfailed : verdict l x = some x.ret := if_pos (by simp; omega)
    obtain rfl : x.ret = ret := Option.some.inj (hfailed.symm.trans h)
    exact herror (.inl hret)
  rw [verdict_eq_reply hread] at h
  rw [reply] at h
  constructor
  · intro hmember
    rw [if_pos hmember] at h
    split at h
    · cases h
    · exact ⟨by simpa using ‹¬ l.dropMembership = true›, (Option.some.inj h).symm⟩
  · intro hdata hown
    rw [if_neg (by simp [hdata]), if_pos hown.symm] at h
    split at h
    · rename_i hhalt
      split at h
      · cases h
      · exact .inl ⟨hhalt, ‹_›, (Option.some.inj h).symm⟩
    · split at h
      · cases h
      · exact .inr ⟨by simpa using ‹¬ l.dropEcho = true›, (Option.some.inj h).symm⟩

/-- The verdict on a packet honours the flags. -/
theorem verdict_honours {r : Reading} {p : Packet} {ret : Int}
    (h : verdict l (r.receivePacket l.privateGroup p) = some ret) (hret : 0 ≤ ret) :
    Honours l p.frame ret (filledBuffer (r.receivePacket l.privateGroup p)) := by
  obtain ⟨hmembership, hecho⟩ := verdict_nonneg h hret
  obtain ⟨hmemb, hsender, hhalt⟩ := receivePacket_header l.privateGroup r p
  refine ⟨hsender, fun hmember => hmembership (hmemb.trans hmember), fun hdata hown => ?_⟩
  obtain ⟨hop, hgroup, hone⟩ | hkept := hecho (hmemb.trans hdata) (hsender.trans hown)
  · obtain ⟨hcarries, hmess⟩ := hhalt hop
    exact .inl ⟨hcarries, hmess, hgroup, hone⟩
  · exact .inr hkept

/-- A refused header ends the call, and its value is no answer. -/
theorem verdict_illegal {r : Reading} {ret : Int}
    (h : verdict l (r.receiveHead l.privateGroup .illegal) = some ret) : ret < 0 := by
  obtain rfl : illegalMessage = ret := Option.some.inj h
  decide

/-- What a turn with `echoMessage` at 0 keeps and what it returns. -/
structure Kept (l : Listener) (head : Option Head) (turned : Course × Int) : Prop where
  echo : ∀ slots rest, turned.1 = .again slots rest → turned.2 = 0
  honours : ∀ ret b rest, turned.1 = .returned ret b rest → 0 ≤ ret →
    ∃ p, head = some (.packet p) ∧ Honours l p.frame ret b

theorem Kept.waits (l : Listener) (head : Option Head) (echoMessage : Int) :
    Kept l head (.waits, echoMessage) where
  echo := by simp
  honours := by simp

theorem Kept.settle (r : Reading) (head : Head) (rest : List Head) :
    Kept l (some head) (.settle (r.receiveHead l.privateGroup head) rest
        (verdictFrom l 0 (r.receiveHead l.privateGroup head)).1,
      (verdictFrom l 0 (r.receiveHead l.privateGroup head)).2) := by
  obtain ⟨hsettle, hzero⟩ := settle_zero (l := l) (r.receiveHead l.privateGroup head) rest
  rw [hsettle]
  refine ⟨hzero, fun ret b rest' hreturned hret => ?_⟩
  cases hverdict : verdict l (r.receiveHead l.privateGroup head) with
  | none =>
      rw [hverdict] at hreturned
      cases hreturned
  | some value =>
      rw [hverdict] at hreturned
      injection hreturned with hvalue hbuffer
      subst hvalue hbuffer
      cases head with
      | packet p => exact ⟨p, rfl, verdict_honours hverdict hret⟩
      | illegal => exact absurd hret (Int.not_le.mpr (verdict_illegal hverdict))

theorem secondFrom_kept (misread : List Head → List Head) (r : Reading) (stream : List Head) :
    Kept l stream.head? (secondFrom l misread 0 r stream) := by
  cases stream with
  | nil => exact .waits l none 0
  | cons head rest =>
      simp only [secondFrom]
      split
      · split
        · exact .waits l (some head) 0
        · exact .settle r head (misread rest)
      · exact .settle r head _

theorem turnFrom_kept (misread : List Head → List Head) (slots : Slots) (stream : List Head) :
    Kept l (secondOf l slots stream) (turnFrom l misread 0 slots stream) := by
  cases stream with
  | nil => exact .waits l none 0
  | cons head rest =>
      simp only [turnFrom, secondOf]
      split
      · exact secondFrom_kept misread _ rest
      · exact secondFrom_kept misread _ (head :: rest)

/-- The same outcome on the heads of a session. What follows a torn packet is not known. -/
def Fate.course : Fate → Course
  | .waits => .waits
  | .again slots rest => .again slots (rest.map .packet)
  | .returned ret b rest => .returned ret b (rest.map .packet)
  | .torn => .waits

theorem settle_course (x : Reception) (rest : List Packet) (answer : Option Int) :
    (Fate.settle x rest answer).course = .settle x (rest.map .packet) answer := by
  cases answer <;> rfl

theorem secondFrom_packets (misread : List Head → List Head) (r : Reading) (stream : List Packet)
    (h : secondPacket l r stream ≠ .torn) :
    (secondFrom l misread 0 r (stream.map .packet)).1 = (secondPacket l r stream).course := by
  cases stream with
  | nil => rfl
  | cons p rest =>
      rw [secondPacket] at h ⊢
      simp only [List.map_cons, secondFrom, Reading.receiveHead]
      cases htears : r.tears with
      | true =>
          rw [htears, if_pos rfl] at h
          cases rest with
          | nil => rfl
          | cons q others => exact absurd (if_neg (List.cons_ne_nil q others)) h
      | false =>
          rw [(verdictFrom_zero _).1]
          simp only [Bool.and_false, Bool.false_eq_true, if_false, settle_course,
            apply_ite (List.map Head.packet), List.map_cons]
          rfl

theorem turnFrom_packets (misread : List Head → List Head) (slots : Slots) (stream : List Packet)
    (h : turnPackets l slots stream ≠ .torn) :
    (turnFrom l misread 0 slots (stream.map .packet)).1 = (turnPackets l slots stream).course := by
  cases stream with
  | nil => rfl
  | cons p rest =>
      rw [turnPackets] at h ⊢
      rw [← secondFrom_packets misread _ _ h]
      simp only [List.map_cons, turnFrom, Reading.receiveHead,
        apply_ite (List.map Head.packet)]
      rfl

/-- In step the session is the stream of its packets. -/
theorem turnsFrom_packets (misread : List Head → List Head) (n : Nat) (slots : Slots)
    (stream : List Packet) (h : turnsPackets l n slots stream ≠ .torn) :
    turnsFrom l misread n 0 slots (stream.map .packet) = (turnsPackets l n slots stream).course := by
  induction n generalizing slots stream with
  | zero => rfl
  | succ n ih =>
      have hstep : turnPackets l slots stream ≠ .torn := by
        intro htorn
        rw [turnsPackets, htorn] at h
        exact h rfl
      have hfate := turnFrom_packets misread slots stream hstep
      have hzero := (turnFrom_kept (l := l) misread slots (stream.map .packet)).echo
      rw [turnsFrom, turnsPackets]
      rw [turnsPackets] at h
      generalize turnFrom l misread 0 slots (stream.map .packet) = turned at hfate hzero ⊢
      obtain ⟨course, echoMessage⟩ := turned
      cases hturn : turnPackets l slots stream with
      | again slots' rest =>
          rw [hturn] at h hfate
          obtain rfl : course = .again slots' (rest.map .packet) := hfate
          obtain rfl : echoMessage = 0 := hzero slots' _ rfl
          exact ih slots' rest h
      | waits =>
          rw [hturn] at hfate
          obtain rfl : course = .waits := hfate
          rfl
      | returned ret b rest =>
          rw [hturn] at hfate
          obtain rfl : course = .returned ret b (rest.map .packet) := hfate
          rfl
      | torn => exact absurd hturn hstep

/-- **The drop flags are honoured.** Whatever the session holds, in step or out of step, and
whatever the flags: a call that returns a value `≥ 0`, after any number of turns, has decided
it on the packet it read last. -/
theorem flags_honoured (l : Listener) (misread : List Head → List Head) (n : Nat) (slots : Slots)
    (stream : List Head) {ret : Int} {b : Buffer} {rest : List Head}
    (h : turnsFrom l misread n 0 slots stream = .returned ret b rest) (hret : 0 ≤ ret) :
    ∃ p, lastRead l misread n 0 slots stream = some (.packet p) ∧ Honours l p.frame ret b := by
  induction n generalizing slots stream with
  | zero => cases h
  | succ n ih =>
      have hkept := turnFrom_kept (l := l) misread slots stream
      rw [turnsFrom] at h
      rw [lastRead]
      generalize turnFrom l misread 0 slots stream = turned at h hkept ⊢
      obtain ⟨course, echoMessage⟩ := turned
      cases course with
      | again slots' left =>
          -- another turn finds `echoMessage` at 0 again
          obtain rfl : echoMessage = 0 := hkept.echo slots' left rfl
          exact ih slots' left h
      | waits => cases h
      | returned value buffer left =>
          obtain ⟨rfl, rfl, rfl⟩ := Course.returned.inj h
          exact hkept.honours _ _ _ rfl hret

/-- A membership message, and the connection's own message behind it. -/
def demoEcho : List Head :=
  [.packet (.native { demoFrame [0] with type := regMembMess }),
    .packet (.native { demoFrame [1] with sender := [35, 97, 98] })]

/-- The first one is dropped and the second one handed out. -/
theorem flags_honoured_echo :
    ∃ p, lastRead demoListener id 3 0 Reading.start.slots demoEcho = some (.packet p) ∧
      Honours demoListener p.frame connEchoMessage
        { data := [1], opCode := 7, groupName := [103], sender := [35, 97, 98]
          type := .default } := by
  have hreturned : turnsFrom demoListener id 3 0 Reading.start.slots demoEcho =
      .returned connEchoMessage { data := [1], opCode := 7, groupName := [103]
                                  sender := [35, 97, 98], type := .default } [] := by
    decide
  exact flags_honoured demoListener id 3 Reading.start.slots demoEcho hreturned (by decide)

end Netbroker
