import Mathlib.Tactic.SplitIfs
import Netbroker.Ring.Sending

/-!
# One turn of the token at a daemon

`takeTurn` on a daemon at rest and a token whose number is the top of the log ends without
an alarm, and what it leaves is said field by field: the packets created go to the end of
the log, what is sent again comes from the log, the token is set as `tokenAru` says, and
the daemon is at rest against the longer log.

What each part of a turn returns is shown by itself, in the order of `Prot_handle_token`:
retransmissions, flow control, sending, the token. `Turn` is what the turn as a whole leaves.
-/

namespace Netbroker.Ring

open Transition

namespace Daemon

variable {my : My} {log : List Packet} {d : Daemon}

/-- The numbers that the token asks the membership for. -/
def asked (my : My) (rtr : List RingRtr) : List Nat :=
  (rtr.filter fun r => r.membId = my.membId).flatMap RingRtr.reqSeqs

/-- What `Answer_retrans` has done when it has gone through the requests `qs`. -/
structure Answered (my : My) (log : List Packet) (d : Daemon) (qs : List Nat) (a a' : Answer) :
    Prop where
  resent : a'.resent.map Packet.seq =
    a.resent.map Packet.seq ++ qs.filter fun q => (d.slot q).isSome
  log : ∀ p ∈ a'.resent, p ∈ a.resent ∨ p ∈ log
  procId : a'.procId = if qs.all fun q => (d.slot q).isSome then a.procId else none

/-- A request between `Aru` and the top of the log is answered from its entry. -/
theorem answerSeq_returns {del : Nat} {early : List Packet} {q : Nat} (r : RingRtr) (a : Answer)
    (h : View log d.aru del early d) (hq : d.aru < q) (hq' : q ≤ log.length) :
    Returns (d.answerSeq my r a q) fun a' => Answered my log d [q] a a' ∧ a'.kept = a.kept := by
  have hwindow := h.window
  rw [answerSeq, if_neg (by omega)]
  cases hslot : d.slot q with
  | none =>
      refine .ok ⟨⟨?_, fun p hp => .inl hp, ?_⟩, rfl⟩
      · simp [hslot]
      · simp [hslot]
  | some info =>
      obtain ⟨hseq, -, hmem, -⟩ := h.slot_entry hslot hq (by omega)
      have hresent : ∀ p ∈ a.resent ++ [info.packet], p ∈ a.resent ∨ p ∈ log := by
        intro p hp
        rcases List.mem_append.mp hp with hp | hp
        · exact .inl hp
        · rw [List.mem_singleton.mp hp]
          exact .inr hmem
      simp only
      split
      · refine .ok ⟨⟨?_, hresent, ?_⟩, rfl⟩
        · simp [hslot, hseq]
        · simp [hslot]
      · refine .ok ⟨⟨?_, hresent, ?_⟩, rfl⟩
        · simp [hslot, hseq]
        · simp [hslot]

theorem Answered.trans {qs qs' : List Nat} {a a' a'' : Answer} (h : Answered my log d qs a a')
    (h' : Answered my log d qs' a' a'') : Answered my log d (qs ++ qs') a a'' where
  resent := by rw [h'.resent, h.resent, List.filter_append, List.append_assoc]
  log := by
    intro p hp
    rcases h'.log p hp with hp | hp
    · exact h.log p hp
    · exact .inr hp
  procId := by
    rw [h'.procId, h.procId, List.all_append]
    by_cases hfirst : (qs.all fun q => (d.slot q).isSome) = true
    · simp [hfirst]
    · simp [hfirst]

theorem Answered.refl (a : Answer) : Answered my log d [] a a :=
  ⟨by simp, fun _ hp => .inl hp, by simp⟩

theorem answerSeqs_returns {del : Nat} {early : List Packet} (r : RingRtr) (qs : List Nat)
    (a : Answer) (h : View log d.aru del early d)
    (hqs : ∀ q ∈ qs, d.aru < q ∧ q ≤ log.length) :
    Returns (qs.foldlM (d.answerSeq my r) a) fun a' =>
      Answered my log d qs a a' ∧ a'.kept = a.kept := by
  induction qs generalizing a with
  | nil => exact .pure ⟨.refl a, rfl⟩
  | cons q rest ih =>
      obtain ⟨hq, hq'⟩ := hqs q List.mem_cons_self
      rw [List.foldlM_cons]
      refine (answerSeq_returns r a h hq hq').bind ?_
      rintro a' ⟨hone, hkept⟩
      refine (ih a' fun q' hq' => hqs q' (List.mem_cons_of_mem _ hq')).mono ?_
      rintro a'' ⟨hrest, hkept'⟩
      exact ⟨hone.trans hrest, hkept'.trans hkept⟩

/-- The requests of other memberships stay on the token in their order, and those of the
own membership are answered in theirs. -/
theorem answerRtrs_returns {del : Nat} {early : List Packet} (rtr : List RingRtr) (a : Answer)
    (h : View log d.aru del early d)
    (hrtr : ∀ q ∈ asked my rtr, d.aru < q ∧ q ≤ log.length) :
    Returns (rtr.foldlM (d.answerRtr my) a) fun a' =>
      Answered my log d (asked my rtr) a a' ∧
        a'.kept = a.kept ++ rtr.filter fun r => r.membId ≠ my.membId := by
  induction rtr generalizing a with
  | nil => exact .pure ⟨.refl a, by simp⟩
  | cons r rest ih =>
      rw [List.foldlM_cons, answerRtr]
      by_cases hown : r.membId = my.membId
      · have hasked : asked my (r :: rest) = r.reqSeqs ++ asked my rest := by
          simp [asked, hown]
        rw [hasked] at hrtr ⊢
        rw [if_pos hown]
        refine (answerSeqs_returns r r.reqSeqs a h fun q hq =>
          hrtr q (List.mem_append_left _ hq)).bind ?_
        rintro a' ⟨hone, hkept⟩
        refine (ih a' fun q hq => hrtr q (List.mem_append_right _ hq)).mono ?_
        rintro a'' ⟨hrest, hkept'⟩
        refine ⟨hone.trans hrest, ?_⟩
        rw [hkept', hkept, List.filter_cons_of_neg (by simpa using hown)]
      · have hasked : asked my (r :: rest) = asked my rest := by simp [asked, hown]
        rw [hasked] at hrtr ⊢
        rw [if_neg hown]
        refine (ih { a with kept := a.kept ++ [r] } hrtr).mono ?_
        rintro a'' ⟨hrest, hkept⟩
        refine ⟨⟨hrest.resent, hrest.log, hrest.procId⟩, ?_⟩
        rw [hkept, List.filter_cons_of_pos (by simpa using hown)]
        simp

/-- `Answer_retrans` resends, of what the token asks for, exactly what is here, and keeps
the requests of other memberships. Its own requests go to the daemon itself only where
nobody else asked for a packet that is not here. -/
theorem answerRetrans_returns {del : Nat} {early : List Packet} {rtr : List RingRtr}
    (h : View log d.aru del early d)
    (hrtr : ∀ q ∈ asked my rtr, d.aru < q ∧ q ≤ log.length) :
    Returns (d.answerRetrans my rtr) fun a =>
      (∀ p ∈ a.resent, p ∈ log) ∧
      a.resent.map Packet.seq = (asked my rtr).filter (fun q => (d.slot q).isSome) ∧
      a.kept = rtr.filter (fun r => r.membId ≠ my.membId) ∧
      a.procId = if (asked my rtr).all fun q => (d.slot q).isSome then some my.id else none := by
  rw [answerRetrans]
  refine (answerRtrs_returns rtr _ h hrtr).bind ?_
  rintro a ⟨hanswered, hkept⟩
  refine .pure ⟨?_, ?_, ?_, ?_⟩
  · intro p hp
    rcases hanswered.log p hp with hp | hp
    · cases hp
    · exact hp
  · exact hanswered.resent
  · exact hkept
  · exact hanswered.procId

theorem fcAllowed_le (d : Daemon) (flow : Int) : d.fcAllowed flow ≤ personalWindow := by
  simp only [fcAllowed, personalWindow, window]
  split_ifs <;> omega

theorem of_fcAllowed (d : Daemon) (flow : Int) (h : d.fcAllowed flow ≠ 0) :
    d.highestSeq ≤ d.aru + maxSeqGap := by
  by_contra hgap
  rw [fcAllowed, if_pos (by omega)] at h
  exact h rfl

/-- How far the top of the log is ahead of what any daemon has discarded, at most. -/
def seqWidth : Nat := maxSeqGap + maxCreated personalWindow

example : seqWidth = 3640 := by decide

/-- What the sending part of a turn leaves, when the log was `log` and the daemon `d`. -/
structure Sent (my : My) (log : List Packet) (submitted : List DownLink) (d : Daemon) (t : Token)
    (a : Answer) (s : Sending) : Prop where
  ordered : Ordered (log ++ s.created)
  feeds : ∃ up, assemble ((log ++ s.created).filter Packet.ordered) = .ok up ∧
    Feeds my.id (log ++ s.created) up submitted s.daemon
  proc : ∀ p ∈ s.created, p.procId = my.id
  view : ∃ early, View (log ++ s.created) d.aru d.lastDelivered early s.daemon
  highest : s.daemon.highestSeq = (log ++ s.created).length
  frame : s.daemon.sendState = d.sendState
  gap : s.created = [] ∨ (log ++ s.created).length ≤ d.aru + seqWidth
  resent : ∀ p ∈ a.resent, p ∈ log
  answered : a.resent.map Packet.seq = (asked my t.rtr).filter fun q => (d.slot q).isSome
  kept : a.kept = t.rtr.filter fun r => r.membId ≠ my.membId
  slots : ∀ q, d.aru < q → q ≤ log.length → s.daemon.slot q = d.slot q
  sent : s.numSent ≤
    maxSent (({ d with highestSeq := log.length } : Daemon).fcAllowed t.flowControl)

/-- `Send_new_packets` at a daemon that knows the top of the log. -/
theorem sendNewPackets_returns {submitted : List DownLink} {up : UpQueue} {del allowed : Nat}
    {early : List Packet} (hlog : Ordered log) (h : View log d.aru del early d)
    (hdel : del = d.lastDelivered) (hhighest : d.highestSeq = log.length)
    (hup : assemble (log.filter Packet.ordered) = .ok up) (hfeeds : Feeds my.id log up submitted d)
    (hroom : log.length + maxCreated allowed ≤ d.aru + maxPacketsInStruct)
    (hid : my.id < maxProcsRing) :
    Returns (d.sendNewPackets my allowed) fun s =>
      ∃ s', SendInv my log submitted d allowed s' ∧
        s = { s' with numSent := s'.numSent + s'.queue.flush } := by
  have hinv : SendInv my log submitted d allowed
      { daemon := d, created := [], numSent := 0, queue := .empty } := by
    constructor
    case ordered => simpa using hlog
    case feeds => exact ⟨up, by simpa using hup, by simpa using hfeeds⟩
    case proc => exact fun p hp => absurd hp List.not_mem_nil
    case view => exact ⟨early, by simpa [← hdel] using h⟩
    case highest => simpa using hhighest
    case frame => rfl
    case slots => exact fun _ _ _ => rfl
    case packed => exact ⟨0, .empty, le_rfl⟩
    case sent => exact Nat.zero_le _
    case idle => exact fun _ => ⟨rfl, rfl⟩
  refine (sendLoop_returns _ hinv (by simp only; omega) hroom hid).bind ?_
  rintro s ⟨hs, -⟩
  exact .pure ⟨s, hs, rfl⟩

theorem sendTurn_returns {submitted : List DownLink} {t : Token} {up : UpQueue}
    (hlog : Ordered log) (h : Holding log d)
    (hup : assemble (log.filter Packet.ordered) = .ok up) (hfeeds : Feeds my.id log up submitted d)
    (htop : t.seq = log.length) (hrtr : ∀ q ∈ asked my t.rtr, d.aru < q ∧ q ≤ log.length)
    (hwidth : log.length ≤ d.aru + seqWidth) (hid : my.id < maxProcsRing) :
    Returns (d.sendTurn my t) fun r => Sent my log submitted d t r.1 r.2 := by
  obtain ⟨early, hview⟩ := h.view
  have hhighest := hview.highest_le
  have hmax : max d.highestSeq t.seq = log.length := by omega
  have hstart := hview.raise hhighest le_rfl
  rw [sendTurn]
  simp only [hmax]
  refine (answerRetrans_returns (d := { d with highestSeq := log.length }) hstart hrtr).bind ?_
  rintro a ⟨hresent, hanswered, hkept, -⟩
  generalize hallowed : ({ d with highestSeq := log.length } : Daemon).fcAllowed t.flowControl =
    allowed
  have hle : allowed ≤ personalWindow := hallowed ▸ fcAllowed_le _ _
  have hcreated : maxCreated allowed ≤ maxCreated personalWindow :=
    Nat.mul_le_mul_left _ (by omega)
  have hroom : log.length + maxCreated allowed ≤ d.aru + maxPacketsInStruct := by
    have hsum : seqWidth + maxCreated personalWindow ≤ maxPacketsInStruct := by decide
    omega
  refine (sendNewPackets_returns (d := { d with highestSeq := log.length }) hlog hstart rfl rfl hup
    (hfeeds.congr rfl rfl) hroom hid).bind ?_
  rintro _ ⟨s, hs, rfl⟩
  have hflush := s.queue.flush_le
  have hnum := hs.sent
  refine .pure ?_
  constructor
  case ordered => exact hs.ordered
  case feeds => exact hs.feeds
  case proc => exact hs.proc
  case view => exact hs.view
  case highest => exact hs.highest
  case frame => exact hs.frame
  case gap =>
    by_cases hzero : allowed = 0
    · exact .inl (hs.idle hzero).1
    · have hgap := of_fcAllowed { d with highestSeq := log.length } t.flowControl (hallowed ▸ hzero)
      have hlength := hs.created_le
      right
      change (log ++ s.created).length ≤ d.aru + seqWidth
      rw [seqWidth, List.length_append]
      simp only at hgap
      omega
  case resent => exact hresent
  case answered => exact hanswered
  case kept => exact hkept
  case slots => exact hs.slots
  case sent =>
    rw [hallowed, maxSent]
    split
    · rename_i hzero
      have hempty : s.queue.flush = 0 := by
        rw [(hs.idle hzero).2]
        rfl
      simp only
      omega
    · simp only
      omega

/-- What a daemon asks for is beyond its `My_aru`, and it does not have it. -/
theorem mem_missing {count i q : Nat} (h : q ∈ d.missing count i) :
    i ≤ q ∧ q < i + count ∧ d.slot q = none := by
  induction count generalizing i with
  | zero => cases h
  | succ count ih =>
      rw [missing] at h
      split at h
      · obtain ⟨hle, hlt, hnone⟩ := ih h
        exact ⟨by omega, by omega, hnone⟩
      · rename_i hhere
        rcases List.mem_cons.mp h with rfl | hrest
        · exact ⟨le_rfl, by omega, by simpa using hhere⟩
        · obtain ⟨hle, hlt, hnone⟩ := ih hrest
          exact ⟨by omega, by omega, hnone⟩

/-- The requests on the token are the daemon's own, up to the top that it knows. -/
theorem mem_asked_requests {a : Answer} {q : Nat} (hkept : ∀ r ∈ a.kept, r.membId ≠ my.membId)
    (hq : q ∈ asked my (d.requests my a)) :
    d.myAru < q ∧ q ≤ d.highestSeq ∧ d.slot q = none := by
  have hforeign : asked my a.kept = [] := by
    rw [asked, List.filter_eq_nil_iff.mpr (by simpa using hkept)]
    rfl
  rw [requests] at hq
  split at hq
  · simp only at hq
    split at hq
    · rw [asked, List.filter_append, List.flatMap_append] at hq
      rw [asked] at hforeign
      rw [hforeign, List.nil_append, List.filter_cons_of_pos (by simp)] at hq
      simp only [List.filter_nil, List.flatMap_cons, List.flatMap_nil, List.append_nil] at hq
      obtain ⟨hle, hlt, hnone⟩ := mem_missing hq
      exact ⟨by omega, by omega, hnone⟩
    · rw [hforeign] at hq
      cases hq
  · rw [hforeign] at hq
    cases hq

theorem mem_missing_of_none {count i q : Nat} (hi : i ≤ q) (hq : q < i + count)
    (hnone : d.slot q = none) : q ∈ d.missing count i := by
  induction count generalizing i with
  | zero => omega
  | succ count ih =>
      rw [missing]
      by_cases hfirst : q = i
      · rw [← hfirst, if_neg (by simp [hnone])]
        exact List.mem_cons_self
      · have hrest := ih (i := i + 1) (by omega) (by omega)
        split
        · exact hrest
        · exact List.mem_cons_of_mem _ hrest

/-- How many numbers beyond `My_aru` a daemon looks at for its requests, where the requests
`kept` stay on the token. -/
def requestRoom (kept : List RingRtr) : Nat :=
  let allowed := (tokenBodySize - (kept.map RingRtr.size).sum - ringRtrSize) / 4
  if 1 < allowed then allowed else 0

/-- A daemon asks for all that it lacks there. -/
theorem mem_asked_of_none {a : Answer} {q : Nat} (hq : d.myAru < q) (hle : q ≤ d.highestSeq)
    (hroom : q ≤ d.myAru + requestRoom a.kept) (hnone : d.slot q = none) :
    q ∈ asked my (d.requests my a) := by
  rw [requests, if_pos (by omega)]
  rw [requestRoom] at hroom
  simp only at hroom ⊢
  split at hroom
  · rename_i hallowed
    rw [if_pos hallowed, asked, List.filter_append, List.flatMap_append]
    apply List.mem_append_right
    rw [List.filter_cons_of_pos (by simp)]
    simp only [List.filter_nil, List.flatMap_cons, List.flatMap_nil, List.append_nil]
    exact mem_missing_of_none (by omega) (by omega) hnone
  · omega

/-- The token carries no higher mark than the daemon has, and none below both marks. -/
theorem tokenAru_bounds (d : Daemon) (my : My) (t : Token) :
    (d.tokenAru my t).1 ≤ d.myAru ∧ min d.myAru t.aru ≤ (d.tokenAru my t).1 := by
  rw [tokenAru]
  split
  · exact ⟨le_rfl, min_le_left ..⟩
  · split
    · exact ⟨le_rfl, min_le_left ..⟩
    · simp only
      omega

@[simp] theorem nextRound_seq (my : My) (t : Token) : (nextRound my t).seq = t.seq := by
  rw [nextRound]
  split <;> rfl

@[simp] theorem nextRound_aru (my : My) (t : Token) : (nextRound my t).aru = t.aru := by
  rw [nextRound]
  split <;> rfl

@[simp] theorem nextRound_aruLastId (my : My) (t : Token) :
    (nextRound my t).aruLastId = t.aruLastId := by
  rw [nextRound]
  split <;> rfl

@[simp] theorem nextRound_flowControl (my : My) (t : Token) :
    (nextRound my t).flowControl = t.flowControl := by
  rw [nextRound]
  split <;> rfl

@[simp] theorem nextRound_rtr (my : My) (t : Token) : (nextRound my t).rtr = t.rtr := by
  rw [nextRound]
  split <;> rfl

theorem nextRound_arq (my : My) (t : Token) :
    (nextRound my t).arq = if my.isLeader then (t.arq + 1) % 0x10 else t.arq := by
  rw [nextRound]
  split <;> rfl

/-- What a turn on the token `t` makes of a daemon `d` at rest and of the log. -/
structure Turn (my : My) (log : List Packet) (submitted : List DownLink) (d : Daemon) (t : Token)
    (o : Outcome) : Prop where
  turn : o.turn = true
  ordered : Ordered (log ++ o.created)
  feeds : ∃ up, assemble ((log ++ o.created).filter Packet.ordered) = .ok up ∧
    Feeds my.id (log ++ o.created) up submitted o.daemon
  proc : ∀ p ∈ o.created, p.procId = my.id
  bcasts : ∀ p ∈ o.bcasts, p ∈ log ++ o.created
  holding : Holding (log ++ o.created) o.daemon
  gap : o.created = [] ∨ (log ++ o.created).length ≤ d.aru + seqWidth
  highest : o.daemon.highestSeq = (log ++ o.created).length
  myAru : d.myAru ≤ o.daemon.myAru
  delivered : d.lastDelivered ≤ o.daemon.lastDelivered
  aru : o.daemon.aru = min d.lastToken.aru o.daemon.lastToken.aru
  tokens : ∀ t' ∈ o.tokens, t' = o.daemon.lastToken
  seq : o.daemon.lastToken.seq = (log ++ o.created).length
  arq : o.daemon.lastToken.arq = if my.isLeader then (t.arq + 1) % 0x10 else t.arq
  tokenAru : (o.daemon.lastToken.aru, o.daemon.lastToken.aruLastId, o.daemon.setAru) =
    ({ d with myAru := o.daemon.myAru, highestSeq := o.daemon.highestSeq } : Daemon).tokenAru my t
  flow : o.daemon.lastToken.flowControl =
    int16 (t.flowControl - d.lastNumRetrans - d.lastNumSent + o.daemon.lastNumRetrans +
      o.daemon.lastNumSent)
  sent : o.daemon.lastNumSent ≤
    maxSent (({ d with highestSeq := log.length } : Daemon).fcAllowed t.flowControl)
  rtr : ∀ q ∈ asked my o.daemon.lastToken.rtr,
    o.daemon.myAru < q ∧ q ≤ (log ++ o.created).length
  answered : o.bcasts.map Packet.seq =
    (asked my t.rtr).filter (fun q => (d.slot q).isSome) ++ o.created.map Packet.seq
  again : ∀ q ∈ asked my t.rtr, d.slot q = none → q ∈ asked my o.daemon.lastToken.rtr ∨
    o.daemon.myAru + requestRoom (t.rtr.filter fun r => r.membId ≠ my.membId) < q

/-- A daemon at rest takes its turn without an alarm. -/
theorem takeTurn_returns {submitted : List DownLink} {t : Token} {up : UpQueue}
    (hlog : Ordered log) (h : Holding log d)
    (hup : assemble (log.filter Packet.ordered) = .ok up) (hfeeds : Feeds my.id log up submitted d)
    (htop : t.seq = log.length) (hrtr : ∀ q ∈ asked my t.rtr, d.aru < q ∧ q ≤ log.length)
    (hseen : d.aru ≤ d.lastToken.aru) (hlow : d.aru ≤ t.aru)
    (hwidth : log.length ≤ d.aru + seqWidth) (hid : my.id < maxProcsRing) :
    Returns (d.takeTurn my t) (Turn my log submitted d t) := by
  rw [takeTurn]
  refine (sendTurn_returns hlog h hup hfeeds htop hrtr hwidth hid).bind ?_
  rintro ⟨a, s⟩ hs
  obtain ⟨hordered, ⟨up', hup', hfeeds'⟩, hproc, ⟨early, hview⟩, hhighest, hframe, hgap, hresent,
    hanswered, hkept, hslots, hsent⟩ := hs
  simp only at hordered hup' hfeeds' hproc hview hhighest hframe hgap
  simp only at hresent hanswered hkept hslots hsent
  have hready : View (log ++ s.created) d.aru d.lastDelivered early (ready s a) :=
    View.advance (hview.congr rfl rfl rfl rfl)
  have hmyAru : d.myAru ≤ (ready s a).myAru := by
    have hold := field_of_sendState Daemon.myAru (fun _ => rfl) hframe
    rw [← hold]
    exact (walk_spec { s.daemon with lastNumRetrans := a.numRetrans, lastNumSent := s.numSent }
      _ _).1
  have hlast := field_of_sendState Daemon.lastToken (fun _ => rfl) hframe
  have hset := field_of_sendState Daemon.setAru (fun _ => rfl) hframe
  have hdiscarded := (field_of_sendState Daemon.lastDiscarded (fun _ => rfl) hframe).trans
    h.discarded
  have hdelivered := field_of_sendState Daemon.lastDelivered (fun _ => rfl) hframe
  have hdel := hready.lo_le.trans hready.del_le
  have hasked : ∀ q ∈ asked my ((ready s a).requests my a),
      (ready s a).myAru < q ∧ q ≤ (log ++ s.created).length := by
    intro q hq
    obtain ⟨hle, hlt, -⟩ := mem_asked_requests (fun r hr => by
      rw [hkept] at hr
      simpa using (List.mem_filter.mp hr).2) hq
    exact ⟨hle, hlt.trans hready.highest_le⟩
  -- what is asked for and not here is not here after sending either
  have hagain : ∀ q ∈ asked my t.rtr, d.slot q = none →
      (ready s a).myAru < q ∧ q ≤ (ready s a).highestSeq ∧ (ready s a).slot q = none := by
    intro q hq hnone
    obtain ⟨hlow, htop⟩ := hrtr q hq
    have hslot : (ready s a).slot q = none := (hslots q hlow htop).trans hnone
    refine ⟨?_, ?_, hslot⟩
    · by_contra hge
      have hsome := hready.present q hlow (by omega)
      rw [hslot] at hsome
      cases hsome
    · have hhighest' : (ready s a).highestSeq = (log ++ s.created).length := hhighest
      rw [hhighest', List.length_append]
      omega
  have hfields : (ready s a).tokenAru my t =
      ({ d with myAru := (ready s a).myAru, highestSeq := (log ++ s.created).length } :
        Daemon).tokenAru my t := by
    have hset' : (ready s a).setAru = d.setAru := hset
    have hhighest' : (ready s a).highestSeq = (log ++ s.created).length := hhighest
    simp only [Daemon.tokenAru, SetsAru, hset', hhighest']
  obtain ⟨hle, hge⟩ := tokenAru_bounds (ready s a) my t
  simp only
  generalize hnext : (ready s a).nextToken my d t a = t'
  have haru : t'.aru = ((ready s a).tokenAru my t).1 := by
    rw [← hnext, nextToken, nextRound_aru]
  generalize hd₂ : ({ ready s a with setAru := ((ready s a).tokenAru my t).2.2 } :
    Daemon).updateAru t' = d₂
  have haru₂ : d₂.aru = min d.lastToken.aru t'.aru := by
    have hlast' : (ready s a).lastToken = d.lastToken := hlast
    rw [← hd₂, updateAru]
    simp only [hlast']
    split <;> omega
  have hview₂ : View (log ++ s.created) d₂.lastDiscarded d₂.lastDelivered early d₂ := by
    have hcongr : View (log ++ s.created) d.aru d.lastDelivered early d₂ :=
      hready.congr (by rw [← hd₂]; rfl) (by rw [← hd₂]; rfl) (by rw [← hd₂]; rfl)
        (by rw [← hd₂]; rfl)
    have hdiscarded₂ : d₂.lastDiscarded = d.aru := by rw [← hd₂]; exact hdiscarded
    have hdelivered₂ : d₂.lastDelivered = d.lastDelivered := by rw [← hd₂]; exact hdelivered
    rw [hdiscarded₂, hdelivered₂]
    exact hcongr
  have hmyAru₂ : d₂.myAru = (ready s a).myAru := by rw [← hd₂]; rfl
  have hlo₂ : d₂.lastDiscarded ≤ d₂.aru := by
    have hdiscarded₂ : d₂.lastDiscarded = d.aru := by rw [← hd₂]; exact hdiscarded
    omega
  have hsafe₂ : ∀ p ∈ log ++ s.created, p.type = .safe → p.seq ≤ d₂.lastDelivered →
      p.seq ≤ d₂.aru := by
    intro p hp htype hle
    have hdelivered₂ : d₂.lastDelivered = d.lastDelivered := by rw [← hd₂]; exact hdelivered
    have hold := h.safe p (h.mem_of_append hordered hp (by omega)) htype (by omega)
    omega
  refine (deliverTurn_returns hordered s.numSent hview₂ hlo₂ (by omega) hsafe₂).bind ?_
  rintro d₃ ⟨hholding, hrest, hdelivered₃⟩
  have hfield : ∀ {β : Type} (f : Daemon → β), (∀ d, f d.rest = f d) → f d₃ = f d₂ :=
    fun f hf => field_of_rest f hf hrest
  have htoken : d₃.lastToken = t' := (hfield Daemon.lastToken fun _ => rfl).trans (by rw [← hd₂]; rfl)
  have hmyAru₃ : d₃.myAru = (ready s a).myAru := (hfield Daemon.myAru fun _ => rfl).trans hmyAru₂
  have hhighest₃ : d₃.highestSeq = (log ++ s.created).length :=
    (hfield Daemon.highestSeq fun _ => rfl).trans (by rw [← hd₂]; exact hhighest)
  refine .pure ?_
  constructor
  case turn => rfl
  case ordered => exact hordered
  case feeds =>
    refine ⟨up', hup', hfeeds'.congr ?_ ?_⟩
    · exact (hfield Daemon.downQueue fun _ => rfl).trans (by rw [← hd₂]; rfl)
    · exact (hfield Daemon.curElement fun _ => rfl).trans (by rw [← hd₂]; rfl)
  case proc => exact hproc
  case bcasts =>
    intro p hp
    rcases List.mem_append.mp hp with hp | hp
    · exact List.mem_append_left _ (hresent p hp)
    · exact List.mem_append_right _ hp
  case holding => exact hholding
  case gap => exact hgap
  case highest => exact hhighest₃
  case myAru => exact hmyAru.trans hmyAru₃.ge
  case delivered =>
    have hdelivered₂ : d₂.lastDelivered = d.lastDelivered := by rw [← hd₂]; exact hdelivered
    exact hdelivered₂.ge.trans hdelivered₃
  case aru => rw [hfield Daemon.aru fun _ => rfl, haru₂, htoken]
  case tokens =>
    intro t'' ht''
    rw [htoken]
    simp only at ht''
    split at ht''
    · cases ht''
    · exact List.mem_singleton.mp ht''
  case seq => rw [htoken, ← hnext, nextToken, nextRound_seq]; exact hhighest
  case arq => rw [htoken, ← hnext, nextToken, nextRound_arq]
  case tokenAru =>
    have hset₃ : d₃.setAru = ((ready s a).tokenAru my t).2.2 :=
      (hfield Daemon.setAru fun _ => rfl).trans (by rw [← hd₂]; rfl)
    rw [htoken, hset₃, haru, ← hnext, nextToken, nextRound_aruLastId, hmyAru₃, hhighest₃, ← hfields]
  case flow =>
    have hretrans : d₃.lastNumRetrans = a.numRetrans :=
      (hfield Daemon.lastNumRetrans fun _ => rfl).trans (by rw [← hd₂]; rfl)
    have hnum : d₃.lastNumSent = s.numSent :=
      (hfield Daemon.lastNumSent fun _ => rfl).trans (by rw [← hd₂]; rfl)
    rw [htoken, ← hnext, nextToken, nextRound_flowControl, hretrans, hnum]
    rfl
  case sent =>
    have hnum : d₃.lastNumSent = s.numSent :=
      (hfield Daemon.lastNumSent fun _ => rfl).trans (by rw [← hd₂]; rfl)
    rw [hnum]
    exact hsent
  case rtr =>
    rw [htoken, ← hnext, nextToken, nextRound_rtr, hmyAru₃]
    exact hasked
  case answered => rw [List.map_append, hanswered]
  case again =>
    intro q hq hnone
    rw [htoken, ← hnext, nextToken, nextRound_rtr, hmyAru₃, ← hkept]
    have hlost := hagain q hq hnone
    by_cases hroom : q ≤ (ready s a).myAru + requestRoom a.kept
    · exact .inl (mem_asked_of_none hlost.1 hlost.2.1 hroom hlost.2.2)
    · exact .inr (by omega)

end Daemon

end Netbroker.Ring
