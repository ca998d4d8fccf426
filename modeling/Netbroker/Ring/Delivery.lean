import Netbroker.Ring.Store
import Netbroker.Ring.Token

/-!
# The delivering handlers return

Each loop takes a daemon whose packets mean what `View` says to such a daemon again. A
handler therefore ends without an alarm, and it only delivers what is next in order, or a
reliable single packet that has not been delivered.

`Receives` sums up what a datagram of packets does to a daemon at rest, and
`deliverTurn_returns` what is delivered and discarded on its turn. Both leave what the turn
reads and writes, `turnState`, as it was.
-/

namespace Netbroker.Ring

open Transition

variable {log early : List Packet} {lo : Nat} {d d' d'' : Daemon}

/-- What a daemon is after delivering: packets up to a number not below the old one, and no
safe packet more. -/
structure Delivers (log : List Packet) (lo : Nat) (d d' : Daemon) : Prop where
  view : ∃ early, View log lo d'.lastDelivered early d'
  rest : d'.rest = d.rest
  discarded : d'.lastDiscarded = d.lastDiscarded
  delivered : d.lastDelivered ≤ d'.lastDelivered
  safe : ∀ p ∈ log, p.type = .safe → p.seq ≤ d'.lastDelivered → p.seq ≤ d.lastDelivered

namespace Delivers

theorem refl (h : View log lo d.lastDelivered early d) : Delivers log lo d d :=
  ⟨⟨early, h⟩, rfl, rfl, le_rfl, fun _ _ _ hle => hle⟩

theorem trans (h : Delivers log lo d d') (h' : Delivers log lo d' d'') :
    Delivers log lo d d'' where
  view := h'.view
  rest := h'.rest.trans h.rest
  discarded := h'.discarded.trans h.discarded
  delivered := h.delivered.trans h'.delivered
  safe p hp hsafe hle := h.safe p hp hsafe (h'.safe p hp hsafe hle)

theorem myAru (h : Delivers log lo d d') : d'.myAru = d.myAru :=
  Daemon.field_of_rest Daemon.myAru (fun _ => rfl) h.rest

theorem highestSeq (h : Delivers log lo d d') : d'.highestSeq = d.highestSeq :=
  Daemon.field_of_rest Daemon.highestSeq (fun _ => rfl) h.rest

end Delivers

namespace Daemon

/-- The next packet is no safe one, so the safe packets up to it are the old ones. -/
theorem safe_le_of_next {del : Nat} {info : PacketInfo} (hlog : Ordered log)
    (hmem : info.packet ∈ log) (hseq : info.packet.seq = del + 1)
    (htype : info.packet.type ≠ .safe) :
    ∀ p ∈ log, p.type = .safe → p.seq ≤ del + 1 → p.seq ≤ del := by
  intro p hp hsafe hle
  by_contra hgt
  have hsame := hlog.unique hp hmem (by omega)
  rw [hsame] at hsafe
  exact htype hsafe

theorem agreedLoop_returns (hlog : Ordered log) (count : Nat)
    (h : View log lo d.lastDelivered early d) (hcount : d.lastDelivered + count ≤ d.myAru) :
    Returns (agreedLoop count (d.lastDelivered + 1) d) (Delivers log lo d) := by
  induction count generalizing d early with
  | zero => exact .ok (.refl h)
  | succ count ih =>
      have hlo := h.lo_le
      have hnext : d.lastDelivered + 1 ≤ d.myAru := by omega
      obtain ⟨info, hinfo⟩ := Option.isSome_iff_exists.mp
        (h.present (d.lastDelivered + 1) (by omega) hnext)
      have hhighest := h.highest_le
      have hmyAru := h.myAru_le
      obtain ⟨hseq, -, hmem, hflag⟩ := h.slot_entry hinfo (by omega) (by
        have hwindow := h.window
        omega)
      simp only [agreedLoop, hinfo]
      split
      · rename_i hold
        have htype : info.packet.type ≠ .safe := by
          rcases hflag.mp hold with hle | hearly
          · omega
          · intro hsafe
            obtain ⟨hreliable, -⟩ := (h.early_log _ hearly).2.1
            rw [hsafe] at hreliable
            cases hreliable
        have hskip : View log lo (d.lastDelivered + 1) early
            { d with lastDelivered := d.lastDelivered + 1 } :=
          (h.skip_next hlog hinfo hold hnext).congr rfl rfl rfl rfl
        refine (ih (d := { d with lastDelivered := d.lastDelivered + 1 }) hskip (by
          simp only
          omega)).mono fun d' hd' => ?_
        exact ⟨hd'.view, hd'.rest, hd'.discarded, (Nat.le_succ _).trans hd'.delivered,
          fun p hp hsafe hle => safe_le_of_next hlog hmem hseq htype p hp hsafe
            (hd'.safe p hp hsafe hle)⟩
      · rename_i hnew
        split
        · exact .ok (.refl h)
        · rename_i htype
          refine (h.deliver_next hlog hinfo (by simpa using hnew) hnext).bind ?_
          rintro d₁ ⟨⟨early', hview⟩, hrest, hdiscarded, hdelivered⟩
          have hmyAru := field_of_rest Daemon.myAru (fun _ => rfl) hrest
          have hstep : View log lo (d.lastDelivered + 1) early'
              { d₁ with lastDelivered := d₁.lastDelivered + 1 } :=
            hview.congr rfl rfl rfl rfl
          rw [← hdelivered] at hstep ⊢
          refine (ih (d := { d₁ with lastDelivered := d₁.lastDelivered + 1 }) hstep (by
            simp only
            omega)).mono fun d' hd' => ?_
          have hle := hd'.delivered
          simp only at hle
          refine ⟨hd'.view, hd'.rest.trans hrest, hd'.discarded.trans hdiscarded, by omega, ?_⟩
          intro p hp hsafe hle'
          have hold := hd'.safe p hp hsafe hle'
          simp only [hdelivered] at hold
          exact safe_le_of_next hlog hmem hseq htype p hp hsafe hold

theorem deliverAgreedPackets_returns (hlog : Ordered log)
    (h : View log lo d.lastDelivered early d) :
    Returns d.deliverAgreedPackets (Delivers log lo d) := by
  have hdel := h.del_le
  exact agreedLoop_returns hlog _ h (by omega)

theorem reliableLoop_returns (count i : Nat) (h : View log lo d.lastDelivered early d)
    (hi : d.lastDelivered < i)
    (hcount : ∀ k, i ≤ k → k < i + count → k ≤ lo + maxPacketsInStruct) :
    Returns (reliableLoop count i d) (Delivers log lo d) := by
  induction count generalizing d early i with
  | zero => exact .ok (.refl h)
  | succ count ih =>
      have hlo := h.lo_le
      have hhere := hcount i le_rfl (by omega)
      have hcount' : ∀ k, i + 1 ≤ k → k < i + 1 + count → k ≤ lo + maxPacketsInStruct :=
        fun k hk hk' => hcount k (by omega) (by omega)
      rw [reliableLoop]
      split
      · exact ih (i + 1) h (by omega) hcount'
      · rename_i info hinfo
        split
        · rename_i hearly
          simp only [Bool.and_eq_true, Bool.not_eq_eq_eq_not, Bool.not_true,
            decide_eq_true_eq] at hearly
          refine (h.deliver_early hinfo hearly.1 hearly.2 (by omega) hhere).bind ?_
          rintro d₁ ⟨⟨early', hview⟩, hrest, hdiscarded, hdelivered⟩
          rw [← hdelivered] at hview
          refine (ih (i + 1) hview (by omega) hcount').mono fun d' hd' => ?_
          exact (Delivers.mk ⟨early', hview⟩ hrest hdiscarded hdelivered.ge
            fun p _ _ hle => hle.trans hdelivered.le).trans hd'
        · exact ih (i + 1) h (by omega) hcount'

theorem deliverReliablePackets_returns (h : View log lo d.lastDelivered early d) (start : Nat)
    {stop : Nat} (hstop : stop ≤ d.highestSeq) :
    Returns (d.deliverReliablePackets start stop) (Delivers log lo d) := by
  have hhighest := h.highest_le
  have hwindow := h.window
  have hdel := h.del_le
  have hmyAru := h.myAru_le
  apply reliableLoop_returns
  case h => exact h
  case hi => omega
  case hcount => exact fun k hk hk' => by omega

/-- The loop of `Discard_packets` delivers what is left and empties the entries. -/
theorem discardLoop_returns (hlog : Ordered log) (count : Nat)
    (h : View log lo (max d.lastDelivered lo) early d) (hcount : lo + count ≤ d.myAru) :
    Returns (discardLoop count (lo + 1) d) fun d' =>
      (∃ early', View log (lo + count) (max d.lastDelivered (lo + count)) early' d') ∧
        View.Same d d' := by
  induction count generalizing d early lo with
  | zero => exact .ok ⟨⟨early, h⟩, rfl, rfl, rfl⟩
  | succ count ih =>
      obtain ⟨info, hinfo⟩ := Option.isSome_iff_exists.mp
        (h.present (lo + 1) (by omega) (by omega))
      have hwindow := h.window
      have hhighest := h.highest_le
      have hmyAru := h.myAru_le
      obtain ⟨-, -, -, hflag⟩ := h.slot_entry hinfo (by omega) (by omega)
      -- after this turn of the loop the packet at its head has been delivered
      have hdeliver : Returns (d.deliverLeft (lo + 1) info) fun d₁ =>
          (∃ early', View log lo (max d.lastDelivered (lo + 1)) early' d₁) ∧ View.Same d d₁ := by
        rw [deliverLeft]
        by_cases hnext : lo + 1 ≤ d.lastDelivered
        · have hmax : max d.lastDelivered (lo + 1) = max d.lastDelivered lo := by omega
          rw [hmax, if_pos (hflag.mpr (.inl (by omega)))]
          exact .ok ⟨⟨early, h⟩, rfl, rfl, rfl⟩
        · have hmax : max d.lastDelivered (lo + 1) = lo + 1 := by omega
          have hlo : max d.lastDelivered lo = lo := by omega
          rw [hlo] at h
          rw [hmax]
          split
          · rename_i hold
            exact .ok ⟨⟨early, h.skip_next hlog hinfo hold (by omega)⟩, rfl, rfl, rfl⟩
          · rename_i hnew
            exact h.deliver_next hlog hinfo (by simpa using hnew) (by omega)
      simp only [discardLoop, hinfo]
      refine hdeliver.bind ?_
      rintro d₁ ⟨⟨early', hview⟩, hrest, hdiscarded, hdelivered⟩
      have hdiscard := hview.discard_next (by omega)
      have hlast : max (d₁.setSlot (lo + 1) none).lastDelivered (lo + 1) =
          max d.lastDelivered (lo + 1) := by rw [← hdelivered]; rfl
      have hmyAru' : (d₁.setSlot (lo + 1) none).myAru = d.myAru :=
        field_of_rest Daemon.myAru (fun _ => rfl) hrest
      rw [← hlast] at hdiscard
      refine (ih hdiscard (by omega)).mono fun d' hd' => ?_
      obtain ⟨⟨early'', hview'⟩, hrest', hdiscarded', hdelivered'⟩ := hd'
      have hcount' : lo + 1 + count = lo + (count + 1) := by omega
      have hlast' : (d₁.setSlot (lo + 1) none).lastDelivered = d.lastDelivered := hdelivered
      rw [hcount', hlast'] at hview'
      exact ⟨⟨early'', hview'⟩, hrest'.trans hrest, hdiscarded'.trans hdiscarded,
        hdelivered'.trans hdelivered⟩

/-- `Discard_packets`, where `Aru` has not gone back and is not beyond what is there. -/
theorem discardPackets_returns (hlog : Ordered log)
    (h : View log d.lastDiscarded d.lastDelivered early d) (haru : d.lastDiscarded ≤ d.aru)
    (hmyAru : d.aru ≤ d.myAru) :
    Returns d.discardPackets fun d' =>
      (∃ early', View log d'.lastDiscarded d'.lastDelivered early' d') ∧ d'.rest = d.rest ∧
        d'.lastDiscarded = d.aru ∧ d.lastDelivered ≤ d'.lastDelivered ∧
        d'.lastDelivered ≤ max d.lastDelivered d.aru := by
  have hlo := h.lo_le
  rw [discardPackets]
  split
  · rename_i hle
    exact .ok ⟨⟨early, h⟩, rfl, by omega, le_rfl, le_max_left ..⟩
  · rename_i hlt
    have hmax : max d.lastDelivered d.lastDiscarded = d.lastDelivered := by omega
    have hsum : d.lastDiscarded + (d.aru - d.lastDiscarded) = d.aru := by omega
    rw [← hmax] at h
    refine (discardLoop_returns hlog (d.aru - d.lastDiscarded) h (by omega)).bind ?_
    rintro d₁ ⟨⟨early', hview⟩, hrest, hdiscarded, hdelivered⟩
    have haru' := field_of_rest Daemon.aru (fun _ => rfl) hrest
    rw [hsum, ← haru', ← hdelivered] at hview
    refine .pure ⟨⟨early', hview.congr rfl rfl rfl rfl⟩, hrest, haru', ?_, ?_⟩
    · simp only
      omega
    · simp only
      omega

end Daemon

/-- A daemon between two events: what is below `Aru` has been discarded, and no safe
packet beyond it has been delivered. -/
structure Holding (log : List Packet) (d : Daemon) : Prop where
  view : ∃ early, View log d.aru d.lastDelivered early d
  discarded : d.lastDiscarded = d.aru
  safe : ∀ p ∈ log, p.type = .safe → p.seq ≤ d.lastDelivered → p.seq ≤ d.aru

/-- The packets that a log gains are beyond those delivered. -/
theorem Holding.mem_of_append {new : List Packet} (h : Holding log d) (hlog : Ordered (log ++ new))
    {p : Packet} (hp : p ∈ log ++ new) (hle : p.seq ≤ d.lastDelivered) : p ∈ log := by
  obtain ⟨early, hview⟩ := h.view
  have hdel := hview.del_le
  have hmyAru := hview.myAru_le
  have hhighest := hview.highest_le
  obtain ⟨hpos, -, hget⟩ := hlog.getElem? hp
  rw [List.getElem?_append_left (by omega)] at hget
  exact List.mem_of_getElem? hget

/-- The log may grow at a daemon between two events. -/
theorem Holding.extend {new : List Packet} (h : Holding log d) (hlog : Ordered (log ++ new))
    (hwindow : (log ++ new).length ≤ d.aru + maxPacketsInStruct) : Holding (log ++ new) d := by
  obtain ⟨early, hview⟩ := h.view
  exact ⟨⟨early, hview.extend hlog hwindow⟩, h.discarded, fun p hp hsafe hle =>
    h.safe p (h.mem_of_append hlog hp hle) hsafe hle⟩

namespace Daemon

/-- What only a turn or a new message changes. -/
def turnState (d : Daemon) : Daemon := { d.rest with myAru := 0, highestSeq := 0 }

theorem field_of_turnState {β : Type} (f : Daemon → β) (hf : ∀ d, f d.turnState = f d)
    (h : d'.turnState = d.turnState) : f d' = f d := by
  rw [← hf d', h, hf d]

theorem turnState_of_rest (h : d'.rest = d.rest) : d'.turnState = d.turnState := by
  rw [turnState, turnState, h]

/-- What receiving packets does to a daemon. -/
structure Receives (log : List Packet) (d d' : Daemon) : Prop where
  holding : Holding log d'
  turnState : d'.turnState = d.turnState
  myAru : d.myAru ≤ d'.myAru
  delivered : d.lastDelivered ≤ d'.lastDelivered

theorem Receives.refl (h : Holding log d) : Receives log d d := ⟨h, rfl, le_rfl, le_rfl⟩

theorem Receives.trans (h : Receives log d d') (h' : Receives log d' d'') :
    Receives log d d'' :=
  ⟨h'.holding, h'.turnState.trans h.turnState, h.myAru.trans h'.myAru,
    h.delivered.trans h'.delivered⟩

/-- A packet of the membership is taken in, whichever it is. -/
theorem handlePacket_returns {p : Packet} (hlog : Ordered log) (h : Holding log d)
    (hp : p ∈ log) : Returns (d.handlePacket p) (Receives log d) := by
  obtain ⟨early, hview⟩ := h.view
  rw [handlePacket]
  split
  · exact .ok (.refl h)
  · rename_i hseq
    split
    · exact .ok (.refl h)
    · rename_i hslot
      have hinsert := hview.insert hlog hp (by omega) (by simpa using hslot)
      have hnew : d.myAru ≤ d.highestSeq := hview.myAru_le
      -- either loop starts from a daemon that has the packet
      have hfinish : ∀ {d₁ d₂ : Daemon}, Delivers log d.aru d₁ d₂ → d₁.turnState = d.turnState →
          d₁.lastDiscarded = d.lastDiscarded → d₁.lastDelivered = d.lastDelivered →
          d.myAru ≤ d₁.myAru → Receives log d d₂ := by
        intro d₁ d₂ hdel hturn hdiscarded hdelivered hmyAru
        have hturn' := (turnState_of_rest hdel.rest).trans hturn
        have haru := field_of_turnState Daemon.aru (fun _ => rfl) hturn'
        refine ⟨⟨?_, ?_, ?_⟩, hturn', ?_, ?_⟩
        · rw [haru]
          exact hdel.view
        · rw [haru, hdel.discarded, hdiscarded]
          exact h.discarded
        · intro p' hp' hsafe hle
          have hold := hdel.safe p' hp' hsafe hle
          rw [haru]
          exact h.safe p' hp' hsafe (hold.trans hdelivered.le)
        · rw [hdel.myAru]
          exact hmyAru
        · have hle := hdel.delivered
          omega
      split
      · have hadvance := hinsert.advance
        refine (deliverAgreedPackets_returns hlog hadvance).mono fun d₂ hd₂ => ?_
        exact hfinish hd₂ rfl rfl rfl ((d.insertPacket p).walk_spec _ _).1
      · refine (deliverReliablePackets_returns hinsert p.seq (le_max_right ..)).mono
          fun d₂ hd₂ => ?_
        exact hfinish hd₂ rfl rfl rfl le_rfl

/-- A datagram of packets of the membership is taken in. -/
theorem handleBcast_returns {packets : List Packet} (hlog : Ordered log) (h : Holding log d)
    (hmem : ∀ p ∈ packets, p ∈ log) : Returns (d.handleBcast packets) (Receives log d) := by
  apply Returns.foldlM (.refl h)
  intro d' p hp hd'
  exact (handlePacket_returns hlog hd'.holding (hmem p hp)).mono fun d'' hd'' => hd'.trans hd''

/-- The delivering part of a turn brings a daemon to rest again. -/
theorem deliverTurn_returns (hlog : Ordered log) (numSent : Nat)
    (h : View log d.lastDiscarded d.lastDelivered early d) (haru : d.lastDiscarded ≤ d.aru)
    (hmyAru : d.aru ≤ d.myAru)
    (hsafe : ∀ p ∈ log, p.type = .safe → p.seq ≤ d.lastDelivered → p.seq ≤ d.aru) :
    Returns (d.deliverTurn numSent) fun d' =>
      Holding log d' ∧ d'.rest = d.rest ∧ d.lastDelivered ≤ d'.lastDelivered := by
  refine (discardPackets_returns hlog h haru hmyAru).bind ?_
  rintro d₁ ⟨⟨early₁, hview₁⟩, hrest₁, hdiscarded₁, hdelivered₁, hmax⟩
  refine (deliverAgreedPackets_returns hlog hview₁).bind ?_
  intro d₂ h₂
  obtain ⟨early₂, hview₂⟩ := h₂.view
  refine (deliverReliablePackets_returns hview₂ _ le_rfl).mono fun d₃ h₃ => ?_
  have hrest := h₃.rest.trans (h₂.rest.trans hrest₁)
  have haru₃ := field_of_rest Daemon.aru (fun _ => rfl) hrest
  have hdiscarded : d₃.lastDiscarded = d₃.aru := by
    rw [h₃.discarded, h₂.discarded, hdiscarded₁, haru₃]
  refine ⟨⟨?_, hdiscarded, ?_⟩, hrest, ?_⟩
  · obtain ⟨early₃, hview₃⟩ := h₃.view
    rw [hdiscarded₁, ← haru₃] at hview₃
    exact ⟨early₃, hview₃⟩
  · intro p hp htype hle
    have hle₁ := h₂.safe p hp htype (h₃.safe p hp htype hle)
    rw [haru₃]
    by_cases hold : p.seq ≤ d.lastDelivered
    · exact hsafe p hp htype hold
    · omega
  · exact hdelivered₁.trans (h₂.delivered.trans h₃.delivered)

end Daemon

end Netbroker.Ring
