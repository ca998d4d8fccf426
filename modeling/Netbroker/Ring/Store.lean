import Mathlib.Data.List.Nodup
import Mathlib.Order.Nat
import Mathlib.Tactic.Tauto
import Netbroker.Ring.Assembly
import Netbroker.Transition.Returns

/-!
# The packets a daemon holds, against the log of the membership

The log lists the packets of a membership in the order of their numbers. A daemon holds
some of them in a circular array, whose entries it reads without looking at the numbers
in them. `View` says what the array means as long as the log reaches at most one length
of the array past the packets discarded, and the lemmas below say what the handlers make
of it. In particular their alarms do not go off.

The numbers `lo` and `del`, up to which packets have been discarded and delivered, are
arguments because `Discard_packets` sets its variables at its end only.

The array is read by number first, then against the log. A daemon delivers the next packet in
order or a reliable one ahead of its turn, and each keeps `View`.
-/

namespace Netbroker.Ring

open Transition

/-- The packets are numbered from 1 on and their messages come together. -/
structure Ordered (log : List Packet) : Prop where
  number : ∀ i p, log[i]? = some p → p.seq = i + 1
  proc : ∀ p ∈ log, p.procId < maxProcsRing
  assembled : ∃ up, assemble (log.filter Packet.ordered) = .ok up

namespace Ordered

variable {log : List Packet} {p q : Packet}

theorem getElem? (h : Ordered log) (hp : p ∈ log) :
    0 < p.seq ∧ p.seq ≤ log.length ∧ log[p.seq - 1]? = some p := by
  obtain ⟨i, hi⟩ := List.mem_iff_getElem?.mp hp
  have hseq := h.number i p hi
  obtain ⟨hlength, -⟩ := List.getElem?_eq_some_iff.mp hi
  have hindex : p.seq - 1 = i := by omega
  rw [hindex]
  exact ⟨by omega, by omega, hi⟩

theorem unique (h : Ordered log) (hp : p ∈ log) (hq : q ∈ log) (hseq : p.seq = q.seq) :
    p = q := by
  have hp' := (h.getElem? hp).2.2
  have hq' := (h.getElem? hq).2.2
  rw [hseq, hq'] at hp'
  exact (Option.some.inj hp').symm

theorem take_succ (h : Ordered log) {k : Nat} (hp : p ∈ log) (hseq : p.seq = k + 1) :
    log.take (k + 1) = log.take k ++ [p] := by
  have hget := (h.getElem? hp).2.2
  rw [hseq, Nat.add_sub_cancel] at hget
  rw [List.take_add_one, hget]
  rfl

end Ordered

/-- Numbers less than one length of the array apart have entries of their own. -/
theorem packEntry_inj {lo j k : Nat} (hj : lo < j) (hj' : j ≤ lo + maxPacketsInStruct)
    (hk : lo < k) (hk' : k ≤ lo + maxPacketsInStruct) (h : packEntry j = packEntry k) : j = k := by
  rw [packEntry_eq, packEntry_eq] at h
  simp only [maxPacketsInStruct] at *
  omega

namespace Daemon

theorem slot_setSlot (d : Daemon) (j k : Nat) (x : Option PacketInfo) :
    (d.setSlot k x).slot j = if packEntry j = packEntry k then x else d.slot j := by
  simp only [slot, setSlot, Function.update_apply]

@[simp] theorem slot_setSlot_self (d : Daemon) (k : Nat) (x : Option PacketInfo) :
    (d.setSlot k x).slot k = x := by
  rw [slot_setSlot, if_pos rfl]

theorem deliverPacket_of_push {d : Daemon} {k : Nat} {info : PacketInfo} {up : UpQueue}
    (h : d.up.push info.packet = .ok up) : d.deliverPacket k info =
      .ok { d.setSlot k (some { info with delivered := true }) with up } := by
  rw [deliverPacket, h]
  rfl

/-- The fields that delivering packets leaves alone. -/
def rest (d : Daemon) : Daemon :=
  { d with packets := fun _ => none, up := .empty, lastDelivered := 0, lastDiscarded := 0 }

theorem field_of_rest {β : Type} {d d' : Daemon} (f : Daemon → β) (hf : ∀ d, f d.rest = f d)
    (h : d'.rest = d.rest) : f d' = f d := by
  rw [← hf d', h, hf d]

/-- What `walk` finds is there, and where it stops before the end nothing is. -/
theorem walk_spec (d : Daemon) (count aru : Nat) :
    aru ≤ d.walk count aru ∧ d.walk count aru ≤ aru + count ∧
      ∀ k, aru < k → k ≤ d.walk count aru → (d.slot k).isSome := by
  induction count generalizing aru with
  | zero => exact ⟨le_rfl, le_rfl, fun k h h' => absurd (Nat.lt_of_lt_of_le h h') (by simp [walk])⟩
  | succ count ih =>
      rw [walk]
      split
      · rename_i hsome
        obtain ⟨hle, hcount, hpresent⟩ := ih (aru + 1)
        refine ⟨by omega, by omega, fun k hk hk' => ?_⟩
        by_cases hfirst : k = aru + 1
        · rw [hfirst]
          exact hsome
        · exact hpresent k (by omega) hk'
      · exact ⟨le_rfl, by omega, fun k hk hk' => by omega⟩

end Daemon

/-- A daemon that has discarded the packets up to `lo`, has delivered those up to `del`,
and besides them the reliable single packets `early` among the later ones. -/
structure View (log : List Packet) (lo del : Nat) (early : List Packet) (d : Daemon) : Prop where
  lo_le : lo ≤ del
  del_le : del ≤ d.myAru
  myAru_le : d.myAru ≤ d.highestSeq
  highest_le : d.highestSeq ≤ log.length
  window : log.length ≤ lo + maxPacketsInStruct
  entry : ∀ i info, d.packets i = some info →
    packEntry info.packet.seq = i ∧ lo < info.packet.seq ∧ info.packet.seq ≤ d.highestSeq ∧
      info.packet ∈ log
  flag : ∀ i info, d.packets i = some info →
    (info.delivered = true ↔ info.packet.seq ≤ del ∨ info.packet ∈ early)
  present : ∀ k, lo < k → k ≤ d.myAru → (d.slot k).isSome
  early_log : ∀ p ∈ early, p ∈ log ∧ p.single ∧ p.seq ≤ d.highestSeq
  early_held : ∀ p ∈ early, lo < p.seq → (d.slot p.seq).isSome
  early_all : ∀ p ∈ log, p.single → p.seq ≤ del → p ∈ early
  nodup : early.Nodup
  up : ∃ v, assemble ((log.take del).filter Packet.ordered) = .ok v ∧ Agree d.up v early

namespace View

variable {log early : List Packet} {lo del : Nat} {d : Daemon} {info : PacketInfo}

theorem slot_entry (h : View log lo del early d) {k : Nat} (hslot : d.slot k = some info)
    (hlo : lo < k) (hk : k ≤ lo + maxPacketsInStruct) :
    info.packet.seq = k ∧ k ≤ d.highestSeq ∧ info.packet ∈ log ∧
      (info.delivered = true ↔ k ≤ del ∨ info.packet ∈ early) := by
  obtain ⟨hentry, hseq, hhighest, hmem⟩ := h.entry _ _ hslot
  have hwindow := h.window
  have hlog := h.highest_le
  have heq : info.packet.seq = k :=
    packEntry_inj hseq (by omega) hlo hk hentry
  rw [← heq]
  exact ⟨rfl, hhighest, hmem, h.flag _ _ hslot⟩

/-- Fields that `View` does not read may change. -/
theorem congr {d' : Daemon} (h : View log lo del early d) (hpackets : d'.packets = d.packets)
    (hmyAru : d'.myAru = d.myAru) (hhighest : d'.highestSeq = d.highestSeq)
    (hup : d'.up = d.up) : View log lo del early d' := by
  constructor
  case lo_le => exact h.lo_le
  case del_le => rw [hmyAru]; exact h.del_le
  case myAru_le => rw [hmyAru, hhighest]; exact h.myAru_le
  case highest_le => rw [hhighest]; exact h.highest_le
  case window => exact h.window
  case entry => rw [hpackets, hhighest]; exact h.entry
  case flag => rw [hpackets]; exact h.flag
  case present => simp only [Daemon.slot, hpackets, hmyAru]; exact h.present
  case early_log => rw [hhighest]; exact h.early_log
  case early_held => simp only [Daemon.slot, hpackets]; exact h.early_held
  case early_all => exact h.early_all
  case nodup => exact h.nodup
  case up => rw [hup]; exact h.up

/-- The daemon may know of packets that it does not have. -/
theorem raise {top : Nat} (h : View log lo del early d) (hold : d.highestSeq ≤ top)
    (htop : top ≤ log.length) : View log lo del early { d with highestSeq := top } :=
  { h with
    myAru_le := h.myAru_le.trans hold
    highest_le := htop
    entry := fun i info hinfo => by
      obtain ⟨hentry, hlo, hhighest, hmem⟩ := h.entry i info hinfo
      exact ⟨hentry, hlo, hhighest.trans hold, hmem⟩
    early_log := fun p hp => by
      obtain ⟨hmem, hsingle, hhighest⟩ := h.early_log p hp
      exact ⟨hmem, hsingle, hhighest.trans hold⟩ }

/-- The log may grow as far as the array allows. -/
theorem extend {new : List Packet} (h : View log lo del early d) (hlog : Ordered (log ++ new))
    (hwindow : (log ++ new).length ≤ lo + maxPacketsInStruct) :
    View (log ++ new) lo del early d := by
  have hdel : del ≤ log.length := by
    have hmyAru := h.myAru_le
    have hhighest := h.highest_le
    have hle := h.del_le
    omega
  constructor
  case lo_le => exact h.lo_le
  case del_le => exact h.del_le
  case myAru_le => exact h.myAru_le
  case highest_le => exact h.highest_le.trans (by simp)
  case window => exact hwindow
  case entry =>
    intro i info hinfo
    obtain ⟨hentry, hlo, hhighest, hmem⟩ := h.entry i info hinfo
    exact ⟨hentry, hlo, hhighest, List.mem_append_left _ hmem⟩
  case flag => exact h.flag
  case present => exact h.present
  case early_log =>
    intro p hp
    exact ⟨List.mem_append_left _ (h.early_log p hp).1, (h.early_log p hp).2⟩
  case early_held => exact h.early_held
  case early_all =>
    intro p hp hsingle hseq
    obtain ⟨hpos, -, hget⟩ := hlog.getElem? hp
    rw [List.getElem?_append_left (by omega)] at hget
    exact h.early_all p (List.mem_of_getElem? hget) hsingle hseq
  case nodup => exact h.nodup
  case up =>
    rw [List.take_append_of_le_length hdel]
    exact h.up

/-- `My_aru` catches up. -/
theorem advance (h : View log lo del early d) : View log lo del early d.advanceMyAru := by
  obtain ⟨hle, hcount, hpresent⟩ := d.walk_spec (d.highestSeq - d.myAru) d.myAru
  have hmyAru := h.myAru_le
  exact
    { h with
      del_le := h.del_le.trans hle
      myAru_le := by
        simp only [Daemon.advanceMyAru]
        omega
      present := by
        intro k hlo hk
        by_cases hold : k ≤ d.myAru
        · exact h.present k hlo hold
        · exact hpresent k (by omega) hk }

/-- A packet that is not there yet comes in. -/
theorem insert {p : Packet} (h : View log lo del early d) (hlog : Ordered log) (hp : p ∈ log)
    (hlo : lo < p.seq) (hslot : d.slot p.seq = none) :
    View log lo del early (d.insertPacket p) := by
  have hlength := (hlog.getElem? hp).2.1
  have hnew : d.myAru < p.seq := by
    by_contra hle
    have hsome := h.present p.seq hlo (by omega)
    rw [hslot] at hsome
    cases hsome
  have hnot : ¬ (p.seq ≤ del ∨ p ∈ early) := by
    rintro (hle | hmem)
    · have hdel := h.del_le
      omega
    · have hsome := h.early_held p hmem hlo
      rw [hslot] at hsome
      cases hsome
  have hslots : ∀ k, (d.slot k).isSome → ((d.setSlot p.seq (some ⟨p, false⟩)).slot k).isSome := by
    intro k hk
    rw [Daemon.slot_setSlot]
    split
    · rfl
    · exact hk
  constructor
  case lo_le => exact h.lo_le
  case del_le => exact h.del_le
  case myAru_le => exact h.myAru_le.trans (le_max_left ..)
  case highest_le => exact max_le h.highest_le hlength
  case window => exact h.window
  case entry =>
    intro i info hinfo
    by_cases hi : i = packEntry p.seq
    · rw [hi] at hinfo ⊢
      simp only [Daemon.insertPacket, Daemon.setSlot, Function.update_self,
        Option.some.injEq] at hinfo
      obtain rfl := hinfo
      exact ⟨rfl, hlo, le_max_right .., hp⟩
    · simp only [Daemon.insertPacket, Daemon.setSlot, Function.update_of_ne hi] at hinfo
      obtain ⟨hentry, hseq, hhighest, hmem⟩ := h.entry i info hinfo
      exact ⟨hentry, hseq, hhighest.trans (le_max_left ..), hmem⟩
  case flag =>
    intro i info hinfo
    by_cases hi : i = packEntry p.seq
    · rw [hi] at hinfo
      simp only [Daemon.insertPacket, Daemon.setSlot, Function.update_self,
        Option.some.injEq] at hinfo
      obtain rfl := hinfo
      exact iff_of_false Bool.false_ne_true hnot
    · simp only [Daemon.insertPacket, Daemon.setSlot, Function.update_of_ne hi] at hinfo
      exact h.flag i info hinfo
  case present => exact fun k hk hk' => hslots k (h.present k hk hk')
  case early_log =>
    intro q hq
    obtain ⟨hmem, hsingle, hhighest⟩ := h.early_log q hq
    exact ⟨hmem, hsingle, hhighest.trans (le_max_left ..)⟩
  case early_held => exact fun q hq hseq => hslots q.seq (h.early_held q hq hseq)
  case early_all => exact h.early_all
  case nodup => exact h.nodup
  case up => exact h.up

/-- A packet is marked as delivered, which is the only change to what has been. -/
theorem mark {del' : Nat} {early' : List Packet} {up' : UpQueue} {k : Nat}
    (h : View log lo del early d) (hslot : d.slot k = some info) (hlo : lo < k)
    (hk : k ≤ lo + maxPacketsInStruct) (hdel : del ≤ del') (hmyAru : del' ≤ d.myAru)
    (hflag : ∀ q ∈ log, (q.seq ≤ del' ∨ q ∈ early') ↔ (q.seq ≤ del ∨ q ∈ early) ∨
      q = info.packet)
    (hearly : ∀ q ∈ early', q ∈ early ∨ (q = info.packet ∧ q.single))
    (hall : ∀ q ∈ log, q.single → q.seq ≤ del' → q ∈ early') (hnodup : early'.Nodup)
    (hup : ∃ v, assemble ((log.take del').filter Packet.ordered) = .ok v ∧
      Agree up' v early') :
    View log lo del' early' { d.setSlot k (some { info with delivered := true }) with up := up' } := by
  obtain ⟨hseq, hhighest, hmem, -⟩ := h.slot_entry hslot hlo hk
  have hslots : ∀ j, (d.slot j).isSome →
      ((d.setSlot k (some { info with delivered := true })).slot j).isSome := by
    intro j hj
    rw [Daemon.slot_setSlot]
    split
    · rfl
    · exact hj
  constructor
  case lo_le => exact h.lo_le.trans hdel
  case del_le => exact hmyAru
  case myAru_le => exact h.myAru_le
  case highest_le => exact h.highest_le
  case window => exact h.window
  case entry =>
    intro i other hother
    by_cases hi : i = packEntry k
    · rw [hi] at hother ⊢
      simp only [Daemon.setSlot, Function.update_self, Option.some.injEq] at hother
      obtain rfl := hother
      exact ⟨congrArg packEntry hseq, by rw [hseq]; exact hlo, by rw [hseq]; exact hhighest, hmem⟩
    · simp only [Daemon.setSlot, Function.update_of_ne hi] at hother
      exact h.entry i other hother
  case flag =>
    intro i other hother
    by_cases hi : i = packEntry k
    · rw [hi] at hother
      simp only [Daemon.setSlot, Function.update_self, Option.some.injEq] at hother
      obtain rfl := hother
      exact iff_of_true rfl ((hflag _ hmem).mpr (.inr rfl))
    · simp only [Daemon.setSlot, Function.update_of_ne hi] at hother
      obtain ⟨hentry, -, -, hmem'⟩ := h.entry i other hother
      have hne : other.packet ≠ info.packet := by
        intro heq
        rw [heq, hseq] at hentry
        exact hi hentry.symm
      rw [h.flag i other hother, hflag _ hmem']
      simp [hne]
  case present => exact fun j hj hj' => hslots j (h.present j hj hj')
  case early_log =>
    intro q hq
    rcases hearly q hq with hold | ⟨rfl, hsingle⟩
    · exact h.early_log q hold
    · exact ⟨hmem, hsingle, by rw [hseq]; exact hhighest⟩
  case early_held =>
    intro q hq hqlo
    rcases hearly q hq with hold | ⟨rfl, -⟩
    · exact hslots _ (h.early_held q hold hqlo)
    · apply hslots
      rw [hseq, hslot]
      rfl
  case early_all => exact hall
  case nodup => exact hnodup
  case up => exact hup

/-- The next packet in order has been delivered early. -/
theorem skip_next (h : View log lo del early d) (hlog : Ordered log)
    (hslot : d.slot (del + 1) = some info) (hold : info.delivered = true)
    (hk : del + 1 ≤ d.myAru) : View log lo (del + 1) early d := by
  have hlo := h.lo_le
  have hbound : del + 1 ≤ lo + maxPacketsInStruct :=
    hk.trans (h.myAru_le.trans (h.highest_le.trans h.window))
  obtain ⟨hseq, -, hmem, hflag⟩ := h.slot_entry hslot (by omega) hbound
  have hearly : info.packet ∈ early := by
    rcases hflag.mp hold with hle | hearly
    · omega
    · exact hearly
  have hsingle := (h.early_log _ hearly).2.1
  have hnext : ∀ q ∈ log, q.seq ≤ del + 1 → q.seq ≤ del ∨ q = info.packet := by
    intro q hq hle
    by_cases hle' : q.seq ≤ del
    · exact .inl hle'
    · exact .inr (hlog.unique hq hmem (by omega))
  have hordered : info.packet.ordered = false := by simp [Packet.ordered, hsingle]
  exact
    { h with
      lo_le := by omega
      del_le := hk
      flag := by
        intro i other hother
        rw [h.flag i other hother]
        constructor
        · rintro (hle | hmem')
          · exact .inl (by omega)
          · exact .inr hmem'
        · rintro (hle | hmem')
          · rcases hnext _ (h.entry i other hother).2.2.2 hle with hle' | heq
            · exact .inl hle'
            · rw [heq]
              exact .inr hearly
          · exact .inr hmem'
      early_all := by
        intro q hq hqs hle
        rcases hnext q hq hle with hle' | rfl
        · exact h.early_all q hq hqs hle'
        · exact hearly
      up := by
        rw [hlog.take_succ hmem hseq, List.filter_append]
        simpa [hordered] using h.up }

/-- The oldest packet is discarded. -/
theorem discard_next (h : View log lo del early d) (hlt : lo < del) :
    View log (lo + 1) del early (d.setSlot (lo + 1) none) := by
  have hbound : ∀ k, k ≤ d.highestSeq → k ≤ lo + maxPacketsInStruct := fun k hk =>
    hk.trans (h.highest_le.trans h.window)
  have hdel := h.del_le
  have hmyAru := h.myAru_le
  have hslots : ∀ k, lo + 1 < k → k ≤ d.highestSeq →
      (d.setSlot (lo + 1) none).slot k = d.slot k := by
    intro k hk hk'
    rw [Daemon.slot_setSlot, if_neg]
    intro hentry
    have hone := hbound (lo + 1) (by omega)
    have heq := packEntry_inj (by omega) (hbound k hk') (by omega) hone hentry
    omega
  constructor
  case lo_le => exact hlt
  case del_le => exact h.del_le
  case myAru_le => exact h.myAru_le
  case highest_le => exact h.highest_le
  case window => exact h.window.trans (by omega)
  case entry =>
    intro i info hinfo
    by_cases hi : i = packEntry (lo + 1)
    · rw [hi] at hinfo
      simp only [Daemon.setSlot, Function.update_self] at hinfo
      cases hinfo
    · simp only [Daemon.setSlot, Function.update_of_ne hi] at hinfo
      obtain ⟨hentry, hseq, hhighest, hmem⟩ := h.entry i info hinfo
      have hne : info.packet.seq ≠ lo + 1 := by
        intro heq
        rw [heq] at hentry
        exact hi hentry.symm
      exact ⟨hentry, by omega, hhighest, hmem⟩
  case flag =>
    intro i info hinfo
    by_cases hi : i = packEntry (lo + 1)
    · rw [hi] at hinfo
      simp only [Daemon.setSlot, Function.update_self] at hinfo
      cases hinfo
    · simp only [Daemon.setSlot, Function.update_of_ne hi] at hinfo
      exact h.flag i info hinfo
  case present =>
    intro k hk hk'
    rw [hslots k hk (hk'.trans hmyAru)]
    exact h.present k (by omega) hk'
  case early_log => exact h.early_log
  case early_held =>
    intro q hq hseq
    rw [hslots q.seq hseq (h.early_log q hq).2.2]
    exact h.early_held q hq (by omega)
  case early_all => exact h.early_all
  case nodup => exact h.nodup
  case up => exact h.up

/-- Delivering changes the packets held and the queues only. -/
def Same (d d' : Daemon) : Prop :=
  d'.rest = d.rest ∧ d'.lastDiscarded = d.lastDiscarded ∧ d'.lastDelivered = d.lastDelivered

/-- The next packet in order is delivered. -/
theorem deliver_next (h : View log lo del early d) (hlog : Ordered log)
    (hslot : d.slot (del + 1) = some info) (hnew : info.delivered = false)
    (hk : del + 1 ≤ d.myAru) :
    Returns (d.deliverPacket (del + 1) info) fun d' =>
      (∃ early', View log lo (del + 1) early' d') ∧ Same d d' := by
  have hlo := h.lo_le
  have hbound : del + 1 ≤ lo + maxPacketsInStruct :=
    hk.trans (h.myAru_le.trans (h.highest_le.trans h.window))
  obtain ⟨hseq, -, hmem, hflag⟩ := h.slot_entry hslot (by omega) hbound
  have hnot : ¬ (del + 1 ≤ del ∨ info.packet ∈ early) := by
    rw [← hflag, hnew]
    exact Bool.false_ne_true
  have hfresh : info.packet ∉ early := fun hmem' => hnot (.inr hmem')
  have hnext : ∀ q ∈ log, q.seq ≤ del + 1 ↔ q.seq ≤ del ∨ q = info.packet := by
    intro q hq
    constructor
    · intro hle
      by_cases hle' : q.seq ≤ del
      · exact .inl hle'
      · exact .inr (hlog.unique hq hmem (by omega))
    · rintro (hle | rfl)
      · omega
      · omega
  obtain ⟨v, hv, hagree⟩ := h.up
  have htake : (log.take (del + 1)).filter Packet.ordered =
      (log.take del).filter Packet.ordered ++ [info.packet].filter Packet.ordered := by
    rw [hlog.take_succ hmem hseq, List.filter_append]
  by_cases hsingle : info.packet.single
  · obtain ⟨up', hpush, hagree'⟩ := hagree.push_single hsingle
    rw [Daemon.deliverPacket_of_push hpush]
    refine .ok ⟨⟨early ++ [info.packet], ?_⟩, rfl, rfl, rfl⟩
    apply h.mark hslot (by omega) hbound (by omega) hk
    case hflag =>
      intro q hq
      rw [hnext q hq, List.mem_append, List.mem_singleton]
      tauto
    case hearly =>
      intro q hq
      rcases List.mem_append.mp hq with hq | hq
      · exact .inl hq
      · obtain rfl := List.mem_singleton.mp hq
        exact .inr ⟨rfl, hsingle⟩
    case hall =>
      intro q hq hqs hle
      rcases (hnext q hq).mp hle with hle | rfl
      · exact List.mem_append_left _ (h.early_all q hq hqs hle)
      · simp
    case hnodup => simpa using h.nodup.concat hfresh
    case hup =>
      have hordered : info.packet.ordered = false := by simp [Packet.ordered, hsingle]
      refine ⟨v, ?_, hagree'⟩
      rw [htake]
      simpa [hordered] using hv
  · have hordered : info.packet.ordered = true := Packet.ordered_iff.mpr hsingle
    obtain ⟨whole, hwhole⟩ := hlog.assembled
    -- the sender's messages come together in the log, so they do here
    have hsplit : log.filter Packet.ordered =
        (log.take del).filter Packet.ordered ++
          (info.packet :: (log.drop (del + 1)).filter Packet.ordered) := by
      conv_lhs => rw [← List.take_append_drop (del + 1) log]
      rw [List.filter_append, htake]
      simp [hordered]
    rw [hsplit] at hwhole
    obtain ⟨v', hv', hrest⟩ := assemble_prefix hwhole
    obtain rfl : v' = v := Except.ok.inj (hv'.symm.trans hv)
    rw [List.foldlM_cons] at hrest
    cases hpush : v'.push info.packet with
    | error e => rw [hpush] at hrest; cases hrest
    | ok next =>
        obtain ⟨up', hpush', hagree'⟩ := hagree.push hordered (hlog.proc _ hmem) hpush
        rw [Daemon.deliverPacket_of_push hpush']
        refine .ok ⟨⟨early, ?_⟩, rfl, rfl, rfl⟩
        apply h.mark hslot (by omega) hbound (by omega) hk
        case hflag =>
          intro q hq
          rw [hnext q hq]
          tauto
        case hearly => exact fun q hq => .inl hq
        case hall =>
          intro q hq hqs hle
          rcases (hnext q hq).mp hle with hle | rfl
          · exact h.early_all q hq hqs hle
          · exact absurd hqs hsingle
        case hnodup => exact h.nodup
        case hup =>
          refine ⟨next, ?_, hagree'⟩
          rw [htake, List.filter_cons_of_pos hordered, List.filter_nil]
          exact assemble_snoc hv hpush

/-- A reliable single packet is delivered ahead of its order. -/
theorem deliver_early {k : Nat} (h : View log lo del early d) (hslot : d.slot k = some info)
    (hnew : info.delivered = false) (hsingle : info.packet.single) (hlo : lo < k)
    (hk : k ≤ lo + maxPacketsInStruct) :
    Returns (d.deliverPacket k info) fun d' => (∃ early', View log lo del early' d') ∧ Same d d' := by
  obtain ⟨hseq, -, hmem, hflag⟩ := h.slot_entry hslot hlo hk
  have hnot : ¬ (k ≤ del ∨ info.packet ∈ early) := by
    rw [← hflag, hnew]
    exact Bool.false_ne_true
  obtain ⟨v, hv, hagree⟩ := h.up
  obtain ⟨up', hpush, hagree'⟩ := hagree.push_single hsingle
  rw [Daemon.deliverPacket_of_push hpush]
  refine .ok ⟨⟨early ++ [info.packet], ?_⟩, rfl, rfl, rfl⟩
  apply h.mark hslot hlo hk le_rfl h.del_le
  case hflag =>
    intro q hq
    rw [List.mem_append, List.mem_singleton]
    tauto
  case hearly =>
    intro q hq
    rcases List.mem_append.mp hq with hq | hq
    · exact .inl hq
    · obtain rfl := List.mem_singleton.mp hq
      exact .inr ⟨rfl, hsingle⟩
  case hall => exact fun q hq hqs hle => List.mem_append_left _ (h.early_all q hq hqs hle)
  case hnodup => simpa using h.nodup.concat fun hmem' => hnot (.inr hmem')
  case hup => exact ⟨v, hv, hagree'⟩

end View

end Netbroker.Ring
