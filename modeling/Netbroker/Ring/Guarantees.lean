import Mathlib.Algebra.Order.BigOperators.Group.Finset
import Netbroker.Ring.Run

/-!
# What a membership guarantees

Whatever the network loses, repeats and delays, the daemons of a membership deliver the
same messages in the same order, each sender's messages in the order in which it was given
them, and a safe message only once all daemons have it. No daemon comes to an alarm.

Each result is about the state that a run has come to, and is read off the invariant and the
log there. What daemons have delivered in order are beginnings of one sequence, which the
packets of the log make. The messages that one packet carries reliably are delivered ahead of
it, each at most once.

The last results are about the means: which copies of the token are taken, what becomes of the
requests for packets, and how many datagrams are sent. Three daemons whose network loses and
repeats serve as an example.
-/

namespace Netbroker.Ring

open Daemon State Transition

variable {n : Nat} {cfg : Config n} {s₀ s t : State n} {trace trace' : List (Event n × Unit)}

/-- The messages that a daemon has delivered in their order. -/
def State.ordered (s : State n) (x : Fin n) : List Delivery :=
  (s.daemons x).up.delivered.filter Delivery.ordered

/-- The reliable messages of one packet that it has delivered. -/
def State.early (s : State n) (x : Fin n) : List Delivery :=
  (s.daemons x).up.delivered.filter fun m => !m.ordered

/-- What the three daemons of the example come to. -/
theorem trioSchedule_run : ∃ trace t,
    (machine trio).Run (Steady trio trioStart) trioStart trace t ∧ t.log.length = 4 ∧
    (t.ordered 0).length = 1 ∧ (t.early 0).length = 1 ∧ (t.ordered 2).length = 2 ∧
    (t.ordered 2)[1]? = some ⟨1, .safe, [[3]]⟩ :=
  Machine.Run.exists_of_exec (machine trio) (Steady trio trioStart) trioStart
    (play trio trioSchedule trioStart)
    (fun _ t => t.log.length = 4 ∧ (t.ordered 0).length = 1 ∧ (t.early 0).length = 1 ∧
      (t.ordered 2).length = 2 ∧ (t.ordered 2)[1]? = some ⟨1, .safe, [[3]]⟩)
    (by decide +kernel)

/-- A daemon has a packet in its array, or it has delivered it and discarded it. -/
def Daemon.Has (d : Daemon) (p : Packet) : Prop :=
  p.seq ≤ d.lastDiscarded ∧ p.seq ≤ d.lastDelivered ∨
    ∃ delivered, d.slot p.seq = some { packet := p, delivered }

/-- What a daemon has delivered, against the log. -/
theorem Inv.deliveries (h : Inv cfg s₀ s) (x : Fin n) :
    (∃ v, assemble ((s.log.take (s.daemons x).lastDelivered).filter Packet.ordered) = .ok v ∧
      s.ordered x = v.delivered) ∧
    ∃ early : List Packet, early.Nodup ∧ (∀ p ∈ early, p ∈ s.log ∧ p.single) ∧
      s.early x = early.map Packet.message := by
  obtain ⟨early, hview⟩ := (h.holding x).view
  obtain ⟨v, hv, hagree⟩ := hview.up
  refine ⟨⟨v, hv, hagree.delivered⟩, early, hview.nodup, fun p hp => ?_, hagree.messages⟩
  obtain ⟨hmem, hsingle, -⟩ := hview.early_log p hp
  exact ⟨hmem, hsingle⟩

/-- The packets up to `My_aru` are there. -/
theorem Inv.has (h : Inv cfg s₀ s) {x : Fin n} {p : Packet} (hp : p ∈ s.log)
    (hle : p.seq ≤ (s.daemons x).myAru) : (s.daemons x).Has p := by
  obtain ⟨⟨early, hview⟩, hdiscarded, -⟩ := h.holding x
  have hlo := hview.lo_le
  by_cases hold : p.seq ≤ (s.daemons x).aru
  · left
    omega
  · right
    have hmyAru := hview.myAru_le
    have hhighest := hview.highest_le
    have hwindow := hview.window
    obtain ⟨info, hinfo⟩ := Option.isSome_iff_exists.mp (hview.present p.seq (by omega) hle)
    obtain ⟨hseq, -, hmem, -⟩ := hview.slot_entry hinfo (by omega) (by omega)
    rw [h.ordered.unique hp hmem hseq.symm]
    exact ⟨info.delivered, by rw [hseq, hinfo]⟩

theorem exists_succ (y : Fin n) : ∃ x, succ x = y :=
  Finite.injective_iff_surjective.mp (fun _ _ => succ_inj) y

/-- What is safe for one daemon is below the mark of each. -/
theorem Inv.aru_le (h : Inv cfg s₀ s) (x y : Fin n) : (s.daemons x).aru ≤ (s.daemons y).myAru := by
  obtain ⟨z, hz⟩ := exists_succ s.next
  exact (h.last z hz).sound.safe_mark x y

theorem State.log_prefix_handle (s : State n) (e : Event n) : s.log <+: (s.handle cfg e).log := by
  have hact : ∀ x r, s.log <+: (s.act x r).log := by
    intro x r
    cases r with
    | error e => exact List.prefix_rfl
    | ok o =>
        rw [act_ok_log]
        exact List.prefix_append ..
  cases e <;> exact hact _ _

/-- The log only grows. -/
theorem log_prefix_run {legal : State n → Event n → Prop}
    (run : (machine cfg).Run legal s trace t) : s.log <+: t.log := by
  refine run.invariant (I := fun a => s.log <+: a.log) List.prefix_rfl fun a e b _ ha _ hstep => ?_
  simp only [machine] at hstep
  split at hstep
  · obtain ⟨rfl, -⟩ := Prod.mk.inj (Option.some.inj hstep)
    exact ha.trans (a.log_prefix_handle e)
  · cases hstep

/-- The messages that one daemon has delivered in their order, and those that another one
has delivered then or later: one has begun what the other has gone on with. -/
theorem agreement (hstart : Start s₀) (run : (machine cfg).Run (Steady cfg s₀) s₀ trace s)
    (later : (machine cfg).Run (Steady cfg s₀) s trace' t) (x y : Fin n) :
    s.ordered x <+: t.ordered y ∨ t.ordered y <+: s.ordered x := by
  have hs := run_inv hstart run
  have ht := run_inv hstart (run.trans later)
  obtain ⟨⟨v, hv, hx⟩, -⟩ := hs.deliveries x
  obtain ⟨⟨w, hw, hy⟩, -⟩ := ht.deliveries y
  obtain ⟨early, hview⟩ := (hs.holding x).view
  have hdel : (s.daemons x).lastDelivered ≤ s.log.length :=
    hview.del_le.trans (hview.myAru_le.trans hview.highest_le)
  obtain ⟨rest, hrest⟩ := log_prefix_run later
  have htake : t.log.take (s.daemons x).lastDelivered = s.log.take (s.daemons x).lastDelivered := by
    rw [← hrest, List.take_append_of_le_length hdel]
  rw [← htake] at hv
  rw [hx, hy]
  rcases Nat.le_total (s.daemons x).lastDelivered (t.daemons y).lastDelivered with hle | hle
  · exact .inl (delivered_comparable hv hw hle)
  · exact .inr (delivered_comparable hw hv hle)

theorem agreement_trio : ∃ trace t, (machine trio).Run (Steady trio trioStart) trioStart trace t ∧
    (t.ordered 0).length = 1 ∧ (t.ordered 2).length = 2 ∧
    (t.ordered 0 <+: t.ordered 2 ∨ t.ordered 2 <+: t.ordered 0) := by
  obtain ⟨trace, t, run, -, hfirst, -, hlast, -⟩ := trioSchedule_run
  exact ⟨trace, t, run, hfirst, hlast, agreement start_trio run .nil 0 2⟩

/-- The packets that complete what a daemon has delivered in order. -/
theorem Inv.completes (h : Inv cfg s₀ s) {x : Fin n} {i : Nat} {m : Delivery}
    (hm : (s.ordered x)[i]? = some m) :
    ∃ p ∈ s.log, p.seq ≤ (s.daemons x).lastDelivered ∧ p.ordered = true ∧
      p.procId = m.procIndex ∧ p.type = m.type ∧
      ∃ first, assemble ((s.log.take p.seq).filter Packet.ordered) = .ok first ∧
        first.delivered = (s.ordered x).take (i + 1) := by
  obtain ⟨⟨v, hv, hx⟩, -⟩ := h.deliveries x
  rw [hx] at hm ⊢
  obtain ⟨a, p, b, first, hlog, hp, hqueue, htype, hfirst, htake⟩ := completed hv hm
  have hget : (s.log.take (s.daemons x).lastDelivered)[a.length]? = some p := by
    rw [hlog]
    simp
  have hlt : a.length < (s.daemons x).lastDelivered := by
    by_contra hge
    rw [List.getElem?_take, if_neg hge] at hget
    cases hget
  rw [List.getElem?_take, if_pos hlt] at hget
  have hseq := h.ordered.number a.length p hget
  have hfirst' : s.log.take p.seq = a ++ [p] := by
    have hshort : s.log.take p.seq = (s.log.take (s.daemons x).lastDelivered).take p.seq := by
      rw [List.take_take, Nat.min_eq_left (by omega)]
    rw [hshort, hlog, hseq]
    simp [List.take_append]
  rw [Packet.queue_of_not_single (Packet.ordered_iff.mp hp)] at hqueue
  refine ⟨p, List.mem_of_getElem? hget, by omega, hp, hqueue, htype, first, ?_, htake⟩
  rw [hfirst']
  exact hfirst

/-- Once a daemon has delivered a safe message, each daemon has all packets of the message
and of those ahead of it. -/
theorem safe_stable (hstart : Start s₀) (run : (machine cfg).Run (Steady cfg s₀) s₀ trace s)
    {x : Fin n} {i : Nat} {m : Delivery} (hm : (s.ordered x)[i]? = some m)
    (hsafe : m.type = .safe) :
    ∃ k first, assemble ((s.log.take k).filter Packet.ordered) = .ok first ∧
      first.delivered = (s.ordered x).take (i + 1) ∧
      ∀ y, ∀ p ∈ s.log, p.seq ≤ k → (s.daemons y).Has p := by
  have h := run_inv hstart run
  obtain ⟨p, hp, hle, -, -, htype, first, hfirst, htake⟩ := h.completes hm
  have haru := (h.holding x).safe p hp (htype.trans hsafe) hle
  refine ⟨p.seq, first, hfirst, htake, fun y q hq hqle => h.has hq ?_⟩
  have hall := h.aru_le x y
  omega

theorem safe_stable_trio : ∃ trace t,
    (machine trio).Run (Steady trio trioStart) trioStart trace t ∧
    (t.ordered 2)[1]? = some ⟨1, .safe, [[3]]⟩ ∧
    ∃ k first, assemble ((t.log.take k).filter Packet.ordered) = .ok first ∧
      first.delivered = (t.ordered 2).take 2 ∧
      ∀ y, ∀ p ∈ t.log, p.seq ≤ k → (t.daemons y).Has p := by
  obtain ⟨trace, t, run, -, -, -, -, hm⟩ := trioSchedule_run
  exact ⟨trace, t, run, hm, safe_stable start_trio run hm rfl⟩

/-- The second turn of the daemon that had the first one has to be informed. Here the last
daemon has received none of three safe messages, and sets the token to the value that the
first one has left in `Set_aru`. The first one raises it, and the second one delivers. -/
theorem safe_not_stable : ∃ trace t, (machine trio).Run Legal trioStart trace t ∧
    (∃ m ∈ t.ordered 1, m.type = .safe) ∧ (t.daemons 2).myAru = 0 ∧
    ∀ q, q ≤ 3 → (t.daemons 2).slot q = none :=
  Machine.Run.exists_of_exec (machine trio) Legal trioStart
    (play trio [fun _ => .newMessage 1 ⟨.safe, [[1]]⟩, fun _ => .newMessage 1 ⟨.safe, [[2]]⟩,
      fun _ => .newMessage 1 ⟨.safe, [[3]]⟩, turnEvent, turnEvent, turnEvent,
      bcastEvent 0 [1, 2, 3], turnEvent, turnEvent] trioStart)
    (fun _ t => (∃ m ∈ t.ordered 1, m.type = .safe) ∧ (t.daemons 2).myAru = 0 ∧
      ∀ q, q ≤ 3 → (t.daemons 2).slot q = none) (by decide +kernel)

/-- What a daemon has delivered in order comes from the members, and of each it is a
beginning of what that member was given. -/
theorem fifo (hstart : Start s₀) (run : (machine cfg).Run (Steady cfg s₀) s₀ trace s)
    (x : Fin n) :
    (∀ m ∈ s.ordered x, ∃ y : Fin n, m.procIndex = y) ∧
      ∀ y : Fin n, (s.ordered x).filter (fun m => m.procIndex = y.val) <+:
        ((s.submitted y).filter DownLink.ordered).map (DownLink.delivery y) := by
  have h := run_inv hstart run
  refine ⟨fun m hm => ?_, fun y => ?_⟩
  · obtain ⟨i, hi⟩ := List.mem_iff_getElem?.mp hm
    obtain ⟨p, hp, -, -, hproc, -⟩ := h.completes hi
    exact ⟨⟨p.procId, h.senders p hp⟩, hproc.symm⟩
  · obtain ⟨⟨v, hv, hx⟩, -⟩ := h.deliveries x
    obtain ⟨up, hup, hfeeds⟩ := h.feeds
    obtain ⟨sent, hsent, hdelivered, -⟩ := (hfeeds y).delivered
    have hwhole : assemble ((s.log.take s.log.length).filter Packet.ordered) = .ok up := by
      rw [List.take_length]
      exact hup
    obtain ⟨early, hview⟩ := (h.holding x).view
    have hdel : (s.daemons x).lastDelivered ≤ s.log.length :=
      hview.del_le.trans (hview.myAru_le.trans hview.highest_le)
    rw [hx]
    refine ((delivered_comparable hv hwhole hdel).filter _).trans ?_
    rw [hdelivered, hsent, List.filter_append, List.map_append]
    exact List.prefix_append ..

theorem fifo_trio : ∃ trace t, (machine trio).Run (Steady trio trioStart) trioStart trace t ∧
    (∀ m ∈ t.ordered 2, ∃ y : Fin 3, m.procIndex = y) ∧
    ∀ y : Fin 3, (t.ordered 2).filter (fun m => m.procIndex = y.val) <+:
      ((t.submitted y).filter DownLink.ordered).map (DownLink.delivery y) := by
  obtain ⟨trace, t, run, -⟩ := trioSchedule_run
  exact ⟨trace, t, run, fifo start_trio run 2⟩

/-- The reliable messages of one packet that a daemon has delivered are those of packets
that differ from each other. Such packets come from the members, and those of a member
are a beginning of what it was given. -/
theorem reliable_once (hstart : Start s₀) (run : (machine cfg).Run (Steady cfg s₀) s₀ trace s)
    (x : Fin n) :
    (∃ early : List Packet, early.Nodup ∧ s.early x = early.map Packet.message ∧
      ∀ p ∈ early, ∃ y : Fin n, p ∈ s.log.filter (Packet.singleOf y)) ∧
    ∀ y : Fin n, (s.log.filter (Packet.singleOf y)).map Packet.message <+:
      ((s.submitted y).filter fun m => !m.ordered).map (DownLink.delivery maxProcsRing) := by
  have h := run_inv hstart run
  obtain ⟨-, early, hnodup, hmem, hearly⟩ := h.deliveries x
  refine ⟨⟨early, hnodup, hearly, fun p hp => ?_⟩, fun y => ?_⟩
  · obtain ⟨hlog, hsingle⟩ := hmem p hp
    refine ⟨⟨p.procId, h.senders p hlog⟩, List.mem_filter.mpr ⟨hlog, ?_⟩⟩
    simp [Packet.singleOf, hsingle]
  · obtain ⟨up, -, hfeeds⟩ := h.feeds
    obtain ⟨sent, hsent, -, hsingles⟩ := (hfeeds y).delivered
    rw [hsingles, hsent, List.filter_append, List.map_append]
    exact List.prefix_append ..

theorem reliable_once_trio : ∃ trace t,
    (machine trio).Run (Steady trio trioStart) trioStart trace t ∧ (t.early 0).length = 1 ∧
    (∃ early : List Packet, early.Nodup ∧ t.early 0 = early.map Packet.message ∧
      ∀ p ∈ early, ∃ y : Fin 3, p ∈ t.log.filter (Packet.singleOf y)) ∧
    ∀ y : Fin 3, (t.log.filter (Packet.singleOf y)).map Packet.message <+:
      ((t.submitted y).filter fun m => !m.ordered).map (DownLink.delivery maxProcsRing) := by
  obtain ⟨trace, t, run, -, -, hearly, -⟩ := trioSchedule_run
  exact ⟨trace, t, run, hearly, reliable_once start_trio run 0⟩

/-- No daemon comes to an alarm, and no number shares an entry of the array with another
one that is in use. -/
theorem no_alarm (hstart : Start s₀) (run : (machine cfg).Run (Steady cfg s₀) s₀ trace s)
    (x : Fin n) :
    s.exits x = none ∧ s.log.length ≤ (s.daemons x).aru + seqWidth ∧
      ∀ q info, (s.daemons x).aru < q → q ≤ s.log.length → (s.daemons x).slot q = some info →
        info.packet.seq = q ∧ info.packet ∈ s.log := by
  have h := run_inv hstart run
  have hwidth := h.width x
  refine ⟨h.exits x, hwidth, fun q info hlo hq hinfo => ?_⟩
  obtain ⟨early, hview⟩ := (h.holding x).view
  have hsize : seqWidth ≤ maxPacketsInStruct := by decide
  obtain ⟨hseq, -, hmem, -⟩ := hview.slot_entry hinfo hlo (by omega)
  exact ⟨hseq, hmem⟩

theorem no_alarm_trio : ∃ trace t, (machine trio).Run (Steady trio trioStart) trioStart trace t ∧
    t.log.length = 4 ∧ t.exits 1 = none ∧ t.log.length ≤ (t.daemons 1).aru + seqWidth ∧
      ∀ q info, (t.daemons 1).aru < q → q ≤ t.log.length → (t.daemons 1).slot q = some info →
        info.packet.seq = q ∧ info.packet ∈ t.log := by
  obtain ⟨trace, t, run, hlength, -⟩ := trioSchedule_run
  exact ⟨trace, t, run, hlength, no_alarm start_trio run 1⟩

/-- Of all copies of the token, a daemon takes those of its predecessor's last turn, when
the next turn is its own. The token it takes knows the last number given out. -/
theorem token_current (hstart : Start s₀) (run : (machine cfg).Run (Steady cfg s₀) s₀ trace s)
    {x : Fin n} {c : TokenCopy n} (hc : c ∈ s.tokens) (hx : succ c.src = x)
    (hfresh : s.round < c.round + 14) :
    ((s.daemons x).Takes (cfg.my x) c.token ↔
      c.token.seq ≤ maxWrapSequenceValue ∧ x = s.next ∧ c.round = s.turnOf c.src) ∧
    ((s.daemons x).Takes (cfg.my x) c.token → c.token.seq = s.log.length ∧
      ∃ o, (s.daemons x).handleToken (cfg.my x) c.token = .ok o ∧ o.turn = true) := by
  have h := run_inv hstart run
  refine ⟨⟨fun htakes => ?_, fun ⟨hseq, hnext, hcurrent⟩ => ?_⟩, fun htakes => ?_⟩
  · obtain ⟨hnext, hcurrent⟩ := h.rounds.of_takes hc hx hfresh htakes
    exact ⟨htakes.1, hnext, hcurrent⟩
  · exact ⟨hseq, h.rounds.takes_arq hc hx hnext hcurrent⟩
  · obtain ⟨-, hvalid, o, ho, hturn, -⟩ := h.takes hc hx hfresh htakes
    exact ⟨hvalid.seq, o, ho, hturn.turn⟩

theorem token_current_trio : ∃ trace s c old,
    (machine trio).Run (Steady trio trioStart) trioStart trace s ∧
    c ∈ s.tokens ∧ old ∈ s.tokens ∧ 0 < s.log.length ∧
    ¬ (s.daemons 0).Takes (trio.my 0) old.token ∧ c.token.seq = s.log.length ∧
    ∃ o, (s.daemons 0).handleToken (trio.my 0) c.token = .ok o ∧ o.turn = true := by
  obtain ⟨trace, s, run, hlog, ⟨c, hc, hx, hfresh, hle, hnext, hcurrent, -⟩,
    old, hold, hx', hfresh', hpast⟩ := trioLosses_run
  obtain ⟨htakes, hturn⟩ := token_current start_trio run hc hx hfresh
  obtain ⟨hseq, o, ho, hown⟩ := hturn (htakes.mpr ⟨hle, hnext, hcurrent⟩)
  have hstale := (token_current start_trio run hold hx' hfresh').1
  exact ⟨trace, s, c, old, run, hc, hold, hlog, fun h => hpast (hstale.mp h).2.2, hseq, o, ho, hown⟩

/-- On its turn a daemon sends again what it has of the packets asked for, and of the
others it asks itself for those that its requests reach. -/
theorem requests_kept (hstart : Start s₀) (run : (machine cfg).Run (Steady cfg s₀) s₀ trace s)
    {x : Fin n} {c : TokenCopy n} (hc : c ∈ s.tokens) (hx : succ c.src = x)
    (hfresh : s.round < c.round + 14) (htakes : (s.daemons x).Takes (cfg.my x) c.token) :
    ∃ o, (s.daemons x).handleToken (cfg.my x) c.token = .ok o ∧
      o.bcasts.map Packet.seq =
        (asked (cfg.my x) c.token.rtr).filter (fun q => ((s.daemons x).slot q).isSome) ++
          o.created.map Packet.seq ∧
      (∀ p ∈ o.bcasts, p ∈ s.log ++ o.created) ∧
      ∀ q ∈ asked (cfg.my x) c.token.rtr, (s.daemons x).slot q = none →
        q ∈ asked (cfg.my x) o.daemon.lastToken.rtr ∨
          o.daemon.myAru +
            requestRoom (c.token.rtr.filter fun r => r.membId ≠ cfg.membId) < q := by
  have h := run_inv hstart run
  obtain ⟨-, -, o, ho, hturn, -⟩ := h.takes hc hx hfresh htakes
  exact ⟨o, ho, hturn.answered, hturn.bcasts, hturn.again⟩

theorem requests_kept_trio : ∃ trace s c o,
    (machine trio).Run (Steady trio trioStart) trioStart trace s ∧ c ∈ s.tokens ∧
    asked (trio.my 0) c.token.rtr = [1, 3] ∧
    (s.daemons 0).handleToken (trio.my 0) c.token = .ok o ∧
    o.bcasts.map Packet.seq =
      [1, 3].filter (fun q => ((s.daemons 0).slot q).isSome) ++ o.created.map Packet.seq := by
  obtain ⟨trace, s, run, -, ⟨c, hc, hsrc, hfresh, -, -, -, htakes, hasked⟩, -⟩ := trioLosses_run
  obtain ⟨o, ho, hbcasts, -⟩ := requests_kept start_trio run hc hsrc hfresh htakes
  rw [hasked] at hbcasts
  exact ⟨trace, s, c, o, run, hc, hasked, ho, hbcasts⟩

/-- The datagrams of new packets in the last turns of all daemons. -/
def State.numSent (s : State n) : Nat := ∑ x, (s.daemons x).lastNumSent

/-- No count is negative. -/
theorem State.numSent_le (s : State n) : (s.numSent : Int) ≤ s.sentInRound := by
  rw [numSent, sentInRound, List.sum_ofFn, Nat.cast_sum]
  exact Finset.sum_le_sum fun x _ => by omega

theorem State.numSent_update {x : Fin n} {d : Daemon}
    (hdaemons : t.daemons = Function.update s.daemons x d) :
    t.numSent + (s.daemons x).lastNumSent = s.numSent + d.lastNumSent := by
  have hcount := Function.comp_update Daemon.lastNumSent s.daemons x d
  have hsum := Finset.sum_update_of_mem (Finset.mem_univ x)
    (fun y => (s.daemons y).lastNumSent) d.lastNumSent
  have hrest := Finset.sum_sdiff (Finset.subset_univ {x}) (f := fun y => (s.daemons y).lastNumSent)
  rw [Finset.sum_singleton] at hrest
  have hnew : t.numSent = ∑ y, Function.update (fun y => (s.daemons y).lastNumSent) x
      d.lastNumSent y := by
    rw [numSent, hdaemons]
    exact Finset.sum_congr rfl fun y _ => congrFun hcount y
  rw [hnew, hsum, numSent]
  omega

/-- A turn sends no more than the window leaves. -/
theorem maxSent_fcAllowed (d : Daemon) (flow : Int) :
    (maxSent (d.fcAllowed flow) : Int) ≤ max 0 (window + personalWindow + 1 - flow) := by
  have hallowed : (d.fcAllowed flow : Int) ≤ max 0 (window + personalWindow - flow) := by
    simp only [fcAllowed, window, personalWindow]
    split_ifs <;> omega
  rw [maxSent]
  split <;> omega

/-- As long as the counts fit into the token's field, the last turns of all daemons put no
more datagrams of new packets on the network than the window allows, unless there were
more when the membership began. -/
theorem flow_window (hstart : Start s₀)
    (run : (machine cfg).Run (fun a e => Steady cfg s₀ a e ∧ a.sentInRound < 2 ^ 15) s₀ trace s) :
    s.numSent ≤ max s₀.numSent (window + personalWindow + 1) := by
  refine (run.invariant (I := fun a => Inv cfg s₀ a ∧
    a.numSent ≤ max s₀.numSent (window + personalWindow + 1)) ⟨hstart.inv, le_max_left ..⟩ ?_).2
  rintro a e b _ ⟨ha, hle⟩ ⟨hsteady, hfits⟩ hstep
  simp only [machine] at hstep
  split at hstep
  · rename_i henabled
    obtain ⟨rfl, -⟩ := Prod.mk.inj (Option.some.inj hstep)
    refine ⟨ha.handle henabled hsteady, ?_⟩
    rcases ha.handle_cases henabled hsteady with
      ⟨d, hdaemons, hbetween, -⟩ | ⟨x, c, o, -, -, hvalid, hturn, heq⟩
    · have hsum := numSent_update hdaemons
      rw [hbetween.numSent] at hsum
      omega
    · -- the token carries the sum of all counts
      have hsum := numSent_update (s := a) (t := a.act x (.ok o)) act_ok_daemons
      have hsent : (o.daemon.lastNumSent : Int) ≤
          max 0 (window + personalWindow + 1 - c.token.flowControl) :=
        (Int.ofNat_le.mpr hturn.sent).trans (maxSent_fcAllowed _ _)
      have hcount := a.numSent_le
      have hflow : c.token.flowControl = a.sentInRound := by
        rw [hvalid.flow, int16]
        exact Int.bmod_eq_of_le (by omega) (by omega)
      rw [heq]
      omega
  · cases hstep

theorem flow_window_trio : ∃ trace t, (machine trio).Run
    (fun a e => Steady trio trioStart a e ∧ a.sentInRound < 2 ^ 15) trioStart trace t ∧
    t.numSent = 3 ∧ t.numSent ≤ max trioStart.numSent (window + personalWindow + 1) := by
  obtain ⟨trace, t, run, hsent⟩ := Machine.Run.exists_of_exec (machine trio)
    (fun a e => Steady trio trioStart a e ∧ a.sentInRound < 2 ^ 15) trioStart
    (play trio trioLosses trioStart) (fun _ t => t.numSent = 3) (by decide +kernel)
  exact ⟨trace, t, run, hsent, flow_window start_trio run⟩

end Netbroker.Ring
