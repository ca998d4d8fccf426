import Netbroker.Broadcast.Order
import Netbroker.Ring.Guarantees

/-!
# The daemons broadcast in one order

A run of the daemons is a run of `Broadcast`: the order is that of the messages which the
packets of the log make, a process has received what is complete up to its `My_aru`, and it
has delivered what its daemon has pushed up. A turn orders the messages whose last packets it
creates.

`SameOrder` is about the order and what waits for a place in it, `SamePlace` about how far
each process is. A step of a daemon corresponds to a run of the group in which, in turn,
messages get their places, are received and are delivered.
-/

namespace Netbroker.Ring

open Daemon State Transition

variable {n : Nat} {cfg : Config n} {s₀ s t : State n} {x : Fin n}

theorem DownLink.delivery_injective (y : Nat) : Function.Injective (DownLink.delivery y) := by
  intro m m' h
  obtain ⟨-, htype, hmess⟩ := Delivery.mk.inj h
  exact DownLink.ext htype hmess

/-- The number of messages that the packets of a log complete. -/
def messages (log : List Packet) : Nat :=
  match assemble (log.filter Packet.ordered) with
  | .ok up => up.delivered.length
  | .error _ => 0

theorem messages_of_assemble {log : List Packet} {up : UpQueue}
    (h : assemble (log.filter Packet.ordered) = .ok up) :
    messages log = up.delivered.length := by
  rw [messages, h]

/-- The packets of one daemon complete messages of that daemon. -/
theorem delivered_of_proc {new : List Packet} {up up' : UpQueue} {y : Nat}
    (hnew : ∀ p ∈ new, p.procId = y)
    (hpush : (new.filter Packet.ordered).foldlM UpQueue.push up = .ok up') :
    ∃ added, up'.delivered = up.delivered ++ added ∧ ∀ m ∈ added, m.procIndex = y := by
  induction new generalizing up with
  | nil =>
      obtain rfl : up = up' := Except.ok.inj hpush
      exact ⟨[], (List.append_nil _).symm, fun m hm => absurd hm List.not_mem_nil⟩
  | cons p rest ih =>
      have hp := hnew p List.mem_cons_self
      have hrest : ∀ q ∈ rest, q.procId = y := fun q hq => hnew q (List.mem_cons_of_mem _ hq)
      by_cases hordered : p.ordered = true
      · rw [List.filter_cons_of_pos hordered, List.foldlM_cons] at hpush
        cases hone : up.push p with
        | error e => rw [hone] at hpush; cases hpush
        | ok next =>
            rw [hone] at hpush
            obtain ⟨added, hadded, hproc⟩ := ih hrest hpush
            have hqueue : p.queue = y := by
              rw [Packet.queue_of_not_single (Packet.ordered_iff.mp hordered), hp]
            obtain ⟨-, ⟨-, -, hdelivered⟩ | ⟨-, -, hdelivered⟩⟩ := UpQueue.push_cases hone
            · refine ⟨⟨p.queue, p.type, (up.parts p.queue).getD [] ++ [p.body]⟩ :: added, ?_, ?_⟩
              · rw [hadded, hdelivered, List.append_assoc]
                rfl
              · intro m hm
                rcases List.mem_cons.mp hm with rfl | hm
                · exact hqueue
                · exact hproc m hm
            · exact ⟨added, by rw [hadded, hdelivered], hproc⟩
      · rw [List.filter_cons_of_neg hordered] at hpush
        exact ih hrest hpush

abbrev Group (n : Nat) := Broadcast.State (Fin n) DownLink

/-- A safe message waits until all have it. -/
def DownLink.safe (m : DownLink) : Prop := m.type = .safe

/-- A message of the order as the daemons deliver it. -/
def delivery (p : Fin n × DownLink) : Delivery := p.2.delivery p.1

/-- The order, and what waits for its place in it. -/
structure SameOrder (s : State n) (a : Group n) : Prop where
  order : ∃ up, assemble (s.log.filter Packet.ordered) = .ok up ∧
    up.delivered = a.order.map delivery
  fifo : ∀ y, (a.order.filter fun p => p.1 = y).map Prod.snd ++ a.pending y =
    (s.submitted y).filter DownLink.ordered

/-- How far a process is. -/
structure SamePlace (s : State n) (a : Group n) (y : Fin n) : Prop where
  received : a.received y = messages (s.log.take (s.daemons y).myAru)
  delivered : a.delivered y = (s.ordered y).length

structure Refined (s : State n) (a : Group n) : Prop extends SameOrder s a where
  place : ∀ y, SamePlace s a y

/-- What is complete in a beginning of the log. -/
theorem Inv.assemble_take (h : Inv cfg s₀ s) (k : Nat) :
    ∃ v, assemble ((s.log.take k).filter Packet.ordered) = .ok v := by
  obtain ⟨up, hup, -⟩ := h.feeds
  rw [← List.take_append_drop k s.log, List.filter_append] at hup
  obtain ⟨v, hv, -⟩ := assemble_prefix hup
  exact ⟨v, hv⟩

theorem Inv.messages_mono (h : Inv cfg s₀ s) {j k : Nat} (hle : j ≤ k) :
    messages (s.log.take j) ≤ messages (s.log.take k) := by
  obtain ⟨v, hv⟩ := h.assemble_take j
  obtain ⟨w, hw⟩ := h.assemble_take k
  rw [messages_of_assemble hv, messages_of_assemble hw]
  exact (delivered_comparable hv hw hle).length_le

/-- What a daemon has delivered is complete in the packets up to its `My_aru`. -/
theorem Inv.ordered_length_le (h : Inv cfg s₀ s) (x : Fin n) :
    (s.ordered x).length ≤ messages (s.log.take (s.daemons x).myAru) := by
  obtain ⟨⟨v, hv, hx⟩, -⟩ := h.deliveries x
  obtain ⟨early, hview⟩ := (h.holding x).view
  rw [hx, ← messages_of_assemble hv]
  exact h.messages_mono hview.del_le

/-- A safe message that a daemon has delivered is complete at all. -/
theorem Inv.safe_received (h : Inv cfg s₀ s) {i : Nat} {m : Delivery}
    (hm : (s.ordered x)[i]? = some m) (hsafe : m.type = .safe) (y : Fin n) :
    i < messages (s.log.take (s.daemons y).myAru) := by
  obtain ⟨p, hp, hle, -, -, htype, first, hfirst, htake⟩ := h.completes hm
  obtain ⟨hlt, -⟩ := List.getElem?_eq_some_iff.mp hm
  have haru := (h.holding x).safe p hp (htype.trans hsafe) hle
  have hmono := h.messages_mono (haru.trans (h.aru_le x y))
  rw [messages_of_assemble hfirst, htake, List.length_take] at hmono
  omega

/-- A process receives and delivers what its daemon has received and delivered. -/
theorem Inv.catchUp {a : Group n} (h : Inv cfg s₀ s) (horder : SameOrder s a)
    (hothers : ∀ y, y ≠ x → SamePlace s a y)
    (hreceived : a.received x ≤ messages (s.log.take (s.daemons x).myAru))
    (hdelivered : a.delivered x ≤ (s.ordered x).length) :
    ∃ trace b, Broadcast.submissions trace = [] ∧
      (Broadcast.machine DownLink.safe).Run (fun _ _ => True) a trace b ∧ Refined s b := by
  obtain ⟨up, hup, hdel⟩ := horder.order
  obtain ⟨k, hk⟩ := Nat.exists_eq_add_of_le hreceived
  obtain ⟨j, hj⟩ := Nat.exists_eq_add_of_le hdelivered
  have hlength : messages s.log = a.order.length := by
    rw [messages_of_assemble hup, hdel, List.length_map]
  have htop : ∀ y, messages (s.log.take (s.daemons y).myAru) ≤ a.order.length := by
    intro y
    obtain ⟨early, hview⟩ := (h.holding y).view
    have hmono := h.messages_mono (hview.myAru_le.trans hview.highest_le)
    rwa [List.take_length, hlength] at hmono
  obtain ⟨trace, hnone, run⟩ := Broadcast.run_receive DownLink.safe (hk ▸ htop x)
  let b : Group n := { a with received := Function.update a.received x (a.received x + k) }
  have hb : ∀ y, b.received y = messages (s.log.take (s.daemons y).myAru) := by
    intro y
    by_cases hy : y = x
    · rw [hy, hk]
      exact Function.update_self ..
    · rw [← (hothers y hy).received]
      exact Function.update_of_ne hy ..
  have hwithin : b.delivered x + j ≤ b.received x := by
    rw [hb x]
    exact hj ▸ h.ordered_length_le x
  obtain ⟨trace', hnone', run'⟩ := Broadcast.run_deliver DownLink.safe hwithin (by
    intro i _ hi p hp hsafe y
    -- the message is one that the daemon has delivered
    obtain ⟨⟨v, hv, hx⟩, -⟩ := h.deliveries x
    obtain ⟨early, hview⟩ := (h.holding x).view
    have hprefix : s.ordered x <+: a.order.map delivery := by
      rw [hx, ← hdel]
      refine delivered_comparable hv (k := s.log.length) ?_
        (hview.del_le.trans (hview.myAru_le.trans hview.highest_le))
      rwa [List.take_length]
    have hi' : i < (s.ordered x).length := by
      rw [hj]
      exact hi
    have hget : (s.ordered x)[i]? = some (delivery p) := by
      obtain ⟨rest, hrest⟩ := hprefix
      have hwhole : (s.ordered x ++ rest)[i]? = (s.ordered x)[i]? :=
        List.getElem?_append_left hi'
      rw [← hwhole, hrest, List.getElem?_map, hp]
      rfl
    rw [hb y]
    exact h.safe_received hget hsafe y)
  refine ⟨trace ++ trace', _, ?_, run.trans run', ⟨⟨up, hup, hdel⟩, horder.fifo⟩, fun y => ?_⟩
  · rw [Broadcast.submissions_append, hnone, hnone']
    rfl
  · refine ⟨hb y, ?_⟩
    by_cases hy : y = x
    · rw [hy, hj]
      exact Function.update_self ..
    · rw [← (hothers y hy).delivered]
      exact Function.update_of_ne hy ..

/-- A turn gives the messages that its packets complete their places in the order. -/
theorem SameOrder.turn {a : Group n} {o : Outcome} {c : Token} (h : Inv cfg s₀ s)
    (horder : SameOrder s a)
    (hturn : Turn (cfg.my x) s.log (s.submitted x) (s.daemons x) c o) :
    ∃ l rest, a.pending x = l ++ rest ∧ SameOrder (s.act x (.ok o))
      { a with
        pending := Function.update a.pending x rest
        order := a.order ++ l.map fun m => (x, m) } := by
  obtain ⟨up, hup, hdel⟩ := horder.order
  obtain ⟨first, hfirst, hfeeds⟩ := h.feeds
  obtain rfl : first = up := Except.ok.inj (hfirst.symm.trans hup)
  obtain ⟨up', hup', hown⟩ := hturn.feeds
  have hpush := hup'
  rw [List.filter_append] at hpush
  obtain ⟨second, hsecond, hpush⟩ := assemble_prefix hpush
  obtain rfl : second = first := Except.ok.inj (hsecond.symm.trans hup)
  obtain ⟨added, hadded, hproc⟩ := delivered_of_proc hturn.proc hpush
  obtain ⟨sent', hsent', hdelivered', -⟩ := hown.delivered
  -- all that the daemon has sent is in the order, and then comes what it sends now
  have hold : second.delivered.filter (fun m => m.procIndex = x.val) =
      ((a.order.filter fun p => p.1 = x).map Prod.snd).map (DownLink.delivery x) := by
    rw [hdel, List.filter_map, List.map_map]
    have hmap : ∀ l : List (Fin n × DownLink),
        (l.filter ((fun m => decide (m.procIndex = x.val)) ∘ delivery)).map delivery =
          (l.filter fun p => p.1 = x).map (DownLink.delivery x ∘ Prod.snd) := by
      intro l
      have hcond : ((fun m : Delivery => decide (m.procIndex = x.val)) ∘ delivery) =
          fun p : Fin n × DownLink => decide (p.1 = x) := by
        funext p
        exact decide_eq_decide.mpr Fin.ext_iff.symm
      rw [hcond]
      refine List.map_congr_left fun p hp => ?_
      have hpx : p.1 = x := by simpa using (List.mem_filter.mp hp).2
      simp [delivery, hpx]
    exact hmap a.order
  have hnew : added.filter (fun m => m.procIndex = x.val) = added :=
    List.filter_eq_self.mpr fun m hm => decide_eq_true (hproc m hm)
  rw [hadded, List.filter_append] at hdelivered'
  have hsplit : (sent'.filter DownLink.ordered).map (DownLink.delivery x) =
      ((a.order.filter fun p => p.1 = x).map Prod.snd).map (DownLink.delivery x) ++ added := by
    rw [← hold]
    exact hdelivered'.symm.trans (congrArg _ hnew)
  obtain ⟨old, l, hsent, hold', hl⟩ := List.map_eq_append_iff.mp hsplit
  obtain rfl := List.map_injective_iff.mpr (DownLink.delivery_injective x) hold'
  have hpending : a.pending x = l ++ o.daemon.downQueue.filter DownLink.ordered := by
    have hfifo := horder.fifo x
    rw [hsent', List.filter_append, hsent, List.append_assoc] at hfifo
    exact List.append_cancel_left hfifo
  refine ⟨l, _, hpending, ⟨up', ?_, ?_⟩, fun y => ?_⟩
  · rw [act_ok_log]
    exact hup'
  · rw [hadded, hdel, List.map_append, ← hl, List.map_map]
    rfl
  · rw [act_ok_submitted, ← horder.fifo y, List.filter_append, List.map_append]
    by_cases hy : y = x
    · subst hy
      simp [hpending, List.filter_map, Function.comp_def]
    · have hne : ¬ x = y := fun heq => hy heq.symm
      simp [hy, hne, List.filter_map, Function.comp_def]

/-- The message of an event that waits for its place in the order. -/
def Event.submission : Event n → Option (Fin n × DownLink)
  | .newMessage x m => if m.ordered then some (x, m) else none
  | _ => none

/-- The submissions of a run. -/
def submissions (trace : List (Event n × Unit)) : List (Fin n × DownLink) :=
  trace.filterMap fun e => e.1.submission

/-- What a daemon keeps at the events of the others and at its own. -/
theorem SamePlace.congr {a b : Group n} {y : Fin n} (h : SamePlace s a y)
    (hdaemon : t.daemons y = s.daemons y) (hlog : s.log <+: t.log)
    (hle : (s.daemons y).myAru ≤ s.log.length) (hreceived : b.received y = a.received y)
    (hdelivered : b.delivered y = a.delivered y) : SamePlace t b y where
  received := by
    obtain ⟨new, hnew⟩ := hlog
    rw [hreceived, h.received, hdaemon, ← hnew, List.take_append_of_le_length hle]
  delivered := by
    rw [hdelivered, h.delivered, State.ordered, State.ordered, hdaemon]

/-- Only a client's message is handed in. -/
theorem submitted_handle (cfg : Config n) (s : State n) (e : Event n) (y : Fin n) :
    ((s.handle cfg e).submitted y).filter DownLink.ordered =
      (s.submitted y).filter DownLink.ordered ++
        ((e.submission.toList).filter fun p => p.1 = y).map Prod.snd := by
  have hact : ∀ x r, ((s.act x r).submitted y).filter DownLink.ordered =
      (s.submitted y).filter DownLink.ordered ++ [] := by
    intro x r
    rw [List.append_nil]
    cases r with
    | error e => rfl
    | ok o => rw [act_ok_submitted]
  cases e with
  | newMessage x m =>
      simp only [State.handle, act_ok_submitted, Event.submission]
      by_cases hy : y = x
      · subst hy
        rw [Function.update_self, List.filter_append]
        by_cases hm : m.ordered = true
        · simp [hm]
        · simp [hm]
      · have hne : ¬ x = y := fun heq => hy heq.symm
        rw [Function.update_of_ne hy]
        by_cases hm : m.ordered = true
        · simp [hm, hne]
        · simp [hm]
  | handleBcast x packets => exact hact _ _
  | handleToken x c => exact hact _ _
  | tokenHurry x => exact hact x (.ok ((s.daemons x).tokenHurry (cfg.my x)))
  | handleHurry x src => exact hact x (.ok ((s.daemons x).handleHurry (cfg.my x)))

/-- An event that leaves the log as it was hands in its message. -/
theorem SameOrder.submit {a : Group n} {e : Event n} (horder : SameOrder s a)
    (hlog : (s.handle cfg e).log = s.log) :
    ∃ trace b, Broadcast.submissions trace = e.submission.toList ∧
      (Broadcast.machine DownLink.safe).Run (fun _ _ => True) a trace b ∧
      SameOrder (s.handle cfg e) b ∧ b.received = a.received ∧ b.delivered = a.delivered := by
  have hsubmitted := submitted_handle cfg s e
  have hsame : ∀ b : Group n, b.order = a.order → (∀ y, b.pending y = a.pending y ++
      ((e.submission.toList).filter fun p => p.1 = y).map Prod.snd) →
      SameOrder (s.handle cfg e) b := by
    intro b hb hpending
    refine ⟨?_, fun y => ?_⟩
    · rw [hlog, hb]
      exact horder.order
    · rw [hsubmitted y, hb, hpending y, ← horder.fifo y, List.append_assoc]
  cases he : e.submission with
  | none =>
      refine ⟨[], a, rfl, .nil, hsame a rfl fun y => ?_, rfl, rfl⟩
      rw [he]
      exact (List.append_nil _).symm
  | some p =>
      obtain ⟨x, m⟩ := p
      refine ⟨[(.submit x m, none)], _, rfl, .single trivial rfl, hsame _ rfl fun y => ?_, rfl, rfl⟩
      rw [he]
      by_cases hy : y = x
      · subst hy
        simp
      · have hne : ¬ x = y := fun heq => hy heq.symm
        simp [hy, hne]

/-- Each event of the daemons is a run of the group. -/
theorem Refined.step {a : Group n} {e : Event n} (hrefined : Refined s a) (h : Inv cfg s₀ s)
    (henabled : s.Enabled cfg e) (hsteady : Steady cfg s₀ s e) :
    ∃ trace b, Broadcast.submissions trace = e.submission.toList ∧
      (Broadcast.machine DownLink.safe).Run (fun _ _ => True) a trace b ∧
      Refined (s.handle cfg e) b := by
  have hnext := h.handle henabled hsteady
  have hprefix : s.log <+: (s.handle cfg e).log := s.log_prefix_handle e
  -- the others stay where they are, and the daemon of the event only gains messages
  have hfinish : ∀ {b : Group n} {d : Daemon} {x : Fin n}, SameOrder (s.handle cfg e) b →
      b.received = a.received → b.delivered = a.delivered →
      (s.handle cfg e).daemons = Function.update s.daemons x d →
      (s.daemons x).myAru ≤ d.myAru → (s.daemons x).lastDelivered ≤ d.lastDelivered →
      ∃ trace c, Broadcast.submissions trace = [] ∧
        (Broadcast.machine DownLink.safe).Run (fun _ _ => True) b trace c ∧
        Refined (s.handle cfg e) c := by
    intro b d x horder hreceived hdelivered hdaemons hmyAru hlast
    have hself : (s.handle cfg e).daemons x = d := by rw [hdaemons, Function.update_self]
    obtain ⟨new, hnew⟩ := hprefix
    have hbelow : ∀ y, (s.daemons y).myAru ≤ s.log.length := by
      intro y
      obtain ⟨early, hview⟩ := (h.holding y).view
      exact hview.myAru_le.trans hview.highest_le
    have htake : ∀ k, k ≤ s.log.length → (s.handle cfg e).log.take k = s.log.take k := by
      intro k hk
      rw [← hnew, List.take_append_of_le_length hk]
    refine hnext.catchUp (x := x) horder (fun y hy => ?_) ?_ ?_
    · refine (hrefined.place y).congr ?_ ⟨new, hnew⟩ (hbelow y) (by rw [hreceived])
        (by rw [hdelivered])
      rw [hdaemons, Function.update_of_ne hy]
    · rw [hreceived, (hrefined.place x).received, hself, ← htake _ (hbelow x)]
      exact hnext.messages_mono hmyAru
    · rw [hdelivered, (hrefined.place x).delivered]
      obtain ⟨⟨v, hv, hx⟩, -⟩ := h.deliveries x
      obtain ⟨⟨w, hw, hx'⟩, -⟩ := hnext.deliveries x
      obtain ⟨early, hview⟩ := (h.holding x).view
      rw [hself] at hw
      rw [← htake _ (hview.del_le.trans (hbelow x))] at hv
      rw [hx, hx']
      exact (delivered_comparable hv hw hlast).length_le
  rcases h.handle_cases henabled hsteady with
    ⟨d, hdaemons, hbetween, hlog⟩ | ⟨x, c, o, rfl, -, -, hturn, heq⟩
  · obtain ⟨trace, b, hsubmissions, run, horder, hreceived, hdelivered⟩ :=
      hrefined.submit hlog
    obtain ⟨trace', b', hnone, run', hb'⟩ :=
      hfinish horder hreceived hdelivered hdaemons hbetween.myAru hbetween.delivered
    refine ⟨trace ++ trace', b', ?_, run.trans run', hb'⟩
    rw [Broadcast.submissions_append, hsubmissions, hnone, List.append_nil]
  · obtain ⟨l, rest, hpending, horder⟩ := hrefined.toSameOrder.turn h hturn
    obtain ⟨trace, hsubmissions, run⟩ := Broadcast.run_order DownLink.safe hpending
    rw [← heq] at horder
    obtain ⟨trace', b', hnone, run', hb'⟩ := hfinish horder rfl rfl
      (by rw [heq]; exact act_ok_daemons) hturn.myAru hturn.delivered
    refine ⟨trace ++ trace', b', ?_, run.trans run', hb'⟩
    rw [Broadcast.submissions_append, hsubmissions, hnone]
    rfl

/-- The group that a membership begins with. -/
def State.group (s : State n) : Group n where
  pending y := (s.submitted y).filter DownLink.ordered
  order := []
  received _ := 0
  delivered _ := 0

theorem Start.refined (h : Start s) : Refined s s.group where
  order := by
    rw [h.log]
    exact ⟨.empty, rfl, rfl⟩
  fifo _ := rfl
  place y := by
    constructor
    case received =>
      rw [h.log, List.take_nil]
      rfl
    case delivered =>
      rw [State.ordered, (h.daemons y).up]
      rfl

/-- Each run of the daemons is a run of the group, with the same messages handed in. What a
daemon has delivered in order is what the process has delivered. -/
theorem refines_broadcast {trace : List (Event n × Unit)} (hstart : Start s₀)
    (run : (machine cfg).Run (Steady cfg s₀) s₀ trace s) :
    ∃ trace' a, (Broadcast.machine DownLink.safe).Run (fun _ _ => True) s₀.group trace' a ∧
      Broadcast.submissions trace' = submissions trace ∧
      ∀ y, s.ordered y = (Broadcast.deliveries y trace').map delivery := by
  have hrun : Inv cfg s₀ s ∧ ∃ trace' a,
      (Broadcast.machine DownLink.safe).Run (fun _ _ => True) s₀.group trace' a ∧
      Broadcast.submissions trace' = submissions trace ∧ Refined s a := by
    refine run.history (I := fun past t => Inv cfg s₀ t ∧ ∃ trace' a,
      (Broadcast.machine DownLink.safe).Run (fun _ _ => True) s₀.group trace' a ∧
      Broadcast.submissions trace' = submissions past ∧ Refined t a)
      ⟨hstart.inv, [], _, .nil, rfl, hstart.refined⟩ ?_
    rintro past b e c o ⟨hb, trace', a, hrun, hsubmissions, hrefined⟩ hsteady hstep
    simp only [machine] at hstep
    split at hstep
    · rename_i henabled
      obtain ⟨rfl, -⟩ := Prod.mk.inj (Option.some.inj hstep)
      obtain ⟨last, a', hlast, hrun', hrefined'⟩ := hrefined.step hb henabled hsteady
      refine ⟨hb.handle henabled hsteady, trace' ++ last, a', hrun.trans hrun', ?_, hrefined'⟩
      rw [Broadcast.submissions_append, hsubmissions, hlast, submissions, submissions,
        List.filterMap_append]
      cases he : e.submission <;> simp [he]
    · cases hstep
  obtain ⟨h, trace', a, hrun, hsubmissions, hrefined⟩ := hrun
  refine ⟨trace', a, hrun, hsubmissions, fun y => ?_⟩
  have hwithin := Broadcast.run_within ⟨rfl, fun _ => rfl, fun _ => rfl⟩ hrun
  obtain ⟨up, hup, hdel⟩ := hrefined.order
  obtain ⟨⟨v, hv, hy⟩, -⟩ := h.deliveries y
  obtain ⟨early, hview⟩ := (h.holding y).view
  have hprefix : v.delivered <+: up.delivered := by
    refine delivered_comparable hv (k := s.log.length) ?_
      (hview.del_le.trans (hview.myAru_le.trans hview.highest_le))
    rwa [List.take_length]
  rw [hwithin.shown y, (hrefined.place y).delivered, List.map_take, ← hdel, hy]
  exact List.prefix_iff_eq_take.mp hprefix

theorem refines_broadcast_trio : ∃ trace t trace' a,
    (machine trio).Run (Steady trio trioStart) trioStart trace t ∧ (t.ordered 2).length = 2 ∧
    (Broadcast.machine DownLink.safe).Run (fun _ _ => True) trioStart.group trace' a ∧
    Broadcast.submissions trace' = submissions trace ∧
    ∀ y, t.ordered y = (Broadcast.deliveries y trace').map delivery := by
  obtain ⟨trace, t, run, -, -, -, hlast, -⟩ := trioSchedule_run
  obtain ⟨trace', a, hrun, hall⟩ := refines_broadcast start_trio run
  exact ⟨trace, t, trace', a, run, hlast, hrun, hall⟩

end Netbroker.Ring
