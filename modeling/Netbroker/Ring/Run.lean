import Netbroker.Ring.Invariant

/-!
# Runs of a membership

Each event keeps the invariant, and the first state of a membership has it. So it holds
in every state that a run comes to, however the network loses, repeats and delays what
has been sent.

The events between the turns are put together from what the handlers do, and a token that is
taken is the one that the invariant is about. Three daemons and a schedule of losses are there
to try runs on.
-/

namespace Netbroker.Ring

open Daemon State Transition

variable {n : Nat} {cfg : Config n} {s₀ s : State n} {x : Fin n}

theorem Holding.of_idle {log : List Packet} {d d' : Daemon} (h : Holding log d)
    (hidle : d'.idle = d.idle) : Holding log d' := by
  obtain ⟨early, hview⟩ := h.view
  have haru := field_of_idle Daemon.aru (fun _ => rfl) hidle
  have hdelivered := field_of_idle Daemon.lastDelivered (fun _ => rfl) hidle
  constructor
  case view =>
    rw [haru, hdelivered]
    exact ⟨early, hview.congr (field_of_idle Daemon.packets (fun _ => rfl) hidle)
      (field_of_idle Daemon.myAru (fun _ => rfl) hidle)
      (field_of_idle Daemon.highestSeq (fun _ => rfl) hidle)
      (field_of_idle Daemon.up (fun _ => rfl) hidle)⟩
  case discarded =>
    rw [haru, field_of_idle Daemon.lastDiscarded (fun _ => rfl) hidle]
    exact h.discarded
  case safe =>
    rw [haru, hdelivered]
    exact h.safe

theorem Between.of_idle {d d' : Daemon} (hidle : d'.idle = d.idle)
    (hrtr : d'.lastToken.rtr = d.lastToken.rtr ∨ d'.lastToken.rtr = []) : Between d d' where
  aru := field_of_idle Daemon.aru (fun _ => rfl) hidle
  setAru := field_of_idle Daemon.setAru (fun _ => rfl) hidle
  numRetrans := field_of_idle Daemon.lastNumRetrans (fun _ => rfl) hidle
  numSent := field_of_idle Daemon.lastNumSent (fun _ => rfl) hidle
  token := field_of_idle (fun d => d.lastToken.data) (fun _ => rfl) hidle
  rtr := hrtr
  myAru := (field_of_idle Daemon.myAru (fun _ => rfl) hidle).ge
  delivered := (field_of_idle Daemon.lastDelivered (fun _ => rfl) hidle).ge

theorem Between.of_receives {log : List Packet} {d d' : Daemon} (h : Receives log d d') :
    Between d d' where
  aru := field_of_turnState Daemon.aru (fun _ => rfl) h.turnState
  setAru := field_of_turnState Daemon.setAru (fun _ => rfl) h.turnState
  numRetrans := field_of_turnState Daemon.lastNumRetrans (fun _ => rfl) h.turnState
  numSent := field_of_turnState Daemon.lastNumSent (fun _ => rfl) h.turnState
  token := congrArg Token.data (field_of_turnState Daemon.lastToken (fun _ => rfl) h.turnState)
  rtr := .inl (congrArg Token.rtr (field_of_turnState Daemon.lastToken (fun _ => rfl) h.turnState))
  myAru := h.myAru
  delivered := h.delivered

/-- An event that takes no turn, at a daemon whose down queue has become `queue`. -/
theorem Inv.quiet {o : Outcome} (queue : List DownLink) (hurries : List (Fin n))
    (submitted : Fin n → List DownLink) (h : Inv cfg s₀ s)
    (hquiet : Quiet { s.daemons x with downQueue := queue } o)
    (hfeeds : ∀ up, Feeds x s.log up (s.submitted x) (s.daemons x) →
      Feeds x s.log up (submitted x) { s.daemons x with downQueue := queue })
    (hsubmitted : ∀ y, y ≠ x → submitted y = s.submitted y) :
    Inv cfg s₀ { s.act x (.ok o) with hurries, submitted } := by
  obtain ⟨hnext, hround, hturnOf⟩ := act_quiet (s := s) (x := x) hquiet.turn
  obtain ⟨⟨early, hview⟩, hdiscarded, hsafe⟩ := h.holding x
  have hbetween : Between (s.daemons x) { s.daemons x with downQueue := queue } :=
    ⟨rfl, rfl, rfl, rfl, rfl, .inl rfl, le_rfl, le_rfl⟩
  have hholding : Holding s.log { s.daemons x with downQueue := queue } :=
    ⟨⟨early, hview.congr rfl rfl rfl rfl⟩, hdiscarded, hsafe⟩
  have hchange := Between.of_idle hquiet.idle hquiet.rtr
  refine h.between (x := x) (d := o.daemon) ?_ act_ok_daemons ?_ hnext hround act_ok_exits ?_ ?_
    (hholding.of_idle hquiet.idle) ?_ hsubmitted
  · exact ⟨hchange.aru, hchange.setAru, hchange.numRetrans, hchange.numSent, hchange.token,
      hchange.rtr, hchange.myAru, hchange.delivered⟩
  · refine act_ok_log.trans ?_
    rw [hquiet.created, List.append_nil]
  · refine act_ok_bcasts.trans ?_
    rw [hquiet.bcasts, List.append_nil]
  · intro c hc
    simp only [act_ok_tokens, hturnOf] at hc
    rcases List.mem_append.mp hc with hc | hc
    · exact .inl hc
    · obtain ⟨t, ht, rfl⟩ := List.mem_map.mp hc
      obtain ⟨hdata, hrtr⟩ := hquiet.tokens t ht
      exact .inr ⟨rfl, rfl, hdata, hrtr⟩
  · intro up hup
    exact (hfeeds up hup).congr (field_of_idle Daemon.downQueue (fun _ => rfl) hquiet.idle)
      (field_of_idle Daemon.curElement (fun _ => rfl) hquiet.idle)

/-- An event that takes no turn. -/
theorem Inv.idle {o : Outcome} (h : Inv cfg s₀ s) (hquiet : Quiet (s.daemons x) o) :
    Inv cfg s₀ (s.act x (.ok o)) := by
  refine h.quiet (s.daemons x).downQueue (s.act x (.ok o)).hurries
    (s.act x (.ok o)).submitted hquiet ?_ ?_
  · rw [act_ok_submitted]
    exact fun _ hup => hup
  · rw [act_ok_submitted]
    exact fun _ _ => rfl

/-- A client's message. -/
theorem Inv.newMessage {m : DownLink} (h : Inv cfg s₀ s) (hm : m.mess ≠ []) :
    Inv cfg s₀ (s.handle cfg (.newMessage x m)) := by
  have hquiet := quiet_newMessage (cfg.my x) (s.daemons x) m
  simp only [handle]
  rw [act_ok_submitted]
  refine h.quiet _ _ _ hquiet (fun up hup => ?_) fun y hy => Function.update_of_ne hy ..
  rw [Function.update_self]
  exact hup.newMessage hm

/-- A datagram of packets. -/
theorem Inv.handleBcast {packets : List Packet} (h : Inv cfg s₀ s)
    (hmem : ∀ p ∈ packets, p ∈ s.bcasts) :
    Inv cfg s₀ (s.handle cfg (.handleBcast x packets)) := by
  obtain ⟨d, hd, hreceives⟩ := handleBcast_returns h.ordered (h.holding x)
    fun p hp => h.bcasts p (hmem p hp)
  obtain ⟨hnext, hround, -⟩ := act_quiet (s := s) (x := x) (o := .quiet d) rfl
  rw [handle, hd, Except.map]
  refine h.between (x := x) (d := d) (.of_receives hreceives) act_ok_daemons ?_ hnext hround
    act_ok_exits ?_ ?_ hreceives.holding ?_ ?_
  · exact act_ok_log.trans (List.append_nil _)
  · exact act_ok_bcasts.trans (List.append_nil _)
  · intro c hc
    rw [act_ok_tokens] at hc
    rcases List.mem_append.mp hc with hc | hc
    · exact .inl hc
    · cases hc
  · intro up hup
    rw [act_ok_submitted]
    exact hup.congr (field_of_turnState Daemon.downQueue (fun _ => rfl) hreceives.turnState)
      (field_of_turnState Daemon.curElement (fun _ => rfl) hreceives.turnState)
  · intro y _
    rw [act_ok_submitted]

/-- A token that is taken is taken by the daemon whose turn it is, without an alarm. -/
theorem Inv.takes {c : TokenCopy n} (h : Inv cfg s₀ s) (hc : c ∈ s.tokens)
    (hx : succ c.src = x) (hfresh : s.round < c.round + 14)
    (htakes : (s.daemons x).Takes (cfg.my x) c.token) :
    x = s.next ∧ s.Valid s₀ cfg c.token ∧
      Returns ((s.daemons x).handleToken (cfg.my x) c.token) fun o =>
        Turn (cfg.my x) s.log (s.submitted x) (s.daemons x) c.token o ∧
          o.daemon.lastToken.arq = (s.round + 1) % 0x10 := by
  obtain ⟨hnext, hcurrent⟩ := h.rounds.of_takes hc hx hfresh htakes
  have hvalid := h.copies c hc (hx.trans hnext) hcurrent
  have harq := h.rounds.next_arq cfg hc hx hnext hcurrent
  refine ⟨hnext, hvalid, ?_⟩
  rw [handleToken_of_takes (cfg.my x) (s.daemons x) htakes]
  exact (h.takeTurn hvalid).mono fun o hturn => ⟨hturn, hturn.arq.trans harq⟩

theorem Inv.handleToken {c : TokenCopy n} (h : Inv cfg s₀ s) (hc : c ∈ s.tokens)
    (hx : succ c.src = x) (hsteady : Steady cfg s₀ s (.handleToken x c)) :
    Inv cfg s₀ (s.handle cfg (.handleToken x c)) := by
  obtain ⟨hfresh, hsecond⟩ := hsteady
  rw [handle]
  by_cases htakes : (s.daemons x).Takes (cfg.my x) c.token
  · obtain ⟨hnext, hvalid, o, ho, hturn, harq⟩ := h.takes hc hx hfresh htakes
    rw [ho]
    refine h.turn hnext hvalid (hvalid.informed hnext fun hfirst hround => ?_) harq hturn
    intro hpledge
    rcases hsecond hfirst hround hpledge with hlast | htop
    · exact .inl (holder_eq_some.mpr hlast)
    · exact .inr htop
  · obtain ⟨o, ho, hquiet⟩ := handleToken_of_not_takes (cfg.my x) (s.daemons x) htakes
    rw [ho]
    exact h.idle hquiet

theorem Inv.handle {e : Event n} (h : Inv cfg s₀ s) (henabled : s.Enabled cfg e)
    (hsteady : Steady cfg s₀ s e) : Inv cfg s₀ (s.handle cfg e) := by
  obtain ⟨-, hnetwork⟩ := henabled
  cases e with
  | newMessage x m => exact h.newMessage hsteady.1
  | handleBcast x packets => exact h.handleBcast hnetwork
  | handleToken x c => exact h.handleToken hnetwork.1 hnetwork.2 hsteady
  | tokenHurry x => exact h.idle (quiet_tokenHurry _ _)
  | handleHurry x src => exact h.idle (quiet_handleHurry _ _)

/-- A daemon of the first state holds nothing. -/
theorem Installed.holding {d : Daemon} {arq : Nat} (h : Installed d arq) : Holding [] d := by
  have hlast := h.lastDelivered
  constructor
  case view =>
    rw [h.aru, hlast]
    refine ⟨[], ?_⟩
    constructor
    case lo_le => exact le_rfl
    case del_le => exact Nat.zero_le _
    case myAru_le => rw [h.myAru]; exact Nat.zero_le _
    case highest_le => exact h.highestSeq.le
    case window => exact Nat.zero_le _
    case entry => exact fun i info hinfo => by rw [h.packets i] at hinfo; cases hinfo
    case flag => exact fun i info hinfo => by rw [h.packets i] at hinfo; cases hinfo
    case present => exact fun k hk hk' => by rw [h.myAru] at hk'; omega
    case early_log => exact fun p hp => absurd hp List.not_mem_nil
    case early_held => exact fun p hp => absurd hp List.not_mem_nil
    case early_all => exact fun p hp => absurd hp List.not_mem_nil
    case nodup => exact List.nodup_nil
    case up =>
      rw [h.up]
      exact ⟨.empty, rfl, .empty⟩
  case discarded => rw [h.lastDiscarded, h.aru]
  case safe => exact fun p hp => absurd hp List.not_mem_nil

/-- All that it has been given is in its down queue. -/
theorem Installed.feeds {d : Daemon} {arq : Nat} (h : Installed d arq) (x : Nat) :
    Feeds x [] .empty d.downQueue d := by
  constructor
  case nonempty => exact h.messages
  case cur =>
    rw [h.curElement]
    cases hqueue : d.downQueue with
    | nil => exact Nat.one_pos
    | cons m rest =>
        have hm := h.messages m (by rw [hqueue]; exact List.mem_cons_self)
        exact List.length_pos_iff.mpr hm
  case parts =>
    rw [if_pos h.curElement]
    rfl
  case delivered => exact ⟨[], rfl, rfl, rfl⟩

/-- The tokens of the rounds that installed the membership are right about it. -/
theorem Start.valid {t : Token} (h : Start s) (hseq : t.seq = 0) (hrtr : t.rtr = [])
    (hflow : t.flowControl = int16 s.sentInRound) : s.Valid s cfg t := by
  have hmark : ∀ y, (s.marks t).mark y = 0 := fun y => (h.daemons y).myAru
  have hseen : ∀ y, (s.marks t).seen y = 0 := fun y => (h.daemons y).tokenAru
  have hsafe : ∀ y, (s.marks t).safe y = 0 := fun y => (h.daemons y).aru
  constructor
  case seq => rw [hseq, h.log]; rfl
  case sound =>
    constructor
    case seen_top => exact fun d => by rw [hseen d]; exact Nat.zero_le _
    case seen_low => exact fun e _ d _ => by rw [hseen d]; exact Nat.zero_le _
    case low_mark => exact fun d e _ => by rw [hseen d, Nat.zero_min]; exact Nat.zero_le _
    case low_seen => exact fun d e _ => by rw [hseen d, Nat.zero_min]; exact Nat.zero_le _
    case safe_low => exact fun d => by rw [hsafe d]; exact Nat.zero_le _
    case safe_seen => exact fun d e => by rw [hsafe d]; exact Nat.zero_le _
    case safe_mark => exact fun d e => by rw [hsafe d]; exact Nat.zero_le _
    case safe_order => exact fun d e _ => by rw [hsafe d]; exact Nat.zero_le _
  case flow => exact hflow
  case rtr =>
    intro x y q hq
    rw [hrtr] at hq
    cases hq
  case begun => rw [turnOf_next]
  case first => exact fun _ => ⟨rfl, fun y => (h.daemons y).setAru⟩
  case pledged => exact fun hne => absurd s.turnOf_next hne

/-- The events of a run are those between the turns, which change one daemon, and the
turns. -/
theorem Inv.handle_cases {e : Event n} (h : Inv cfg s₀ s) (henabled : s.Enabled cfg e)
    (hsteady : Steady cfg s₀ s e) :
    (∃ d, (s.handle cfg e).daemons = Function.update s.daemons e.at d ∧
      Between (s.daemons e.at) d ∧ (s.handle cfg e).log = s.log) ∨
    ∃ x c o, e = .handleToken x c ∧ x = s.next ∧ s.Valid s₀ cfg c.token ∧
      Turn (cfg.my x) s.log (s.submitted x) (s.daemons x) c.token o ∧
      s.handle cfg e = s.act x (.ok o) := by
  obtain ⟨-, hnetwork⟩ := henabled
  have hquiet : ∀ {o : Outcome}, Quiet (s.daemons e.at) o → s.handle cfg e = s.act e.at (.ok o) →
      ∃ d, (s.handle cfg e).daemons = Function.update s.daemons e.at d ∧
        Between (s.daemons e.at) d ∧ (s.handle cfg e).log = s.log := by
    intro o hquiet heq
    rw [heq, act_ok_log, hquiet.created, List.append_nil]
    exact ⟨o.daemon, act_ok_daemons, .of_idle hquiet.idle hquiet.rtr, rfl⟩
  cases e with
  | newMessage x m =>
      have hown := quiet_newMessage (cfg.my x) (s.daemons x) m
      have hchange := Between.of_idle hown.idle hown.rtr
      refine .inl ⟨_, act_ok_daemons, ?_, ?_⟩
      · exact ⟨hchange.aru, hchange.setAru, hchange.numRetrans, hchange.numSent, hchange.token,
          hchange.rtr, hchange.myAru, hchange.delivered⟩
      · refine (act_ok_log (o := ((s.daemons x).newMessage (cfg.my x) m).1)).trans ?_
        rw [hown.created, List.append_nil]
  | handleBcast x packets =>
      obtain ⟨d, hd, hreceives⟩ := handleBcast_returns h.ordered (h.holding x)
        fun p hp => h.bcasts p (hnetwork p hp)
      refine .inl ⟨d, ?_, .of_receives hreceives, ?_⟩
      · rw [State.handle, hd]
        exact act_ok_daemons
      · rw [State.handle, hd]
        exact act_ok_log.trans (List.append_nil _)
  | handleToken x c =>
      by_cases htakes : (s.daemons x).Takes (cfg.my x) c.token
      · obtain ⟨hnext, hvalid, o, ho, hturn, -⟩ :=
          h.takes hnetwork.1 hnetwork.2 hsteady.1 htakes
        exact .inr ⟨x, c, o, rfl, hnext, hvalid, hturn, by rw [State.handle, ho]⟩
      · obtain ⟨o, ho, hnone⟩ := handleToken_of_not_takes (cfg.my x) (s.daemons x) htakes
        exact .inl (hquiet hnone (by rw [State.handle, ho]; rfl))
  | tokenHurry x => exact .inl (hquiet (quiet_tokenHurry _ _) rfl)
  | handleHurry x src => exact .inl (hquiet (quiet_handleHurry _ _) rfl)

/-- The first state of a membership. -/
theorem Start.inv (h : Start s) : Inv cfg s s := by
  constructor
  case exits => exact h.exits
  case rounds => exact ⟨fun x => (h.daemons x).tokenArq, h.copies⟩
  case ordered =>
    rw [h.log]
    constructor
    case number => exact fun i p hp => by cases hp
    case proc => exact fun p hp => absurd hp List.not_mem_nil
    case assembled => exact ⟨.empty, rfl⟩
  case senders => exact fun p hp => by rw [h.log] at hp; cases hp
  case bcasts => exact fun p hp => by rw [h.bcasts] at hp; cases hp
  case holding =>
    intro x
    rw [h.log]
    exact (h.daemons x).holding
  case feeds =>
    rw [h.log]
    refine ⟨.empty, rfl, fun x => ?_⟩
    rw [h.submitted x]
    exact (h.daemons x).feeds x
  case width =>
    intro x
    rw [h.log]
    exact Nat.zero_le _
  case last =>
    intro x hx
    exact h.valid (h.daemons x).tokenSeq (h.daemons x).tokenRtr (h.lastFlow x hx)
  case copies =>
    intro c hc hsrc hcurrent
    obtain ⟨hseq, hrtr⟩ := h.current c hc hcurrent
    exact h.valid hseq hrtr (h.flow c hc hcurrent hsrc)

/-- Every state that a run comes to. -/
theorem run_inv {trace : List (Event n × Unit)} (hstart : Start s₀)
    (run : (machine cfg).Run (Steady cfg s₀) s₀ trace s) : Inv cfg s₀ s := by
  refine run.invariant hstart.inv fun a e b _ ha hsteady hstep => ?_
  simp only [machine] at hstep
  split at hstep
  · rename_i henabled
    obtain ⟨rfl, -⟩ := Prod.mk.inj (Option.some.inj hstep)
    exact ha.handle henabled hsteady
  · cases hstep

/-- The daemon whose turn is next is given the token. -/
def turnEvent (s : State n) : Event n :=
  match s.tokens.find? fun c => succ c.src = s.next ∧ c.round = s.turnOf c.src with
  | some c => .handleToken s.next c
  | none => .tokenHurry s.next

/-- A daemon is given a datagram of packets with these numbers. -/
def bcastEvent (x : Fin n) (seqs : List Nat) (s : State n) : Event n :=
  .handleBcast x (seqs.filterMap fun q => s.log[q - 1]?)

/-- The events of a schedule. -/
def play (cfg : Config n) : List (State n → Event n) → State n → List (Event n)
  | [], _ => []
  | f :: rest, s => f s :: play cfg rest (s.handle cfg (f s))

def Token.initial : Token :=
  { arq := 0, retrans := 0, seq := 0, aru := 0, aruLastId := 0, flowControl := 0, rtr := [] }

def Daemon.initial : Daemon where
  highestSeq := 0
  highestFifoSeq := 0
  myAru := 0
  aru := 0
  setAru := none
  lastDiscarded := 0
  lastDelivered := 0
  lastToken := .initial
  lastNumRetrans := 0
  lastNumSent := 0
  tokenCounter := 0
  packets _ := none
  downQueue := []
  curElement := 0
  up := .empty

def trio : Config 3 := { membId := 1, segIndex := fun _ => 0, size := by decide }

/-- The token's `aru` and who has set it come from the rounds before. -/
def Token.inherited : Token := { Token.initial with aru := 5000, aruLastId := 2 }

def trioStart : State 3 where
  daemons _ := .initial
  exits _ := none
  bcasts := []
  tokens := [{ token := .inherited, src := 2, round := 0 }]
  hurries := []
  log := []
  round := 0
  next := 0
  submitted _ := []

theorem start_trio : Start trioStart := by
  constructor
  case daemons =>
    intro x
    have harq : 0 = trioStart.turnOf x % 0x10 := by
      revert x
      decide
    exact ⟨rfl, rfl, rfl, rfl, rfl, rfl, rfl, fun m hm => absurd hm List.not_mem_nil,
      fun _ => rfl, rfl, rfl, rfl, rfl, harq⟩
  case exits => exact fun _ => rfl
  case bcasts => rfl
  case log => rfl
  case submitted => exact fun _ => rfl
  case copies => decide
  case current => decide
  case flow => decide
  case lastFlow => decide

/-- Three messages are on their way, and the last daemon has asked for two packets. -/
def trioLosses : List (State 3 → Event 3) :=
  [fun _ => .newMessage 0 ⟨.agreed, [[1], [2]]⟩, fun _ => .newMessage 1 ⟨.safe, [[3]]⟩,
    fun _ => .newMessage 2 ⟨.reliable, [[4]]⟩, turnEvent, bcastEvent 1 [2, 1], bcastEvent 2 [2],
    turnEvent, turnEvent, bcastEvent 0 [4, 3]]

/-- The copy that comes last asks for the two packets, and the one that the first daemon has
begun with is still there. -/
theorem trioLosses_run : ∃ trace t,
    (machine trio).Run (Steady trio trioStart) trioStart trace t ∧ 0 < t.log.length ∧
    (∃ c ∈ t.tokens, succ c.src = 0 ∧ t.round < c.round + 14 ∧
      c.token.seq ≤ maxWrapSequenceValue ∧ 0 = t.next ∧ c.round = t.turnOf c.src ∧
      (t.daemons 0).Takes (trio.my 0) c.token ∧ asked (trio.my 0) c.token.rtr = [1, 3]) ∧
    ∃ old ∈ t.tokens, succ old.src = 0 ∧ t.round < old.round + 14 ∧
      old.round ≠ t.turnOf old.src :=
  Machine.Run.exists_of_exec (machine trio) (Steady trio trioStart) trioStart
    (play trio trioLosses trioStart)
    (fun _ t => 0 < t.log.length ∧
      (∃ c ∈ t.tokens, succ c.src = 0 ∧ t.round < c.round + 14 ∧
        c.token.seq ≤ maxWrapSequenceValue ∧ 0 = t.next ∧ c.round = t.turnOf c.src ∧
        (t.daemons 0).Takes (trio.my 0) c.token ∧ asked (trio.my 0) c.token.rtr = [1, 3]) ∧
      ∃ old ∈ t.tokens, succ old.src = 0 ∧ t.round < old.round + 14 ∧
        old.round ≠ t.turnOf old.src) (by decide +kernel)

/-- All is received in the end. -/
def trioSchedule : List (State 3 → Event 3) :=
  trioLosses ++ [turnEvent, bcastEvent 1 [4], bcastEvent 2 [1], bcastEvent 2 [1, 3], turnEvent,
    turnEvent, turnEvent, turnEvent, turnEvent]

end Netbroker.Ring
