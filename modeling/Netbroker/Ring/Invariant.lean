import Mathlib.Algebra.BigOperators.Fin
import Netbroker.Ring.Acceptance
import Netbroker.Rotation.LowWater

/-!
# What holds in every state of a membership

`Inv` ties the daemons, the network and the token to the log. Its parts on the token are
about any token that the daemon whose turn is next may yet take: the copies of the last
one, and what its sender would send again. The marks of the daemons and such a token form
a `LowWater`, of which the daemon's turn is the turn.

A turn has to be informed: where a daemon finds on the token what it has left in
`Set_aru`, nobody else may have set the token to that value. The daemon that has the first
turn leaves a `Set_aru` without that guarantee, because the token's mark is then still the
one of the rounds before. All other turns are informed, and its later ones too.

Each handler acts on one daemon and adds to the network, `act`. A turn moves the log, the
token and the mark of its daemon together; between the turns at most marks grow.
-/

namespace Netbroker.Ring

open Daemon Rotation State Transition

variable {n : Nat} {cfg : Config n}

namespace State

/-- The marks of the daemons, and what a token carries of them. -/
def marks (s : State n) (t : Token) : LowWater (Fin n) (Nat ×ₗ Fin n) where
  mark x := (s.daemons x).myAru
  seen x := (s.daemons x).lastToken.aru
  safe x := (s.daemons x).aru
  pledge x := (s.daemons x).setAru
  stamp := s.stamp
  low := t.aru
  holder := if h : t.aruLastId < n then some ⟨t.aruLastId, h⟩ else none
  top := t.seq

/-- The daemon whose `Set_aru` comes from the first turn of the membership. -/
def misled (s s₀ : State n) : Option (Fin n) :=
  if s.turnOf s₀.next = s₀.round + 1 then some s₀.next else none

/-- A token that is right about the membership, which began in `s₀`. -/
structure Valid (s s₀ : State n) (cfg : Config n) (t : Token) : Prop where
  seq : t.seq = s.log.length
  sound : (s.marks t).Sound
  flow : t.flowControl = Daemon.int16 s.sentInRound
  rtr : ∀ x y, ∀ q ∈ Daemon.asked (cfg.my x) t.rtr, (s.daemons y).aru < q ∧ q ≤ s.log.length
  begun : s₀.round ≤ s.turnOf s₀.next
  first : s.turnOf s₀.next = s₀.round → s.next = s₀.next ∧ ∀ x, (s.daemons x).setAru = none
  pledged : s.turnOf s₀.next ≠ s₀.round → (s.marks t).Pledged (s.misled s₀)

end State

structure Inv (cfg : Config n) (s₀ s : State n) : Prop where
  exits : ∀ x, s.exits x = none
  rounds : s.Rounds
  ordered : Ordered s.log
  senders : ∀ p ∈ s.log, p.procId < n
  bcasts : ∀ p ∈ s.bcasts, p ∈ s.log
  holding : ∀ x, Holding s.log (s.daemons x)
  feeds : ∃ up, assemble (s.log.filter Packet.ordered) = .ok up ∧
    ∀ x : Fin n, Feeds x s.log up (s.submitted x) (s.daemons x)
  width : ∀ x, s.log.length ≤ (s.daemons x).aru + Daemon.seqWidth
  last : ∀ x, succ x = s.next → s.Valid s₀ cfg (s.daemons x).lastToken
  copies : ∀ c ∈ s.tokens, succ c.src = s.next → c.round = s.turnOf c.src → s.Valid s₀ cfg c.token

namespace State

variable {s : State n} {x : Fin n} {o : Outcome}

@[simp] theorem act_ok_daemons :
    (s.act x (.ok o)).daemons = Function.update s.daemons x o.daemon := by
  simp only [act]
  split <;> rfl

@[simp] theorem act_ok_exits : (s.act x (.ok o)).exits = s.exits := by
  simp only [act]
  split <;> rfl

@[simp] theorem act_ok_log : (s.act x (.ok o)).log = s.log ++ o.created := by
  simp only [act]
  split <;> rfl

@[simp] theorem act_ok_bcasts : (s.act x (.ok o)).bcasts = s.bcasts ++ o.bcasts := by
  simp only [act]
  split <;> rfl

@[simp] theorem act_ok_submitted : (s.act x (.ok o)).submitted = s.submitted := by
  simp only [act]
  split <;> rfl

@[simp] theorem act_ok_tokens : (s.act x (.ok o)).tokens =
    s.tokens ++ o.tokens.map fun t => ⟨t, x, (s.act x (.ok o)).turnOf x⟩ := by
  simp only [act]
  split <;> rfl

theorem act_turn (h : o.turn = true) : (s.act x (.ok o)).next = succ x ∧
    (s.act x (.ok o)).turnOf = (s.pass x).turnOf ∧
    (s.act x (.ok o)).stamp = (s.pass x).stamp := by
  rw [act, h]
  exact ⟨rfl, rfl, rfl⟩

theorem act_quiet (h : o.turn = false) : (s.act x (.ok o)).next = s.next ∧
    (s.act x (.ok o)).round = s.round ∧ (s.act x (.ok o)).turnOf = s.turnOf := by
  rw [act, h]
  exact ⟨rfl, rfl, rfl⟩

end State

namespace State

variable {s : State n} {x : Fin n} {t : Token} {o : Outcome}

@[simp] theorem marks_low : (s.marks t).low = t.aru := rfl

theorem holder_eq_some {t : Token} {x : Fin n} :
    (s.marks t).holder = some x ↔ t.aruLastId = x.val := by
  simp only [marks]
  split
  · rename_i hlt
    rw [Option.some.injEq, Fin.ext_iff]
  · rename_i hge
    have hx := x.isLt
    exact iff_of_false (by simp) (by omega)

theorem setsAru_iff {d : Daemon} (hset : d.setAru = (s.daemons x).setAru) :
    d.SetsAru (cfg.my x) t ↔ (s.marks t).Raises x := by
  rw [Daemon.SetsAru, LowWater.Raises, holder_eq_some, hset]
  rfl

/-- `Prot_handle_token` changes the token's marks as the turn of the marks does. -/
theorem marks_turn {submitted : List DownLink} (hx : x = s.next)
    (h : Daemon.Turn (cfg.my x) s.log submitted (s.daemons x) t o) :
    (s.act x (.ok o)).marks o.daemon.lastToken = (s.marks t).turn x o.daemon.myAru
      (s.log ++ o.created).length (toLex (s.round + 1, x)) := by
  have hdaemons : (s.act x (.ok o)).daemons = Function.update s.daemons x o.daemon :=
    act_ok_daemons
  have hfield : ∀ {β : Type} (f : Daemon → β),
      (fun y => f ((s.act x (.ok o)).daemons y)) =
        Function.update (fun y => f (s.daemons y)) x (f o.daemon) := by
    intro β f
    rw [hdaemons]
    exact Function.comp_update f s.daemons x o.daemon
  have haru := h.tokenAru
  generalize hd : ({ s.daemons x with
    myAru := o.daemon.myAru, highestSeq := o.daemon.highestSeq } : Daemon) = d at haru
  have hmyAru : d.myAru = o.daemon.myAru := by rw [← hd]
  have hhighest : d.highestSeq = (s.log ++ o.created).length := by rw [← hd]; exact h.highest
  have hsets : d.SetsAru (cfg.my x) t ↔ (s.marks t).Raises x := setsAru_iff (by rw [← hd])
  have htoken : o.daemon.lastToken.aru = (s.marks t).lowered x o.daemon.myAru ∧
      ((s.act x (.ok o)).marks o.daemon.lastToken).holder =
        (s.marks t).nextHolder x o.daemon.myAru ∧
      o.daemon.setAru = (s.marks t).nextPledge x o.daemon.myAru (s.log ++ o.created).length := by
    rw [Daemon.tokenAru, hmyAru, hhighest] at haru
    rw [LowWater.lowered, LowWater.nextHolder, LowWater.nextPledge, marks_low]
    split at haru
    · rename_i hraise
      rw [hsets] at hraise
      obtain ⟨hlow, hlast, hset⟩ := by simpa only [Prod.mk.injEq] using haru
      rw [if_pos hraise, if_pos (.inl hraise), if_pos hraise, holder_eq_some]
      exact ⟨hlow, hlast, hset⟩
    · rename_i hraise
      rw [hsets] at hraise
      rw [if_neg hraise, if_neg hraise]
      split at haru
      · rename_i hlower
        obtain ⟨hlow, hlast, hset⟩ := by simpa only [Prod.mk.injEq] using haru
        have hmin : min t.aru o.daemon.myAru = o.daemon.myAru :=
          min_eq_right (Nat.le_of_lt hlower)
        rw [hmin, if_pos (.inr hlower), if_pos hlower, holder_eq_some]
        exact ⟨hlow, hlast, hset⟩
      · rename_i hkeep
        obtain ⟨hlow, hlast, hset⟩ := by simpa only [Prod.mk.injEq] using haru
        have hmin : min t.aru o.daemon.myAru = t.aru :=
          min_eq_left (Nat.le_of_not_lt hkeep)
        have hboth : ¬ ((s.marks t).Raises x ∨ o.daemon.myAru < t.aru) :=
          not_or.mpr ⟨hraise, hkeep⟩
        rw [hmin, if_neg hboth, if_neg hkeep]
        simp only [marks]
        rw [hlast]
        exact ⟨hlow, rfl, hset⟩
  obtain ⟨hlow, hholder, hpledge⟩ := htoken
  apply LowWater.ext
  case mark => exact hfield Daemon.myAru
  case seen => exact (hfield fun d => d.lastToken.aru).trans (by rw [hlow]; rfl)
  case safe => exact (hfield Daemon.aru).trans (by rw [h.aru, hlow]; rfl)
  case pledge => exact (hfield Daemon.setAru).trans (by rw [hpledge]; rfl)
  case stamp => exact ((act_turn h.turn).2.2).trans (stamp_pass s hx)
  case low => exact hlow
  case holder => exact hholder
  case top => exact h.seq

/-- The counts of one daemon in the sum over all. -/
theorem sentInRound_act : (s.act x (.ok o)).sentInRound = s.sentInRound -
    (s.daemons x).lastNumRetrans - (s.daemons x).lastNumSent + o.daemon.lastNumRetrans +
      o.daemon.lastNumSent := by
  have hcount := Function.comp_update
    (fun d : Daemon => (d.lastNumRetrans + d.lastNumSent : Int)) s.daemons x o.daemon
  have hsum := Finset.sum_update_of_mem (Finset.mem_univ x)
    (fun y => ((s.daemons y).lastNumRetrans + (s.daemons y).lastNumSent : Int))
    (o.daemon.lastNumRetrans + o.daemon.lastNumSent)
  have hrest := Finset.sum_erase_eq_sub (Finset.mem_univ x)
    (f := fun y => ((s.daemons y).lastNumRetrans + (s.daemons y).lastNumSent : Int))
  rw [← Finset.sdiff_singleton_eq_erase] at hrest
  rw [sentInRound, sentInRound, List.sum_ofFn, List.sum_ofFn, act_ok_daemons]
  change ∑ y, ((fun d : Daemon => (d.lastNumRetrans + d.lastNumSent : Int)) ∘
    Function.update s.daemons x o.daemon) y = _
  rw [hcount]
  change ∑ y, Function.update (fun y => ((s.daemons y).lastNumRetrans +
    (s.daemons y).lastNumSent : Int)) x _ y = _
  rw [hsum, hrest]
  omega

end State

section Turn

variable {s₀ s : State n} {x : Fin n} {t : Token} {o : Outcome}

/-- What the daemon whose turn it is finds satisfies the turn of the marks. -/
theorem State.Valid.due (ht : s.Valid s₀ cfg t) (hx : x = s.next)
    (hturn : Daemon.Turn (cfg.my x) s.log (s.submitted x) (s.daemons x) t o) :
    (s.marks t).Due x o.daemon.myAru (s.log ++ o.created).length (toLex (s.round + 1, x)) := by
  obtain ⟨early, hview⟩ := hturn.holding.view
  constructor
  case oldest => exact fun e => hx ▸ s.stamp_next_le e
  case newest => exact fun e => hx ▸ s.stamp_lt e
  case grows => exact hturn.myAru
  case below => exact hview.myAru_le.trans hview.highest_le
  case top =>
    change t.seq ≤ _
    rw [ht.seq, List.length_append]
    omega

/-- Only the second turn of the daemon that had the first one may not be informed. -/
theorem State.Valid.informed (ht : s.Valid s₀ cfg t) (hx : x = s.next)
    (hsteady : x = s₀.next → s.round = s₀.round + 1 → (s.marks t).Informed x) :
    (s.marks t).Informed x := by
  by_cases hfirst : s.turnOf s₀.next = s₀.round
  · intro hpledge
    have hnone := (ht.first hfirst).2 x
    simp only [marks, hnone] at hpledge
    cases hpledge
  · have hpledged := ht.pledged hfirst
    by_cases hmisled : s.misled s₀ = some x
    · rw [misled] at hmisled
      split at hmisled
      · rename_i hsecond
        have hself := Option.some.inj hmisled
        rw [hself, hx, turnOf_next] at hsecond
        exact hsteady hself.symm hsecond
      · cases hmisled
    · exact hpledged.informed hmisled

/-- The daemon whose turn it is takes it without an alarm. -/
theorem Inv.takeTurn (h : Inv cfg s₀ s) (ht : s.Valid s₀ cfg t) :
    Returns ((s.daemons x).takeTurn (cfg.my x) t)
      (Daemon.Turn (cfg.my x) s.log (s.submitted x) (s.daemons x) t) := by
  obtain ⟨up, hup, hfeeds⟩ := h.feeds
  have hsize : (cfg.my x).id < maxProcsRing := Nat.lt_of_lt_of_le x.isLt cfg.size
  exact Daemon.takeTurn_returns h.ordered (h.holding x) hup (hfeeds x) ht.seq
    (fun q hq => ht.rtr x x q hq) (ht.sound.safe_seen x x) (ht.sound.safe_low x) (h.width x) hsize

/-- The marks after a turn. -/
theorem State.Valid.turn (ht : s.Valid s₀ cfg t) (hx : x = s.next)
    (hinf : (s.marks t).Informed x) (hwidth : ∀ y, s.log.length ≤ (s.daemons y).aru + seqWidth)
    (hturn : Daemon.Turn (cfg.my x) s.log (s.submitted x) (s.daemons x) t o) :
    (s.act x (.ok o)).Valid s₀ cfg o.daemon.lastToken ∧
      ∀ y, (s.log ++ o.created).length ≤ ((s.act x (.ok o)).daemons y).aru + seqWidth := by
  have hdue := ht.due hx hturn
  have hmarks := marks_turn hx hturn
  have hsound := ht.sound.turn hdue hinf
  have hwithin : (s.marks t).Within seqWidth := by
    intro y
    change t.seq ≤ _
    rw [ht.seq]
    exact hwidth y
  have htop : (s.log ++ o.created).length = (s.marks t).top ∨
      (s.log ++ o.created).length ≤ (s.marks t).safe x + seqWidth := by
    rcases hturn.gap with hnone | hgap
    · left
      change _ = t.seq
      rw [hnone, List.append_nil, ht.seq]
    · exact .inr hgap
  have hwithin' := hwithin.turn ht.sound hdue htop
  have hturnOf : (s.act x (.ok o)).turnOf s₀.next =
      if s₀.next = x then s.round + 1 else s.turnOf s₀.next := by
    rw [(act_turn hturn.turn).2.1, turnOf_pass s hx]
  have hround : s.turnOf x = s.round := by rw [hx, turnOf_next]
  have hbegun := ht.begun
  rw [← hmarks] at hsound hwithin'
  refine ⟨?_, fun y => ?_⟩
  · constructor
    case seq => rw [hturn.seq, act_ok_log]
    case sound => exact hsound
    case flow =>
      rw [hturn.flow, sentInRound_act, ht.flow]
      simp only [Daemon.int16, sub_eq_add_neg, add_assoc, Int.bmod_add_bmod]
    case rtr =>
      intro z y q hq
      obtain ⟨hmark, htop⟩ := hturn.rtr q hq
      have hsafe := hsound.safe_mark y x
      rw [act_ok_log]
      simp only [marks, act_ok_daemons, Function.update_self] at hsafe
      rw [act_ok_daemons]
      exact ⟨by omega, htop⟩
    case begun =>
      rw [hturnOf]
      split
      · rename_i hself
        rw [hself, hround] at hbegun
        omega
      · exact hbegun
    case first =>
      -- the first turn is over
      intro hfirst
      rw [hturnOf] at hfirst
      split at hfirst
      · rename_i hself
        rw [hself, hround] at hbegun
        omega
      · rename_i hself
        exact absurd ((ht.first hfirst).1.symm.trans hx.symm) hself
    case pledged =>
      intro _
      rw [hmarks, misled, hturnOf]
      by_cases hfirst : s.turnOf s₀.next = s₀.round
      · obtain ⟨hnext, hnone⟩ := ht.first hfirst
        have hself : s₀.next = x := hnext.symm.trans hx.symm
        rw [hself, hround] at hfirst
        rw [if_pos hself, if_pos (by omega), hself]
        exact LowWater.Pledged.first hnone hdue
      · have hpledged := (ht.pledged hfirst).turn hdue hinf
        rw [misled] at hpledged
        by_cases hself : s₀.next = x
        · rw [hself, hround] at hfirst
          rw [if_pos hself, if_neg (by omega)]
          rw [hself] at hpledged
          split at hpledged
          · rwa [if_pos rfl] at hpledged
          · rwa [if_neg (by simp)] at hpledged
        · rw [if_neg hself]
          rwa [if_neg] at hpledged
          split
          · exact fun heq => hself (Option.some.inj heq)
          · simp
  · have hone := hwithin' y
    change o.daemon.lastToken.seq ≤ _ at hone
    rw [hturn.seq] at hone
    exact hone

/-- A turn that is informed keeps the invariant. -/
theorem Inv.turn (h : Inv cfg s₀ s) (hx : x = s.next) (ht : s.Valid s₀ cfg t)
    (hinf : (s.marks t).Informed x)
    (harq : o.daemon.lastToken.arq = (s.round + 1) % 0x10)
    (hturn : Daemon.Turn (cfg.my x) s.log (s.submitted x) (s.daemons x) t o) :
    Inv cfg s₀ (s.act x (.ok o)) := by
  obtain ⟨hvalid, hwidth⟩ := ht.turn hx hinf h.width hturn
  obtain ⟨hnext, hturnOf, -⟩ := act_turn (s := s) (x := x) hturn.turn
  have hself : (s.act x (.ok o)).daemons x = o.daemon := by
    rw [act_ok_daemons, Function.update_self]
  have hother : ∀ y, y ≠ x → (s.act x (.ok o)).daemons y = s.daemons y := by
    intro y hy
    rw [act_ok_daemons, Function.update_of_ne hy]
  have hround : (s.act x (.ok o)).turnOf x = s.round + 1 := by
    rw [hturnOf, turnOf_pass s hx, if_pos rfl]
  have hrounds : ∀ y, y ≠ x → (s.act x (.ok o)).turnOf y = s.turnOf y := by
    intro y hy
    rw [hturnOf, turnOf_pass s hx, if_neg hy]
  -- the copies of the token that the turn has put on the network
  have hcopies : ∀ c ∈ (s.act x (.ok o)).tokens, c ∈ s.tokens ∨
      c.src = x ∧ c.token = o.daemon.lastToken ∧ c.round = s.round + 1 := by
    intro c hc
    rw [act_ok_tokens, hround] at hc
    rcases List.mem_append.mp hc with hc | hc
    · exact .inl hc
    · obtain ⟨t', ht', rfl⟩ := List.mem_map.mp hc
      exact .inr ⟨rfl, hturn.tokens t' ht', rfl⟩
  have hold := h.rounds
  constructor
  case exits => rw [act_ok_exits]; exact h.exits
  case rounds =>
    constructor
    case arq =>
      intro y
      by_cases hy : y = x
      · rw [hy, hself, hround]
        exact harq
      · rw [hother y hy, hrounds y hy]
        exact hold.arq y
    case copies =>
      intro c hc
      rcases hcopies c hc with hc | ⟨hsrc, htoken, hcround⟩
      · obtain ⟨hle, hcarq⟩ := hold.copies c hc
        refine ⟨?_, hcarq⟩
        rw [hturnOf, turnOf_pass s hx]
        have htop := (s.turnOf_le c.src).2
        split <;> omega
      · rw [hsrc, htoken, hcround, hround]
        exact ⟨le_rfl, harq⟩
  case ordered => rw [act_ok_log]; exact hturn.ordered
  case senders =>
    intro p hp
    rw [act_ok_log] at hp
    rcases List.mem_append.mp hp with hp | hp
    · exact h.senders p hp
    · rw [hturn.proc p hp]
      exact x.isLt
  case bcasts =>
    intro p hp
    rw [act_ok_bcasts] at hp
    rw [act_ok_log]
    rcases List.mem_append.mp hp with hp | hp
    · exact List.mem_append_left _ (h.bcasts p hp)
    · exact hturn.bcasts p hp
  case holding =>
    intro y
    rw [act_ok_log]
    by_cases hy : y = x
    · rw [hy, hself]
      exact hturn.holding
    · have hone := hwidth y
      rw [hother y hy] at hone ⊢
      have hsize : seqWidth ≤ maxPacketsInStruct := by decide
      exact (h.holding y).extend hturn.ordered (by omega)
  case feeds =>
    obtain ⟨up, hup, hfeeds⟩ := h.feeds
    obtain ⟨up', hup', hown⟩ := hturn.feeds
    rw [act_ok_log, act_ok_submitted]
    refine ⟨up', hup', fun y => ?_⟩
    by_cases hy : y = x
    · rw [hy, hself]
      exact hown
    · rw [hother y hy]
      rw [List.filter_append] at hup'
      obtain ⟨first, hfirst, hpush⟩ := assemble_prefix hup'
      obtain rfl : first = up := Except.ok.inj (hfirst.symm.trans hup)
      refine (hfeeds y).others (fun p hp heq => ?_) hpush
      rw [hturn.proc p hp] at heq
      exact hy (Fin.ext heq.symm)
  case width => rw [act_ok_log]; exact hwidth
  case last =>
    intro y hy
    rw [hnext] at hy
    rw [succ_inj hy, hself]
    exact hvalid
  case copies =>
    intro c hc hsrc hcurrent
    rw [hnext] at hsrc
    rw [succ_inj hsrc, hround] at hcurrent
    rcases hcopies c hc with hc | ⟨-, htoken, -⟩
    · have hle := (hold.copies c hc).1
      rw [succ_inj hsrc, hx, turnOf_next] at hle
      omega
    · rw [htoken]
      exact hvalid

end Turn

/-- What becomes of a daemon between its turns, as far as the token is concerned. -/
structure Between (d d' : Daemon) : Prop where
  aru : d'.aru = d.aru
  setAru : d'.setAru = d.setAru
  numRetrans : d'.lastNumRetrans = d.lastNumRetrans
  numSent : d'.lastNumSent = d.lastNumSent
  token : d'.lastToken.data = d.lastToken.data
  rtr : d'.lastToken.rtr = d.lastToken.rtr ∨ d'.lastToken.rtr = []
  myAru : d.myAru ≤ d'.myAru
  delivered : d.lastDelivered ≤ d'.lastDelivered

section Between

variable {s₀ s s' : State n} {x : Fin n} {t t' : Token} {d : Daemon}

/-- A token sent again, without its requests. -/
theorem State.Valid.again (h : s.Valid s₀ cfg t) (hdata : t'.data = t.data)
    (hrtr : t'.rtr = t.rtr ∨ t'.rtr = []) : s.Valid s₀ cfg t' := by
  have hmarks : s.marks t' = s.marks t := by
    have haru : t'.aru = t.aru := Token.field_of_data Token.aru (fun _ => rfl) hdata
    have hlast : t'.aruLastId = t.aruLastId := Token.field_of_data Token.aruLastId (fun _ => rfl) hdata
    have hseq : t'.seq = t.seq := Token.field_of_data Token.seq (fun _ => rfl) hdata
    rw [marks, marks, haru, hlast, hseq]
  constructor
  case seq => exact (Token.field_of_data Token.seq (fun _ => rfl) hdata).trans h.seq
  case sound => rw [hmarks]; exact h.sound
  case flow => exact (Token.field_of_data Token.flowControl (fun _ => rfl) hdata).trans h.flow
  case rtr =>
    rcases hrtr with hrtr | hrtr
    · rw [hrtr]
      exact h.rtr
    · rw [hrtr]
      exact fun _ _ q hq => absurd hq List.not_mem_nil
  case begun => exact h.begun
  case first => exact h.first
  case pledged => rw [hmarks]; exact h.pledged

/-- What happens between the turns leaves a token as good as it was. -/
theorem State.Valid.between (h : s.Valid s₀ cfg t) (hbetween : Between (s.daemons x) d)
    (hdaemons : s'.daemons = Function.update s.daemons x d) (hlog : s'.log = s.log)
    (hnext : s'.next = s.next) (hround : s'.round = s.round) : s'.Valid s₀ cfg t := by
  have hfield : ∀ {β : Type} (f : Daemon → β), f d = f (s.daemons x) →
      (fun y => f (s'.daemons y)) = fun y => f (s.daemons y) := by
    intro β f hf
    funext y
    rw [hdaemons]
    by_cases hy : y = x
    · rw [hy, Function.update_self, hf]
    · rw [Function.update_of_ne hy]
  have haru := hfield Daemon.aru hbetween.aru
  have hturnOf : s'.turnOf = s.turnOf := by
    funext y
    simp only [turnOf, hnext, hround]
  have hmarks : s'.marks t = (s.marks t).advance x d.myAru := by
    apply LowWater.ext
    case mark =>
      simp only [marks, hdaemons]
      exact Function.comp_update Daemon.myAru s.daemons x d
    case seen => exact hfield (fun d => d.lastToken.aru) (Token.field_of_data Token.aru (fun _ => rfl) hbetween.token)
    case safe => exact haru
    case pledge => exact hfield Daemon.setAru hbetween.setAru
    case stamp =>
      funext y
      simp only [LowWater.advance, marks, stamp, turnOf, hnext, hround]
    case low => rfl
    case holder => rfl
    case top => rfl
  constructor
  case seq => rw [hlog]; exact h.seq
  case sound =>
    rw [hmarks]
    exact h.sound.advance hbetween.myAru
  case flow =>
    have hretrans := congrFun (hfield Daemon.lastNumRetrans hbetween.numRetrans)
    have hsent := congrFun (hfield Daemon.lastNumSent hbetween.numSent)
    simp only [sentInRound, hretrans, hsent]
    exact h.flow
  case rtr =>
    intro z y q hq
    rw [hlog, congrFun haru y]
    exact h.rtr z y q hq
  case begun => rw [hturnOf]; exact h.begun
  case first =>
    rw [hturnOf, hnext]
    refine fun hfirst => ⟨(h.first hfirst).1, fun y => ?_⟩
    rw [congrFun (hfield Daemon.setAru hbetween.setAru) y]
    exact (h.first hfirst).2 y
  case pledged =>
    rw [hturnOf, misled, hturnOf, hmarks]
    exact fun hfirst => (h.pledged hfirst).advance

/-- What happens at a daemon between its turns keeps the invariant. -/
theorem Inv.between (h : Inv cfg s₀ s) (hbetween : Between (s.daemons x) d)
    (hdaemons : s'.daemons = Function.update s.daemons x d) (hlog : s'.log = s.log)
    (hnext : s'.next = s.next) (hround : s'.round = s.round) (hexits : s'.exits = s.exits)
    (hbcasts : s'.bcasts = s.bcasts)
    (htokens : ∀ c ∈ s'.tokens, c ∈ s.tokens ∨ c.src = x ∧ c.round = s.turnOf x ∧
      c.token.data = (s.daemons x).lastToken.data ∧ c.token.rtr = [])
    (hholding : Holding s.log d)
    (hfeeds : ∀ up, Feeds x s.log up (s.submitted x) (s.daemons x) →
      Feeds x s.log up (s'.submitted x) d)
    (hsubmitted : ∀ y, y ≠ x → s'.submitted y = s.submitted y) : Inv cfg s₀ s' := by
  have hself : s'.daemons x = d := by rw [hdaemons, Function.update_self]
  have hother : ∀ y, y ≠ x → s'.daemons y = s.daemons y := by
    intro y hy
    rw [hdaemons, Function.update_of_ne hy]
  have hturnOf : s'.turnOf = s.turnOf := by
    funext y
    simp only [turnOf, hnext, hround]
  have hvalid : ∀ t, s.Valid s₀ cfg t → s'.Valid s₀ cfg t := fun t ht =>
    ht.between hbetween hdaemons hlog hnext hround
  constructor
  case exits => rw [hexits]; exact h.exits
  case rounds =>
    have hold := h.rounds
    constructor
    case arq =>
      intro y
      rw [hturnOf]
      by_cases hy : y = x
      · rw [hy, hself]
        exact (Token.field_of_data Token.arq (fun _ => rfl) hbetween.token).trans (hold.arq x)
      · rw [hother y hy]
        exact hold.arq y
    case copies =>
      intro c hc
      rw [hturnOf]
      rcases htokens c hc with hc | ⟨hcx, hcround, hdata, -⟩
      · exact hold.copies c hc
      · rw [hcx, hcround]
        exact ⟨le_rfl, (Token.field_of_data Token.arq (fun _ => rfl) hdata).trans (hold.arq x)⟩
  case ordered => rw [hlog]; exact h.ordered
  case senders => rw [hlog]; exact h.senders
  case bcasts => rw [hlog, hbcasts]; exact h.bcasts
  case holding =>
    intro y
    rw [hlog]
    by_cases hy : y = x
    · rw [hy, hself]
      exact hholding
    · rw [hother y hy]
      exact h.holding y
  case feeds =>
    obtain ⟨up, hup, hall⟩ := h.feeds
    rw [hlog]
    refine ⟨up, hup, fun y => ?_⟩
    by_cases hy : y = x
    · rw [hy, hself]
      exact hfeeds up (hall x)
    · rw [hother y hy, hsubmitted y hy]
      exact hall y
  case width =>
    intro y
    rw [hlog]
    by_cases hy : y = x
    · rw [hy, hself, hbetween.aru]
      exact h.width x
    · rw [hother y hy]
      exact h.width y
  case last =>
    intro y hy
    rw [hnext] at hy
    by_cases hyx : y = x
    · rw [hyx] at hy ⊢
      rw [hself]
      exact (hvalid _ (h.last x hy)).again hbetween.token hbetween.rtr
    · rw [hother y hyx]
      exact hvalid _ (h.last y hy)
  case copies =>
    intro c hc hsrc hcurrent
    rw [hnext] at hsrc
    rw [hturnOf] at hcurrent
    rcases htokens c hc with hc | ⟨hcx, -, hdata, hrtr⟩
    · exact hvalid _ (h.copies c hc hsrc hcurrent)
    · rw [hcx] at hsrc
      exact (hvalid _ (h.last x hsrc)).again hdata (.inr hrtr)

end Between

end Netbroker.Ring
