import Netbroker.Ring.System
import Netbroker.Ring.Turn

/-!
# Which token a daemon takes

A daemon tells the token that is due by the four bits of its `arq`: the leader waits for
the round that it opened itself, and the others for the round after their last one. As long
as no copy is 14 rounds old, the only copies that are taken were made on the last turn of
the predecessor, and by the daemon whose turn it is. So the turns go round.

Four facts follow each other: whose turn it is goes round, handlers that take no turn send the
last token again at most, a token is taken exactly if its number is due, and `Rounds` ties the
numbers to the rounds.
-/

namespace Netbroker.Ring

variable {n : Nat}

theorem succ_val (x : Fin n) : (succ x).val = if x.val + 1 = n then 0 else x.val + 1 := by
  simp only [succ]
  split
  · rename_i hlast
    rw [hlast, Nat.mod_self]
  · exact Nat.mod_eq_of_lt (by omega)

theorem succ_inj {x y : Fin n} (h : succ x = succ y) : x = y := by
  have hval := congrArg Fin.val h
  rw [succ_val, succ_val] at hval
  apply Fin.ext
  split at hval <;> split at hval <;> omega

namespace State

/-- A turn moves its daemon to the end of the order, and no other. -/
theorem turnOf_pass (s : State n) {x : Fin n} (hx : x = s.next) (y : Fin n) :
    (s.pass x).turnOf y = if y = x then s.round + 1 else s.turnOf y := by
  simp only [turnOf, pass, Fin.lt_def, succ_val, ← hx, Fin.ext_iff]
  split_ifs <;> omega

theorem turnOf_le (s : State n) (y : Fin n) : s.round ≤ s.turnOf y ∧ s.turnOf y ≤ s.round + 1 := by
  rw [turnOf]
  split <;> omega

theorem turnOf_next (s : State n) : s.turnOf s.next = s.round := by
  rw [turnOf, if_neg (lt_irrefl _)]

/-- The daemon whose turn is next waits longest. -/
theorem stamp_next_le (s : State n) (y : Fin n) : s.stamp s.next ≤ s.stamp y := by
  have hle := (s.turnOf_le y).1
  rw [stamp, stamp, Prod.Lex.toLex_le_toLex, turnOf_next]
  simp only
  by_cases hlt : y < s.next
  · rw [turnOf, if_pos hlt]
    exact .inl (Nat.lt_succ_self _)
  · rw [turnOf, if_neg hlt]
    exact .inr ⟨rfl, not_lt.mp hlt⟩

/-- And its new turn comes after those of all others. -/
theorem stamp_lt (s : State n) (y : Fin n) : s.stamp y < toLex (s.round + 1, s.next) := by
  rw [stamp, Prod.Lex.toLex_lt_toLex]
  simp only
  by_cases hlt : y < s.next
  · rw [turnOf, if_pos hlt]
    exact .inr ⟨rfl, hlt⟩
  · rw [turnOf, if_neg hlt]
    exact .inl (Nat.lt_succ_self _)

theorem stamp_pass (s : State n) {x : Fin n} (hx : x = s.next) :
    (s.pass x).stamp = Function.update s.stamp x (toLex (s.round + 1, x)) := by
  funext y
  by_cases hy : y = x
  · rw [hy, Function.update_self, stamp, turnOf_pass s hx, if_pos rfl]
  · rw [Function.update_of_ne hy, stamp, turnOf_pass s hx, if_neg hy]
    rfl

end State

/-- What a token and the copies of it that are sent again have in common. -/
def Token.data (t : Token) : Token := { t with retrans := 0, rtr := [] }

theorem Token.field_of_data {β : Type} {t t' : Token} (f : Token → β) (hf : ∀ t, f t.data = f t)
    (h : t'.data = t.data) : f t' = f t := by
  rw [← hf t', h, hf t]

namespace Daemon

/-- What only a turn or a packet changes. -/
def idle (d : Daemon) : Daemon :=
  { d with lastToken := d.lastToken.data, tokenCounter := 0 }

theorem field_of_idle {β : Type} {d d' : Daemon} (f : Daemon → β) (hf : ∀ d, f d.idle = f d)
    (h : d'.idle = d.idle) : f d' = f d := by
  rw [← hf d', h, hf d]

/-- The outcome of a handler that takes no turn: at most the last token is sent again,
without its requests. -/
structure Quiet (d : Daemon) (o : Outcome) : Prop where
  turn : o.turn = false
  bcasts : o.bcasts = []
  created : o.created = []
  idle : o.daemon.idle = d.idle
  tokens : ∀ t ∈ o.tokens, t.data = d.lastToken.data ∧ t.rtr = []
  rtr : o.daemon.lastToken.rtr = d.lastToken.rtr ∨ o.daemon.lastToken.rtr = []

theorem quiet_quiet (d : Daemon) : Quiet d (.quiet d) where
  turn := rfl
  bcasts := rfl
  created := rfl
  idle := rfl
  tokens t ht := by cases ht
  rtr := .inl rfl

theorem Quiet.of_idle {d d' : Daemon} {o : Outcome} (h : Quiet d' o) (hidle : d'.idle = d.idle)
    (hrtr : d'.lastToken.rtr = d.lastToken.rtr) : Quiet d o where
  turn := h.turn
  bcasts := h.bcasts
  created := h.created
  idle := h.idle.trans hidle
  tokens t ht := ⟨(h.tokens t ht).1.trans (congrArg Daemon.lastToken hidle), (h.tokens t ht).2⟩
  rtr := by rw [← hrtr]; exact h.rtr

variable (my : My) (d : Daemon)

theorem quiet_tokenHurry : Quiet d (d.tokenHurry my) := by
  have htoken : ∀ last : Token, last.data = d.lastToken.data → last.rtr = [] →
      Quiet d { Outcome.quiet { d with lastToken := last } with tokens := [last] } := by
    intro last hdata hrtr
    constructor
    case turn => rfl
    case bcasts => rfl
    case created => rfl
    case idle =>
      simp only [Outcome.quiet, idle]
      rw [hdata]
    case tokens =>
      intro t ht
      obtain rfl := List.mem_singleton.mp ht
      exact ⟨hdata, hrtr⟩
    case rtr => exact .inr hrtr
  rw [tokenHurry]
  split
  · exact htoken _ rfl rfl
  · exact htoken _ rfl rfl

theorem quiet_handleHurry : Quiet d (d.handleHurry my) := by
  rw [handleHurry]
  split
  · exact (quiet_tokenHurry my { d with tokenCounter := 0 }).of_idle rfl rfl
  · exact quiet_quiet d

theorem quiet_newMessage (m : DownLink) :
    Quiet { d with downQueue := d.downQueue ++ [m] } (d.newMessage my m).1 := by
  simp only [newMessage]
  split
  · split
    · exact quiet_handleHurry my _
    · exact quiet_quiet _
  · exact quiet_quiet _

/-- `Prot_handle_token` goes on to take the token. -/
def Takes (my : My) (d : Daemon) (t : Token) : Prop :=
  t.seq ≤ maxWrapSequenceValue ∧
    if my.isLeader then t.arq = d.lastToken.arq
    else t.arq ≠ d.lastToken.arq ∧ t.arq = (d.lastToken.arq + 1) % 0x10

instance (t : Token) : Decidable (d.Takes my t) := inferInstanceAs (Decidable (_ ∧ _))

theorem handleToken_of_takes {t : Token} (h : d.Takes my t) :
    d.handleToken my t = d.takeTurn my t := by
  obtain ⟨hseq, harq⟩ := h
  rw [handleToken, if_neg (by omega)]
  split
  · rename_i hleader
    rw [if_pos hleader] at harq
    rw [if_neg (not_not.mpr harq)]
  · rename_i hleader
    rw [if_neg hleader] at harq
    rw [if_neg harq.1, if_neg (not_not.mpr harq.2)]

theorem handleToken_of_not_takes {t : Token} (h : ¬ d.Takes my t) :
    ∃ o, d.handleToken my t = .ok o ∧ Quiet d o := by
  rw [handleToken]
  split
  · exact ⟨_, rfl, quiet_quiet d⟩
  · rename_i hseq
    split
    · rename_i hleader
      split
      · exact ⟨_, rfl, quiet_quiet d⟩
      · rename_i harq
        exact absurd ⟨by omega, by rw [if_pos hleader]; exact not_not.mp harq⟩ h
    · rename_i hleader
      split
      · split
        · exact ⟨_, rfl, (quiet_tokenHurry my { d with
            lastToken := { d.lastToken with retrans := t.retrans } }).of_idle rfl rfl⟩
        · exact ⟨_, rfl, quiet_quiet d⟩
      · rename_i hsame
        split
        · exact ⟨_, rfl, quiet_quiet d⟩
        · rename_i harq
          exact absurd ⟨by omega, by rw [if_neg hleader]; exact ⟨hsame, not_not.mp harq⟩⟩ h

end Daemon

namespace State

/-- The `arq` of each last token, and that of the copies of it, is that of its round. -/
structure Rounds (s : State n) : Prop where
  arq : ∀ x, (s.daemons x).lastToken.arq = s.turnOf x % 0x10
  copies : ∀ c ∈ s.tokens, c.round ≤ s.turnOf c.src ∧ c.token.arq = c.round % 0x10

/-- The daemon that takes a copy is the one whose turn it is, and the copy was made on its
predecessor's last turn. -/
theorem Rounds.of_takes {s : State n} (h : s.Rounds) {cfg : Config n} {x : Fin n}
    {c : TokenCopy n} (hc : c ∈ s.tokens) (hx : succ c.src = x) (hfresh : s.round < c.round + 14)
    (htakes : (s.daemons x).Takes (cfg.my x) c.token) :
    x = s.next ∧ c.round = s.turnOf c.src := by
  obtain ⟨hround, harq⟩ := h.copies c hc
  obtain ⟨-, hdue⟩ := htakes
  have hval := succ_val c.src
  rw [hx] at hval
  have hsrc := c.src.isLt
  have hnext := s.next.isLt
  rw [h.arq x, harq] at hdue
  simp only [Config.my, My.isLeader, turnOf, Fin.lt_def, Fin.ext_iff] at *
  split_ifs at * <;> omega

/-- And it does take such a copy. -/
theorem Rounds.takes_arq {s : State n} (h : s.Rounds) {cfg : Config n} {x : Fin n}
    {c : TokenCopy n} (hc : c ∈ s.tokens) (hx : succ c.src = x) (hnext : x = s.next)
    (hcurrent : c.round = s.turnOf c.src) :
    if (cfg.my x).isLeader then c.token.arq = (s.daemons x).lastToken.arq
    else c.token.arq ≠ (s.daemons x).lastToken.arq ∧
      c.token.arq = ((s.daemons x).lastToken.arq + 1) % 0x10 := by
  obtain ⟨-, harq⟩ := h.copies c hc
  have hval := succ_val c.src
  rw [hx] at hval
  have hsrc := c.src.isLt
  rw [h.arq x, harq, hcurrent]
  subst hnext
  simp only [Config.my, My.isLeader, turnOf, Fin.lt_def] at *
  split_ifs at * <;> omega

/-- The token that is passed on bears the number of its round. -/
theorem Rounds.next_arq {s : State n} (h : s.Rounds) (cfg : Config n) {x : Fin n}
    {c : TokenCopy n} (hc : c ∈ s.tokens) (hx : succ c.src = x) (hnext : x = s.next)
    (hcurrent : c.round = s.turnOf c.src) :
    (if (cfg.my x).isLeader then (c.token.arq + 1) % 0x10 else c.token.arq) =
      (s.round + 1) % 0x10 := by
  obtain ⟨-, harq⟩ := h.copies c hc
  have hval := succ_val c.src
  rw [hx] at hval
  have hsrc := c.src.isLt
  rw [harq, hcurrent]
  subst hnext
  simp only [Config.my, My.isLeader, turnOf, Fin.lt_def] at *
  split_ifs at * <;> omega

end State

end Netbroker.Ring
