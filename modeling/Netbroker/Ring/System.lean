import Mathlib.Data.Fin.Basic
import Mathlib.Data.Prod.Lex
import Mathlib.Order.Fin.Basic
import Netbroker.Ring.Token
import Netbroker.Transition.Machine

/-!
# The daemons of a membership and their network

Datagrams are lost, repeated and reordered: whatever has been sent stays on the network,
and a daemon may receive it at any time, any number of times, or never. The run begins
when the first daemon back in the state `OP` gets the token that `Read_form2` has built,
and it ends with the membership.

Four fields are history that no daemon reads: the packets in the order of their creation,
the rounds the token has made, the daemon whose turn is next, and the messages that each
daemon was given. A token copy carries the round in which its sender had its turn.
-/

namespace Netbroker.Ring

open Transition

variable {n : Nat}

/-- What the daemons know of the membership they form. -/
structure Config (n : Nat) where
  membId : Nat
  segIndex : Fin n → Nat
  size : n ≤ maxProcsRing

def Config.my (cfg : Config n) (x : Fin n) : My :=
  { id := x, segIndex := cfg.segIndex x, membId := cfg.membId }

/-- The daemon that `Token_address` names. -/
def succ (x : Fin n) : Fin n := ⟨(x + 1) % n, Nat.mod_lt _ x.pos⟩

structure TokenCopy (n : Nat) where
  token : Token
  src : Fin n
  round : Nat
  deriving DecidableEq

structure State (n : Nat) where
  daemons : Fin n → Daemon
  exits : Fin n → Option Exit
  bcasts : List Packet
  tokens : List (TokenCopy n)
  hurries : List (Fin n)
  log : List Packet
  round : Nat
  next : Fin n
  submitted : Fin n → List DownLink

namespace State

/-- The round in which a daemon had its last turn. -/
def turnOf (s : State n) (x : Fin n) : Nat := if x < s.next then s.round + 1 else s.round

/-- The turns in their order. -/
def stamp (s : State n) (x : Fin n) : Nat ×ₗ Fin n := toLex (s.turnOf x, x)

/-- The daemon has had its turn. -/
def pass (s : State n) (x : Fin n) : State n :=
  { s with next := succ x, round := if x.val + 1 = n then s.round + 1 else s.round }

/-- What a handler of daemon `x` does to the whole. -/
def act (s : State n) (x : Fin n) : Except Exit Outcome → State n
  | .error e => { s with exits := Function.update s.exits x (some e) }
  | .ok o =>
      let s := if o.turn then s.pass x else s
      { s with
        daemons := Function.update s.daemons x o.daemon
        bcasts := s.bcasts ++ o.bcasts
        log := s.log ++ o.created
        tokens := s.tokens ++ o.tokens.map fun t => ⟨t, x, s.turnOf x⟩ }

end State

inductive Event (n : Nat) where
  | newMessage (x : Fin n) (m : DownLink)
  | handleBcast (x : Fin n) (packets : List Packet)
  | handleToken (x : Fin n) (copy : TokenCopy n)
  | tokenHurry (x : Fin n)
  | handleHurry (x src : Fin n)

/-- The daemon that an event happens at. -/
def Event.at : Event n → Fin n
  | .newMessage x _ | .handleBcast x _ | .handleToken x _ | .tokenHurry x | .handleHurry x _ => x

namespace State

/-- An event needs a daemon that is running and, on the network, what it receives. The
timer of `Prot_token_hurry` runs at the leader only. -/
def Enabled (cfg : Config n) (s : State n) (e : Event n) : Prop :=
  s.exits e.at = none ∧
    match e with
    | .newMessage _ _ => True
    | .handleBcast _ packets => ∀ p ∈ packets, p ∈ s.bcasts
    | .handleToken x copy => copy ∈ s.tokens ∧ succ copy.src = x
    | .tokenHurry x => (cfg.my x).isLeader
    | .handleHurry _ src => src ∈ s.hurries

instance (cfg : Config n) (s : State n) (e : Event n) : Decidable (s.Enabled cfg e) := by
  unfold Enabled
  cases e <;> infer_instance

/-- What the daemon does. -/
def handle (cfg : Config n) (s : State n) : Event n → State n
  | .newMessage x m =>
      let (o, hurry) := (s.daemons x).newMessage (cfg.my x) m
      let s := s.act x (.ok o)
      { s with
        hurries := if hurry then s.hurries ++ [x] else s.hurries
        submitted := Function.update s.submitted x (s.submitted x ++ [m]) }
  | .handleBcast x packets =>
      s.act x (((s.daemons x).handleBcast packets).map Outcome.quiet)
  | .handleToken x copy => s.act x ((s.daemons x).handleToken (cfg.my x) copy.token)
  | .tokenHurry x => s.act x (.ok ((s.daemons x).tokenHurry (cfg.my x)))
  | .handleHurry x _ => s.act x (.ok ((s.daemons x).handleHurry (cfg.my x)))

end State

/-- The state of a daemon whose membership has just become regular, apart from what is
left of the rounds before: its own messages, the token it has sent, and its counts. -/
structure Installed (d : Daemon) (arq : Nat) : Prop where
  highestSeq : d.highestSeq = 0
  myAru : d.myAru = 0
  aru : d.aru = 0
  setAru : d.setAru = none
  lastDiscarded : d.lastDiscarded = 0
  lastDelivered : d.lastDelivered = 0
  curElement : d.curElement = 0
  messages : ∀ m ∈ d.downQueue, m.mess ≠ []
  packets : ∀ i, d.packets i = none
  up : d.up = .empty
  tokenAru : d.lastToken.aru = 0
  tokenSeq : d.lastToken.seq = 0
  tokenRtr : d.lastToken.rtr = []
  tokenArq : d.lastToken.arq = arq

/-- The datagrams of the last turns of all daemons, which the token's `flow_control` adds
up. -/
def State.sentInRound (s : State n) : Int :=
  (List.ofFn fun x => ((s.daemons x).lastNumRetrans + (s.daemons x).lastNumSent : Int)).sum

/-- The first state of a membership: every daemon is installed, nothing has been sent, and
the tokens on the network come from the rounds that installed it. Those of the last of
them may have any `aru`: it is the `Last_seq` of these rounds, or 0 on a token sent again. -/
structure Start (s : State n) : Prop where
  daemons : ∀ x, Installed (s.daemons x) (s.turnOf x % 0x10)
  exits : ∀ x, s.exits x = none
  bcasts : s.bcasts = []
  log : s.log = []
  submitted : ∀ x, s.submitted x = (s.daemons x).downQueue
  copies : ∀ c ∈ s.tokens, c.round ≤ s.turnOf c.src ∧ c.token.arq = c.round % 0x10
  current : ∀ c ∈ s.tokens, c.round = s.turnOf c.src → c.token.seq = 0 ∧ c.token.rtr = []
  flow : ∀ c ∈ s.tokens, c.round = s.turnOf c.src → succ c.src = s.next →
    c.token.flowControl = Daemon.int16 s.sentInRound
  lastFlow : ∀ x, succ x = s.next →
    (s.daemons x).lastToken.flowControl = Daemon.int16 s.sentInRound

/-- A copy of the token is not delivered any more once the token has gone round 14 times
since, and every message has an element. -/
def Legal (s : State n) : Event n → Prop
  | .handleToken _ copy => s.round < copy.round + 14
  | .newMessage _ m => m.mess ≠ []
  | _ => True

instance (s : State n) (e : Event n) : Decidable (Legal s e) := by
  unfold Legal
  cases e <;> infer_instance

/-- The token is not at `Set_aru`, or it is not for this reason alone that `Token->aru` is
raised. -/
def Daemon.Informed (my : My) (d : Daemon) (t : Token) : Prop :=
  d.setAru = some t.aru → t.aruLastId = my.id ∨ t.aru = t.seq

instance (my : My) (d : Daemon) (t : Token) : Decidable (d.Informed my t) :=
  inferInstanceAs (Decidable (_ → _))

/-- In a membership that began in `s₀`, the second turn of the daemon that had the first
one is informed. -/
def Steady (cfg : Config n) (s₀ s : State n) (e : Event n) : Prop :=
  Legal s e ∧
    match e with
    | .handleToken x copy => x = s₀.next → s.round = s₀.round + 1 →
        (s.daemons x).Informed (cfg.my x) copy.token
    | _ => True

instance (cfg : Config n) (s₀ s : State n) (e : Event n) : Decidable (Steady cfg s₀ s e) := by
  unfold Steady
  cases e <;> infer_instance

def machine (cfg : Config n) : Machine (State n) (Event n) Unit where
  init := Start
  step s e := if s.Enabled cfg e then some (s.handle cfg e, ()) else none

end Netbroker.Ring
