import Netbroker.Groups.Memberships
import Netbroker.Transition.Machine

/-!
# A daemon, its clients and its memberships

What a client asks for goes to all daemons, and comes back to its own one in the order in
which it was asked for. `queue` is what is still on its way. A client that hangs up leaves
its session until the message that kills it comes back.

The memberships are those that lose daemons: a regular one has the daemons of the
transitional one before it. Its daemons then need not tell each other about their groups.

`Inv` is what holds between the events: the daemon is operating, and what is on its way
belongs to sessions. `Known` is the part of it that depends on the common events only, and
`Known.next` is how these change it.
-/

namespace Netbroker.Groups

open Spread Transition

/-- What a client asks for, by its private group. -/
inductive Request where
  | join (m n : Str)
  | leave (m n : Str)
  | kill (m : Str)
  deriving DecidableEq

def Request.client : Request → Str
  | .join m _ => m
  | .leave m _ => m
  | .kill m => m

def Request.kills : Request → Bool
  | .kill _ => true
  | _ => false

inductive Event where
  | connect (s : Session)
  | request (r : Request)
  | hangUp (m : Str)
  | deliver (r : Request)
  | transMemb (procIds : List ProcId) (membId : MembershipId)
  | regMemb (procIds : List ProcId) (membId : MembershipId)
  deriving DecidableEq

structure Node where
  daemon : Daemon
  queue : List Request

/-- The private group is that of a client of the daemon. -/
def Conf.isMy (site : Site) (m : Str) : Bool :=
  (site.conf.member m).any fun (_, procId) => procId = site.my.id

namespace Node

variable (site : Site)

/-- The handler of a message. -/
def handleRequest (d : Daemon) : Request → Except Exit Outcome
  | .join m n => handleJoin site d m n
  | .leave m n => handleLeave site d m n
  | .kill m => sessHandleKill site d m

/-- `Sess_kill`, as far as the session goes. -/
def hangUp (sessions : List Session) (m : Str) : List Session :=
  sessions.map fun s =>
    if (privateToNames m).any fun (name, _) => name = s.name then { s with op := false } else s

def handle (nd : Node) : Event → Except Exit (Node × List (Str × Notice))
  | .connect s =>
      .ok ({ nd with daemon := { nd.daemon with sessions := s :: nd.daemon.sessions } }, [])
  | .request r => .ok ({ nd with queue := nd.queue ++ [r] }, [])
  | .hangUp m =>
      .ok ({ daemon := { nd.daemon with sessions := hangUp nd.daemon.sessions m }
             queue := nd.queue ++ [.kill m] }, [])
  | .deliver r => do
      let o ← handleRequest site nd.daemon r
      let queue := if Conf.isMy site r.client then nd.queue.tail else nd.queue
      pure ({ daemon := o.daemon, queue }, o.notices)
  | .transMemb procIds membId => do
      let o ← handleTransMemb nd.daemon procIds membId
      pure ({ nd with daemon := o.daemon }, o.notices)
  | .regMemb procIds membId => do
      let o ← handleRegMemb site nd.daemon procIds membId
      pure ({ nd with daemon := o.daemon }, o.notices)

/-- A session that is open and has this private group. -/
def Open (d : Daemon) (m : Str) : Prop :=
  ∃ s ∈ d.sessions, s.op = true ∧ site.conf.member m = some (s.name, site.my.id)

/-- What may happen at a daemon. -/
def Enabled (nd : Node) : Event → Prop
  | .connect s => getSession nd.daemon.sessions s.name = none ∧ s.op = true
  | .request r => r.kills = false ∧ Open site nd.daemon r.client
  | .hangUp m => Open site nd.daemon m
  | .deliver r =>
      (r.kills = true → site.conf.member r.client ≠ none) ∧
      (Conf.isMy site r.client = true → nd.queue.head? = some r)
  | .transMemb procIds membId =>
      nd.daemon.gstate = .gop ∧ site.my.id ∈ procIds ∧ membId.isUnknown = false
  | .regMemb procIds membId =>
      nd.daemon.gstate = .gtrans ∧ nd.daemon.transMemb.length = procIds.length ∧
      membId.isUnknown = false

/-- A daemon in its first membership. -/
def Start (nd : Node) : Prop :=
  nd.daemon.gstate = .gop ∧ nd.daemon.groups = [] ∧ nd.daemon.sessions = [] ∧ nd.queue = [] ∧
  nd.daemon.regMembId.isUnknown = false

def machine : Machine Node Event (List (Str × Notice)) where
  init := Start
  step nd e := (handle site nd e).toOption

end Node

/-- A site with its own entry in the configuration. -/
structure Site.Sound (site : Site) : Prop where
  found : site.conf.procByName site.my.name = some site.my
  unique : ∀ name p, site.conf.procByName name = some p → p.id = site.my.id → name = site.my.name

theorem eq_of_privateToNames {m name procName : Str}
    (h : privateToNames m = some (name, procName)) : m = 35 :: (name ++ 35 :: procName) := by
  cases m with
  | nil => cases h
  | cons first rest =>
      rw [privateToNames] at h
      have hsplit := List.takeWhile_append_dropWhile (p := (· ≠ (35 : UInt8))) (l := rest)
      have hstop := List.head?_dropWhile_not (p := (· ≠ (35 : UInt8))) (l := rest)
      split at h
      · cases h
      · rename_i x procName' hdrop
        rw [hdrop] at hstop hsplit
        split at h
        · cases h
        · rename_i hlegal
          split at h
          · simp only [Option.some.injEq, Prod.mk.injEq] at h
            obtain ⟨rfl, rfl⟩ := h
            have hx : x = 35 := by simpa using hstop
            have hfirst : first = 35 := by
              simp only [Bool.or_eq_true, decide_eq_true_eq, not_or] at hlegal
              simpa using hlegal.1.1.1.1
            rw [hx] at hsplit
            rw [hfirst]
            exact congrArg (35 :: ·) hsplit.symm
          · cases h

/-- A client of the daemon is known by the name of its session. -/
theorem Site.Sound.member_inj {site : Site} (hsite : site.Sound) {m m' name : Str}
    (h : site.conf.member m = some (name, site.my.id))
    (h' : site.conf.member m' = some (name, site.my.id)) : m = m' := by
  obtain ⟨procName, p, hnames, hp, hid⟩ := Conf.member_eq_some.mp h
  obtain ⟨procName', p', hnames', hp', hid'⟩ := Conf.member_eq_some.mp h'
  rw [eq_of_privateToNames hnames, eq_of_privateToNames hnames', hsite.unique _ _ hp hid,
    hsite.unique _ _ hp' hid']

theorem Group.Local.congr {site : Site} {sessions sessions' : List Session} {g : Group}
    (h : g.Local site sessions)
    (hsame : ∀ m ∈ g.membersAt site site.my.id, mailboxOf sessions' m = mailboxOf sessions m) :
    g.Local site sessions' := by
  rw [Group.Local, List.map_congr_left hsame]
  exact h

/-- The local members have mailboxes. -/
theorem Group.Local.mailbox {site : Site} {sessions : List Session} {g : Group} {m : Str}
    (h : g.Local site sessions) (hm : m ∈ g.membersAt site site.my.id) :
    mailboxOf sessions m ≠ none := by
  intro hnone
  obtain ⟨y, -, hy⟩ := List.mem_map.mp (h.mem_iff.mpr (List.mem_map.mpr ⟨m, hm, hnone⟩))
  cases hy

theorem mailboxOf_eq {conf : Conf} {sessions : List Session} {m name : Str} {procId : ProcId}
    (hm : conf.member m = some (name, procId)) :
    mailboxOf sessions m = (getSession sessions name).map Session.mbox := by
  obtain ⟨procName, p, hnames, -, -⟩ := Conf.member_eq_some.mp hm
  rw [mailboxOf, hnames]
  cases hs : getSession sessions name <;> simp [hs]

theorem getSession_of_mem {sessions : List Session} (hnodup : (sessions.map Session.name).Nodup)
    {s : Session} (hs : s ∈ sessions) : getSession sessions s.name = some s := by
  induction sessions with
  | nil => exact absurd hs List.not_mem_nil
  | cons s' rest ih =>
      rw [List.map_cons, List.nodup_cons] at hnodup
      rcases List.mem_cons.mp hs with rfl | hs
      · rw [getSession, List.find?_cons_of_pos (by simp)]
      · have hne : s'.name ≠ s.name := fun heq =>
          hnodup.1 (heq ▸ List.mem_map.mpr ⟨s, hs, rfl⟩)
        rw [getSession, List.find?_cons_of_neg (by simpa using hne)]
        exact ih hnodup.2 hs

theorem getSession_erase {sessions : List Session} {s : Session} {name : Str}
    (hne : s.name ≠ name) : getSession (sessions.erase s) name = getSession sessions name := by
  induction sessions with
  | nil => rfl
  | cons s' rest ih =>
      by_cases heq : s' = s
      · rw [heq, List.erase_cons_head, getSession, getSession,
          List.find?_cons_of_neg (by simpa using hne)]
      · rw [List.erase_cons_tail (by simpa using heq)]
        by_cases hname : s'.name = name
        · rw [getSession, getSession, List.find?_cons_of_pos (by simpa using hname),
            List.find?_cons_of_pos (by simpa using hname)]
        · rw [getSession, getSession, List.find?_cons_of_neg (by simpa using hname),
            List.find?_cons_of_neg (by simpa using hname)]
          exact ih

namespace Node

variable {site : Site}

theorem hangUp_name (sessions : List Session) (m : Str) :
    (hangUp sessions m).map Session.name = sessions.map Session.name := by
  rw [hangUp, List.map_map]
  refine List.map_congr_left fun s _ => ?_
  simp only [Function.comp]
  split
  · rfl
  · rfl

theorem mem_hangUp {sessions : List Session} {m : Str} {s' : Session}
    (hs' : s' ∈ hangUp sessions m) :
    ∃ s ∈ sessions, s'.name = s.name ∧ (s.op = false → s'.op = false) ∧
      ∀ procName, privateToNames m = some (s'.name, procName) → s'.op = false := by
  obtain ⟨s, hs, rfl⟩ := List.mem_map.mp hs'
  refine ⟨s, hs, ?_⟩
  split
  · exact ⟨rfl, fun _ => rfl, fun _ _ => rfl⟩
  · rename_i hno
    refine ⟨rfl, fun hop => hop, fun procName hnames => absurd ?_ hno⟩
    rw [hnames]
    simp

theorem mailboxOf_hangUp (sessions : List Session) (m m' : Str) :
    mailboxOf (hangUp sessions m) m' = mailboxOf sessions m' := by
  rw [mailboxOf, mailboxOf]
  cases privateToNames m' with
  | none => rfl
  | some names =>
      have hfind : getSession (hangUp sessions m) names.1 = (getSession sessions names.1).map
          fun s => if (privateToNames m).any fun (name, _) => name = s.name
            then { s with op := false } else s := by
        rw [getSession, getSession, hangUp, List.find?_map]
        congr 2
        funext s
        simp only [Function.comp]
        split
        · rfl
        · rfl
      simp only [Option.bind_eq_bind, Option.bind_some, hfind]
      cases getSession sessions names.1 with
      | none => rfl
      | some s =>
          simp only [Option.map_some, Option.bind_some]
          split
          · rfl
          · rfl

/-- What holds of a daemon and its clients between the events. -/
structure Inv (site : Site) (nd : Node) : Prop where
  operating : nd.daemon.Operating site
  names : (nd.daemon.sessions.map Session.name).Nodup
  /-- What is on its way has a session. -/
  live : ∀ r ∈ nd.queue, ∃ s ∈ nd.daemon.sessions,
    site.conf.member r.client = some (s.name, site.my.id)
  /-- The client that is killed has hung up. -/
  killed : ∀ r ∈ nd.queue, r.kills = true → ∀ s ∈ nd.daemon.sessions,
    site.conf.member r.client = some (s.name, site.my.id) → s.op = false
  /-- It asks for nothing more. -/
  last : nd.queue.Pairwise fun r r' => r.kills = true → r'.client ≠ r.client
  here : nd.daemon.gstate = .gtrans → site.my.id ∈ nd.daemon.transMemb

/-- Other sessions, with the same mailboxes of the local members. -/
theorem operating_congr {d : Daemon} (h : d.Operating site)
    {sessions : List Session}
    (hsame : ∀ g ∈ d.groups, ∀ m ∈ g.membersAt site site.my.id,
      mailboxOf sessions m = mailboxOf d.sessions m) :
    Daemon.Operating site { d with sessions } where
  state := h.state
  tidy := ⟨h.tidy.ordered, fun g hg =>
    ⟨(h.tidy.groups g hg).formed, (h.tidy.groups g hg).nonempty,
      (h.tidy.groups g hg).here.congr (hsame g hg)⟩⟩
  current := h.current
  marked := h.marked

theorem isMy_iff {m : Str} :
    Conf.isMy site m = true ↔ ∃ name, site.conf.member m = some (name, site.my.id) := by
  rw [Conf.isMy]
  cases hm : site.conf.member m with
  | none => simp
  | some names =>
      obtain ⟨name, procId⟩ := names
      simp

/-- The session of a client that has asked for something. -/
theorem Inv.session {nd : Node} (h : Inv site nd) {r : Request} (hr : r ∈ nd.queue) {name : Str}
    (hm : site.conf.member r.client = some (name, site.my.id)) :
    ∃ s ∈ nd.daemon.sessions, s.name = name ∧ getSession nd.daemon.sessions name = some s := by
  obtain ⟨s, hs, hs'⟩ := h.live r hr
  rw [hm, Option.some.injEq, Prod.mk.injEq] at hs'
  exact ⟨s, hs, hs'.1.symm, hs'.1 ▸ getSession_of_mem h.names hs⟩

theorem Inv.local {nd : Node} (h : Inv site nd) {r : Request}
    (hhead : Conf.isMy site r.client = true → nd.queue.head? = some r) :
    Daemon.Local site nd.daemon.sessions r.client := by
  intro name hm
  obtain ⟨s, -, -, hs⟩ := h.session (List.mem_of_mem_head? (hhead (isMy_iff.mpr ⟨name, hm⟩))) hm
  rw [hs]
  rfl

/-- Clients come with new names. -/
theorem Inv.connect {nd : Node} (h : Inv site nd) {s : Session}
    (hnew : getSession nd.daemon.sessions s.name = none) :
    Inv site { nd with daemon := { nd.daemon with sessions := s :: nd.daemon.sessions } } where
  operating := by
    refine operating_congr h.operating fun g hg m hm => ?_
    have hlocal := (h.operating.tidy.groups g hg).here
    obtain ⟨name, hname⟩ := (h.operating.tidy.groups g hg).formed.named hm
    have hmbox := hlocal.mailbox hm
    rw [mailboxOf_eq hname] at hmbox ⊢
    rw [mailboxOf_eq hname]
    have hne : s.name ≠ name := by
      rintro rfl
      rw [hnew] at hmbox
      exact hmbox rfl
    rw [getSession, List.find?_cons_of_neg (by simpa using hne)]
    rfl
  names := by
    refine List.nodup_cons.mpr ⟨fun hmem => ?_, h.names⟩
    obtain ⟨s', hs', hname⟩ := List.mem_map.mp hmem
    rw [← hname, getSession_of_mem h.names hs'] at hnew
    cases hnew
  live := fun r hr => by
    obtain ⟨s', hs', hm⟩ := h.live r hr
    exact ⟨s', List.mem_cons_of_mem _ hs', hm⟩
  killed := by
    intro r hr hkills s' hs' hm
    rcases List.mem_cons.mp hs' with rfl | hs'
    · obtain ⟨s, -, -, hs⟩ := h.session hr hm
      rw [hs] at hnew
      cases hnew
    · exact h.killed r hr hkills s' hs' hm
  last := h.last
  here := h.here

/-- An open client has not been killed. -/
theorem Inv.not_killed {nd : Node} (h : Inv site nd) {m : Str} (hopen : Open site nd.daemon m)
    {r : Request} (hr : r ∈ nd.queue) (hkills : r.kills = true) : m ≠ r.client := by
  rintro rfl
  obtain ⟨s, hs, hop, hm⟩ := hopen
  rw [h.killed r hr hkills s hs hm] at hop
  cases hop

theorem Inv.request {nd : Node} (h : Inv site nd) {r : Request} (hkills : r.kills = false)
    (hopen : Open site nd.daemon r.client) : Inv site { nd with queue := nd.queue ++ [r] } where
  operating := h.operating
  names := h.names
  live := by
    intro r' hr'
    rcases List.mem_append.mp hr' with hr' | hr'
    · exact h.live r' hr'
    · obtain ⟨s, hs, -, hm⟩ := hopen
      rw [List.mem_singleton.mp hr']
      exact ⟨s, hs, hm⟩
  killed := by
    intro r' hr' hkills'
    rcases List.mem_append.mp hr' with hr' | hr'
    · exact h.killed r' hr' hkills'
    · rw [List.mem_singleton.mp hr', hkills] at hkills'
      cases hkills'
  last := by
    refine List.pairwise_append.mpr ⟨h.last, List.pairwise_singleton _ _, fun r' hr' r'' hr'' => ?_⟩
    rw [List.mem_singleton.mp hr'']
    exact h.not_killed hopen hr'
  here := h.here

theorem Inv.hangUp {nd : Node} (h : Inv site nd) {m : Str} (hopen : Open site nd.daemon m) :
    Inv site
      { daemon := { nd.daemon with sessions := hangUp nd.daemon.sessions m }
        queue := nd.queue ++ [.kill m] } where
  operating := operating_congr h.operating fun _ _ m' _ => mailboxOf_hangUp _ m m'
  names := by
    simp only [hangUp_name]
    exact h.names
  live := by
    have hsame : ∀ s ∈ nd.daemon.sessions, ∃ s' ∈ Node.hangUp nd.daemon.sessions m,
        s'.name = s.name := fun s hs => by
      have hmem : s.name ∈ nd.daemon.sessions.map Session.name := List.mem_map.mpr ⟨s, hs, rfl⟩
      rw [← hangUp_name nd.daemon.sessions m] at hmem
      obtain ⟨s', hs', hname⟩ := List.mem_map.mp hmem
      exact ⟨s', hs', hname⟩
    intro r hr
    rcases List.mem_append.mp hr with hr | hr
    · obtain ⟨s, hs, hm⟩ := h.live r hr
      obtain ⟨s', hs', hname⟩ := hsame s hs
      exact ⟨s', hs', hname ▸ hm⟩
    · obtain ⟨s, hs, -, hm⟩ := hopen
      obtain ⟨s', hs', hname⟩ := hsame s hs
      rw [List.mem_singleton.mp hr]
      exact ⟨s', hs', hname ▸ hm⟩
  killed := by
    intro r hr hkills s' hs' hm
    obtain ⟨s, hs, hname, hop, hclosed⟩ := mem_hangUp hs'
    rcases List.mem_append.mp hr with hr | hr
    · exact hop (h.killed r hr hkills s hs (hname ▸ hm))
    · rw [List.mem_singleton.mp hr] at hm
      obtain ⟨procName, p, hnames, -, -⟩ := Conf.member_eq_some.mp hm
      exact hclosed procName hnames
  last := by
    refine List.pairwise_append.mpr ⟨h.last, List.pairwise_singleton _ _, fun r' hr' r'' hr'' => ?_⟩
    rw [List.mem_singleton.mp hr'']
    exact h.not_killed hopen hr'
  here := h.here

/-- The message of a client is handled, and its groups are all that has changed. -/
theorem Inv.handled {nd : Node} (h : Inv site nd) (r : Request) {t : Table} {o : Outcome}
    (ho : Daemon.Handled site nd.daemon t o) :
    Inv site
      { daemon := o.daemon
        queue := if Conf.isMy site r.client then nd.queue.tail else nd.queue } := by
  have hsub : ∀ r' ∈ (if Conf.isMy site r.client then nd.queue.tail else nd.queue),
      r' ∈ nd.queue := by
    intro r' hr'
    split at hr'
    · exact List.mem_of_mem_tail hr'
    · exact hr'
  have hsessions : o.daemon.sessions = nd.daemon.sessions := by rw [ho.groups]
  have hgstate : o.daemon.gstate = nd.daemon.gstate := by rw [ho.groups]
  have htransMemb : o.daemon.transMemb = nd.daemon.transMemb := by rw [ho.groups]
  constructor
  case operating => exact ho.operating
  case names =>
    simp only [hsessions]
    exact h.names
  case live =>
    simp only [hsessions]
    exact fun r' hr' => h.live r' (hsub r' hr')
  case killed =>
    simp only [hsessions]
    exact fun r' hr' => h.killed r' (hsub r' hr')
  case last =>
    simp only
    split
    · exact h.last.tail
    · exact h.last
  case here =>
    simp only [hgstate, htransMemb]
    exact h.here

/-- No group has a member that was killed. -/
theorem kill_not_mem {d d' : Daemon} {m : Str} (hd : d'.Operating site)
    (htable : d'.table = d.table.kill m) {g : Group} (hg : g ∈ d'.groups) : m ∉ g.members := by
  have hget : d'.getGroup g.name = some g := hd.tidy.ordered.find_of_mem strncmp_total hg
  have hview := congrFun htable g.name
  rw [Daemon.table_eq, hget, Table.kill, Table.bind] at hview
  obtain ⟨v, -, hv⟩ := Option.bind_eq_some_iff.mp hview.symm
  intro hm
  have hmem : m ∈ g.view.members := hm
  rw [View.without] at hv
  split at hv
  · rename_i hno
    rw [Option.some.inj hv] at hno
    exact hno hmem
  · split at hv
    · cases hv
    · rw [← Option.some.inj hv] at hmem
      exact hmem.2 rfl

/-- What `Sess_handle_kill` leaves. -/
structure Killed (site : Site) (nd : Node) (m : Str) (o : Outcome) : Prop where
  inv : Inv site
    { daemon := o.daemon
      queue := if Conf.isMy site m then nd.queue.tail else nd.queue }
  frame : o.daemon = { nd.daemon with groups := o.daemon.groups, sessions := o.daemon.sessions }
  table : o.daemon.table = nd.daemon.table.kill m

theorem Inv.kill {nd : Node} (hsite : site.Sound) (h : Inv site nd) {m : Str}
    (hlegal : site.conf.member m ≠ none)
    (hhead : Conf.isMy site m = true → nd.queue.head? = some (.kill m)) :
    Returns (sessHandleKill site nd.daemon m) fun o => Killed site nd m o := by
  have hlocal : Daemon.Local site nd.daemon.sessions m := h.local (r := .kill m) hhead
  rw [sessHandleKill]
  cases hnames : privateToNames m with
  | none => exact absurd (by simp [Conf.member, hnames]) hlegal
  | some names =>
  obtain ⟨privateName, procName⟩ := names
  refine (Daemon.handleKill_returns h.operating hlocal).bind fun o ho => ?_
  have hinv := h.handled (.kill m) ho
  have hsessions : o.daemon.sessions = nd.daemon.sessions := by rw [ho.groups]
  split
  · refine .pure ⟨hinv, ?_, ho.table⟩
    rw [hsessions]
    exact ho.groups
  rename_i hown
  have hmember : site.conf.member m = some (privateName, site.my.id) := by
    refine Conf.member_eq_some.mpr ⟨procName, site.my, hnames, ?_, rfl⟩
    rw [not_not.mp hown]
    exact hsite.found
  have hmy : Conf.isMy site m = true := isMy_iff.mpr ⟨privateName, hmember⟩
  have hmem : Request.kill m ∈ nd.queue := List.mem_of_mem_head? (hhead hmy)
  obtain ⟨s, hs, hname, hget⟩ := h.session hmem hmember
  have hop : s.op = false := h.killed _ hmem rfl s hs (hname ▸ hmember)
  simp only [hsessions, hget, hop, Bool.false_eq_true, if_false]
  refine .pure ⟨⟨?operating, ?names, ?live, ?killed, hinv.last, hinv.here⟩, ?_, ho.table⟩
  case operating =>
    refine operating_congr ho.operating fun g hg m' hm' => ?_
    have hformed := (ho.operating.tidy.groups g hg).formed
    obtain ⟨name', hname'⟩ := hformed.named hm'
    have hne : s.name ≠ name' := by
      rintro rfl
      have heq := hsite.member_inj hname' (hname ▸ hmember)
      refine kill_not_mem ho.operating ho.table hg ?_
      rw [← heq]
      exact hformed.mem_members.mpr ⟨_, hm'⟩
    rw [mailboxOf_eq hname', mailboxOf_eq hname', getSession_erase hne, hsessions]
  case names => exact (List.erase_sublist.map Session.name).nodup h.names
  case live =>
    intro r hr
    simp only [hmy, if_true] at hr
    obtain ⟨s', hs', hm'⟩ := h.live r (List.mem_of_mem_tail hr)
    refine ⟨s', ?_, hm'⟩
    refine (List.mem_erase_of_ne ?_).mpr hs'
    rintro rfl
    have hsplit : nd.queue = .kill m :: nd.queue.tail := by
      obtain ⟨rest, hrest⟩ := List.head?_eq_some_iff.mp (hhead hmy)
      rw [hrest]
      rfl
    have hlast := h.last
    rw [hsplit] at hlast
    exact List.rel_of_pairwise_cons hlast hr rfl (hsite.member_inj hm' (hname ▸ hmember))
  case killed =>
    intro r hr hkills s' hs'
    simp only [hmy, if_true] at hr
    exact h.killed r (List.mem_of_mem_tail hr) hkills s' (List.mem_of_mem_erase hs')
  · rw [ho.groups]

end Node

/-- What a daemon knows of the groups and of its membership. -/
structure Known where
  gstate : Gstate
  table : Table
  transMemb : List ProcId
  transMembId : MembershipId
  regMemb : List ProcId
  regMembId : MembershipId

def Daemon.known (d : Daemon) : Known :=
  { gstate := d.gstate
    table := d.table
    transMemb := d.transMemb
    transMembId := d.transMembId
    regMemb := d.regMemb
    regMembId := d.regMembId }

namespace Known

def current (k : Known) : MembershipId := if k.gstate = .gop then k.regMembId else k.transMembId

noncomputable def request (conf : Conf) (k : Known) : Request → Table
  | .join m n =>
      match conf.member m with
      | none => k.table
      | some (_, procId) =>
          k.table.join k.current m n (¬ (k.gstate = .gop ∨ procId ∈ k.transMemb))
  | .leave m n => k.table.leave m n
  | .kill m => k.table.kill m

/-- What all daemons of a membership learn from an event. The events of the own clients are
for their daemon only. -/
noncomputable def next (conf : Conf) (k : Known) : Event → Known
  | .deliver r => { k with table := k.request conf r }
  | .transMemb procIds membId =>
      { k with
        gstate := .gtrans
        table := k.table.map (View.cut (conf.membersOf procIds) membId)
        transMemb := procIds
        transMembId := membId }
  | .regMemb procIds membId =>
      { k with
        gstate := .gop
        table := k.table.bind fun v =>
          (v.stay (conf.membersOf k.transMemb)).map (View.settle membId)
        regMemb := procIds
        regMembId := membId }
  | _ => k

end Known

namespace Node

variable {site : Site}

/-- Each event that may happen is handled without an alarm, keeps what holds of the daemon
and teaches it what it teaches every daemon. -/
theorem Inv.handle {nd : Node} (hsite : site.Sound) (h : Inv site nd) {e : Event}
    (he : Enabled site nd e) :
    Returns (nd.handle site e) fun r =>
      Inv site r.1 ∧ r.1.daemon.known = nd.daemon.known.next site.conf e := by
  cases e with
  | connect s => exact .ok ⟨h.connect he.1, rfl⟩
  | request r => exact .ok ⟨h.request he.1 he.2, rfl⟩
  | hangUp m => exact .ok ⟨h.hangUp he, rfl⟩
  | deliver r =>
      obtain ⟨hlegal, hhead⟩ := he
      have hdone : ∀ {t : Table}, t = nd.daemon.known.request site.conf r → ∀ {o : Outcome},
          Daemon.Handled site nd.daemon t o → o.daemon.known =
            nd.daemon.known.next site.conf (.deliver r) := by
        rintro _ rfl o ho
        have htable := ho.table
        rw [Daemon.known, htable, ho.groups]
        rfl
      cases r with
      | join m n =>
          refine (Daemon.handleJoin_returns h.operating (h.local hhead)).bind fun o ho => .pure ?_
          exact ⟨h.handled _ ho, hdone rfl ho⟩
      | leave m n =>
          refine (Daemon.handleLeave_returns h.operating (h.local hhead)).bind fun o ho => .pure ?_
          exact ⟨h.handled _ ho, hdone rfl ho⟩
      | kill m =>
          refine (h.kill hsite (hlegal rfl) hhead).bind fun o ho => .pure ⟨ho.inv, ?_⟩
          have htable := ho.table
          simp only [Daemon.known, htable]
          rw [ho.frame]
          rfl
  | transMemb procIds membId =>
      obtain ⟨hstate, hmy, hknown⟩ := he
      refine (Daemon.handleTransMemb_returns h.operating hstate procIds hknown).bind
        fun o ho => .pure ?_
      obtain ⟨hoperating, hframe, htable, -⟩ := ho
      have hsessions : o.daemon.sessions = nd.daemon.sessions := by rw [hframe]
      have htransMemb : o.daemon.transMemb = procIds := by rw [hframe]
      refine ⟨⟨hoperating, ?_, ?_, ?_, h.last, ?_⟩, ?_⟩
      · simpa only [hsessions] using h.names
      · simpa only [hsessions] using h.live
      · simpa only [hsessions] using h.killed
      · simpa only [htransMemb] using fun _ => hmy
      · simp only [Daemon.known, htable]
        rw [hframe]
        rfl
  | regMemb procIds membId =>
      obtain ⟨hstate, hlen, hknown⟩ := he
      refine (Daemon.handleRegMemb_returns h.operating hstate (h.here hstate) hlen hknown).bind
        fun o ho => .pure ?_
      obtain ⟨hoperating, hframe, htable, -⟩ := ho
      have hsessions : o.daemon.sessions = nd.daemon.sessions := by rw [hframe]
      have hgstate : o.daemon.gstate = .gop := by rw [hframe]
      refine ⟨⟨hoperating, ?_, ?_, ?_, h.last, ?_⟩, ?_⟩
      · simpa only [hsessions] using h.names
      · simpa only [hsessions] using h.live
      · simpa only [hsessions] using h.killed
      · simp [hgstate]
      · simp only [Daemon.known, htable]
        rw [hframe]
        rfl

theorem Start.inv {nd : Node} (h : Start nd) : Inv site nd := by
  obtain ⟨hstate, hgroups, hsessions, hqueue, hknown⟩ := h
  refine ⟨⟨.inl hstate, ⟨?_, ?_⟩, ?_, ?_⟩, ?_, ?_, ?_, ?_, ?_⟩
  · rw [hgroups]
    exact .nil
  · simp [hgroups]
  · simpa [Daemon.current, hstate] using hknown
  · simp [hgroups]
  · simp [hsessions]
  · simp [hqueue]
  · simp [hqueue]
  · simp [hqueue]
  · simp [hstate]

end Node

end Netbroker.Groups
