import Netbroker.Groups.Sessions

/-!
# The daemons of a membership agree on the groups

What a daemon knows after a run is what the events that all daemons have in common have taught
it. From that its groups follow, with their identifiers and with all members in their order.

`Known.next` is what a common event teaches, whatever the clients of the daemon do beside it.
Up to the first common event daemons may know different things of the memberships before:
`Known.now` is what counts of it.

A daemon that begins without groups and comes through a run holds exactly the clients that
have joined and since then neither left, nor been killed, nor been lost with their daemons.
Two daemons of one configuration serve as an example.
-/

namespace Netbroker.Groups

open Spread Transition

/-- A group without the sessions of the daemon that has it. -/
def Group.info (g : Group) : GroupInfo :=
  { name := g.name, grpId := g.grpId, changed := g.changed, daemons := g.daemons }

namespace Group

variable {site site' : Site} {g g' : Group} {present : ProcId → Prop}

theorem Formed.mem_membersAt (h : g.Formed site.conf) {m : Str} {procId : ProcId} :
    m ∈ g.membersAt site procId ↔
      m ∈ g.view.members ∧ ∃ n, site.conf.member m = some (n, procId) := by
  constructor
  · intro hm
    exact ⟨h.mem_members.mpr ⟨procId, hm⟩, h.named hm⟩
  · rintro ⟨hm, n, hn⟩
    exact (h.mem_members_iff hn).mp hm

/-- The daemons of a group follow from its members. -/
theorem daemons_eq (hconf : site.conf = site'.conf) (h : g.Formed site.conf)
    (h' : g'.Formed site'.conf) (hmarked : g.Marked present) (hmarked' : g'.Marked present)
    (hview : g.view = g'.view) : g.daemons = g'.daemons := by
  have hgrpId : g.grpId = g'.grpId := congrArg View.grpId hview
  have hmembersAt : ∀ procId, g.membersAt site procId = g'.membersAt site' procId := by
    intro procId
    refine (h.ordered_membersAt procId).ext strncmp_total (h'.ordered_membersAt procId) fun m => ?_
    rw [h.mem_membersAt, h'.mem_membersAt, hview, hconf]
  have hmembId : ∀ {dmn dmn' : DaemonMembers}, dmn ∈ g.daemons → dmn' ∈ g'.daemons →
      dmn.procId = dmn'.procId → dmn.membId = dmn'.membId := by
    intro dmn dmn' hdmn hdmn' heq
    by_cases hp : present dmn.procId
    · rw [hmarked.here dmn hdmn hp, hmarked'.here dmn' hdmn' (heq ▸ hp), hgrpId]
    · rw [hmarked.away dmn hdmn hp, hmarked'.away dmn' hdmn' (heq ▸ hp)]
  have hordered' := h'.ordered
  rw [← hconf] at hordered'
  refine h.ordered.ext_find (compareProcIds_total site.conf) hordered' fun procId => ?_
  have hat := hmembersAt procId
  show g.getDaemon site procId = g'.getDaemon site procId
  have hsite' : g'.getDaemon site procId = g'.getDaemon site' procId := by
    rw [getDaemon, getDaemon, hconf]
  rw [hsite']
  cases hget : g.getDaemon site procId with
  | none =>
      cases hget' : g'.getDaemon site' procId with
      | none => rfl
      | some dmn' =>
          rw [membersAt_of_none hget, membersAt_of_getDaemon hget'] at hat
          exact absurd hat.symm (h'.daemons dmn' (mem_of_getDaemon hget').1).nonempty
  | some dmn =>
      obtain ⟨hdmn, hid⟩ := mem_of_getDaemon hget
      cases hget' : g'.getDaemon site' procId with
      | none =>
          rw [membersAt_of_getDaemon hget, membersAt_of_none hget'] at hat
          exact absurd hat (h.daemons dmn hdmn).nonempty
      | some dmn' =>
          obtain ⟨hdmn', hid'⟩ := mem_of_getDaemon hget'
          rw [membersAt_of_getDaemon hget, membersAt_of_getDaemon hget'] at hat
          have hsame := hid.trans hid'.symm
          obtain ⟨procId₁, membId₁, members₁⟩ := dmn
          obtain ⟨procId₂, membId₂, members₂⟩ := dmn'
          obtain rfl : procId₁ = procId₂ := hsame
          obtain rfl : members₁ = members₂ := hat
          obtain rfl : membId₁ = membId₂ := hmembId hdmn hdmn' rfl
          rfl

end Group

namespace Known

/-- What still matters of what a daemon knows. The transitional membership matters until the
regular one that follows it. -/
def now (k : Known) : Known :=
  if k.gstate = .gop then
    { k with transMemb := [], transMembId := unknownMembId, regMemb := [] }
  else { k with regMemb := [] }

variable {k k' : Known}

@[simp]
theorem now_gstate (k : Known) : k.now.gstate = k.gstate := by
  rw [now]
  split
  · rfl
  · rfl

@[simp]
theorem now_table (k : Known) : k.now.table = k.table := by
  rw [now]
  split
  · rfl
  · rfl

theorem now_of_gop (h : k.gstate = .gop) :
    k.now = { k with transMemb := [], transMembId := unknownMembId, regMemb := [] } := if_pos h

theorem now_of_not_gop (h : k.gstate ≠ .gop) : k.now = { k with regMemb := [] } := if_neg h

@[simp]
theorem now_now (k : Known) : k.now.now = k.now := by
  by_cases h : k.gstate = .gop
  · rw [now_of_gop h]
    exact if_pos h
  · rw [now_of_not_gop h]
    exact if_neg h

/-- What an event teaches depends on what still matters. -/
theorem now_next (conf : Conf) {e : Event}
    (hlegal : ∀ procIds membId, e = .regMemb procIds membId → k.gstate ≠ .gop) :
    (k.now.next conf e).now = (k.next conf e).now := by
  by_cases h : k.gstate = .gop
  · rw [now_of_gop h]
    cases e with
    | deliver r =>
        have hrequest : Known.request conf
            { k with transMemb := [], transMembId := unknownMembId, regMemb := [] } r =
            k.request conf r := by
          cases r with
          | join m n => simp [request, current, h]
          | leave m n => rfl
          | kill m => rfl
        simp only [next, hrequest]
        simp [now, h]
    | regMemb procIds membId => exact absurd h (hlegal procIds membId rfl)
    | transMemb procIds membId => rfl
    | _ => simp [next, now, h]
  · rw [now_of_not_gop h]
    cases e with
    | deliver r =>
        have hrequest : Known.request conf { k with regMemb := [] } r = k.request conf r := by
          cases r with
          | join m n => rfl
          | leave m n => rfl
          | kill m => rfl
        simp only [next, hrequest]
        simp [now, h]
    | regMemb procIds membId => rfl
    | transMemb procIds membId => rfl
    | _ => simp [next, now, h]

end Known

/-- Daemons that know the same have the same groups. -/
theorem Daemon.Operating.info_eq {site site' : Site} {d d' : Daemon} (h : d.Operating site)
    (h' : d'.Operating site') (hconf : site.conf = site'.conf)
    (hknown : d.known.now = d'.known.now) :
    d.groups.map Group.info = d'.groups.map Group.info := by
  have htable : d.table = d'.table := by
    have hnow := congrArg Known.table hknown
    rwa [Known.now_table, Known.now_table] at hnow
  have hpresent : d.present = d'.present := by
    have hgstate : d.gstate = d'.gstate := by
      have hnow := congrArg Known.gstate hknown
      rwa [Known.now_gstate, Known.now_gstate] at hnow
    funext procId
    rw [Daemon.present, Daemon.present, hgstate]
    by_cases hgop : d'.gstate = .gop
    · simp [hgop]
    · have hgop' : d.known.gstate ≠ .gop := fun h => hgop (hgstate.symm.trans h)
      have htransMemb : d.transMemb = d'.transMemb := by
        have hnow := congrArg Known.transMemb hknown
        rwa [Known.now_of_not_gop hgop', Known.now_of_not_gop (k := d'.known) hgop] at hnow
      rw [htransMemb]
  have hinfos : ∀ {groups : List Group}, SkipList.Ordered strncmp Group.name groups →
      SkipList.Ordered strncmp GroupInfo.name (groups.map Group.info) := fun hordered =>
    List.pairwise_map.mpr hordered
  refine (hinfos h.tidy.ordered).ext_find strncmp_total (hinfos h'.tidy.ordered) fun n => ?_
  have hfind : ∀ groups : List Group,
      SkipList.find strncmp GroupInfo.name n (groups.map Group.info) =
        (SkipList.find strncmp Group.name n groups).map Group.info :=
    fun groups => SkipList.find_map (fun _ => rfl) n
  rw [hfind, hfind]
  have hn : (d.getGroup n).map Group.view = (d'.getGroup n).map Group.view := congrFun htable n
  show (d.getGroup n).map Group.info = (d'.getGroup n).map Group.info
  cases hget : d.getGroup n with
  | none =>
      rw [hget] at hn
      rw [Option.map_eq_none_iff.mp hn.symm]
  | some g =>
      cases hget' : d'.getGroup n with
      | none =>
          rw [hget, hget'] at hn
          cases hn
      | some g' =>
          rw [hget, hget'] at hn
          have hview : g.view = g'.view := Option.some.inj hn
          obtain ⟨hg, hname⟩ := mem_of_getGroup hget
          obtain ⟨hg', hname'⟩ := mem_of_getGroup hget'
          have hdaemons := Group.daemons_eq hconf (h.tidy.groups g hg).formed
            (h'.tidy.groups g' hg').formed (h.marked g hg) (hpresent ▸ h'.marked g' hg') hview
          have hgrpId : g.grpId = g'.grpId := congrArg View.grpId hview
          have hchanged : g.changed = g'.changed := by
            rw [Bool.eq_iff_iff]
            exact iff_of_eq (congrArg View.changed hview)
          rw [Option.map_some, Option.map_some, Group.info, Group.info, hname, hname', hdaemons,
            hgrpId, hchanged]

namespace Node

variable {site site' : Site} {nd₀ nd nd' nd₁ : Node}
  {trace trace' : List (Event × List (Str × Notice))}

theorem run_inv (hsite : site.Sound) (hstart : Start nd₀)
    (run : (machine site).Run (Enabled site) nd₀ trace nd) :
    Inv site nd ∧
      nd.daemon.known = (trace.map Prod.fst).foldl (Known.next site.conf) nd₀.daemon.known := by
  induction run with
  | nil => exact ⟨hstart.inv, rfl⟩
  | @snoc trace t u e o run allowed move ih =>
      obtain ⟨hinv, hknown⟩ := ih
      have hreturns := hinv.handle hsite allowed
      obtain ⟨r, hr, hinv', hknown'⟩ := hreturns
      have hmove : (handle site t e).toOption = some (u, o) := move
      rw [hr] at hmove
      have heq : r = (u, o) := Option.some.inj hmove
      rw [heq] at hinv' hknown'
      refine ⟨hinv', ?_⟩
      rw [List.map_append, List.foldl_append, ← hknown]
      exact hknown'

instance (site : Site) (nd : Node) : ∀ e, Decidable (Enabled site nd e)
  | .connect s => inferInstanceAs (Decidable (getSession nd.daemon.sessions s.name = none ∧ _))
  | .request r => inferInstanceAs (Decidable (r.kills = false ∧
      ∃ s ∈ nd.daemon.sessions, s.op = true ∧ site.conf.member r.client = some (s.name, site.my.id)))
  | .hangUp m => inferInstanceAs (Decidable
      (∃ s ∈ nd.daemon.sessions, s.op = true ∧ site.conf.member m = some (s.name, site.my.id)))
  | .deliver r => inferInstanceAs (Decidable ((r.kills = true → _) ∧ (_ → nd.queue.head? = some r)))
  | .transMemb _ _ => inferInstanceAs (Decidable (nd.daemon.gstate = .gop ∧ _ ∧ _))
  | .regMemb _ _ => inferInstanceAs (Decidable (nd.daemon.gstate = .gtrans ∧ _ ∧ _))

def duoConf : Conf := { procs := [{ name := [100, 49], id := 1 }, { name := [100, 50], id := 2 }] }

def duoSite (i : Fin 2) : Site := { conf := duoConf, my := duoConf.procs[i] }

def duoStart : Node where
  daemon :=
    { gstate := .gop
      groups := []
      transMemb := []
      transMembId := unknownMembId
      regMemb := [1, 2]
      regMembId := { procId := 1, time := 1 }
      mySyncedSet := [1, 2]
      complete := false
      gathered := []
      numDaemonsGathered := 0
      groupsBufs := []
      groupsBufsFresh := false
      sessions := [] }
  queue := []

/-- `#a#d1` or `#a#d2`. -/
def duoClient (i : Fin 2) : Str := 35 :: 97 :: 35 :: (duoSite i).my.name

/-- A client comes and asks for a group that one at the other daemon has joined. Then the
membership is formed anew. -/
def duoEvents (i : Fin 2) : List Event :=
  [.connect { name := [97], mbox := 7, memb := true, op := true },
    .request (.join (duoClient i) [103]),
    .deliver (.join (duoClient 0) [103]),
    .deliver (.join (duoClient 1) [103]),
    .transMemb [1, 2] { procId := 1, time := 2 },
    .regMemb [1, 2] { procId := 1, time := 3 }]

theorem duoSite_sound (i : Fin 2) : (duoSite i).Sound where
  found := by
    match i with
    | 0 => decide
    | 1 => decide
  unique := by
    intro name p hp hid
    have hname : p.name = name := by simpa using List.find?_some hp
    have hmem := List.mem_of_find?_eq_some hp
    rw [← hname]
    simp only [duoSite, duoConf, List.mem_cons, List.not_mem_nil, or_false] at hmem hid ⊢
    match i with
    | 0 =>
        rcases hmem with rfl | rfl
        · rfl
        · exact absurd hid (by decide)
    | 1 =>
        rcases hmem with rfl | rfl
        · exact absurd hid (by decide)
        · rfl

theorem duoStart_start : Start duoStart := by
  refine ⟨rfl, rfl, rfl, rfl, ?_⟩
  decide

theorem duo_runs (i : Fin 2) : ∃ trace nd,
    (machine (duoSite i)).Run (Enabled (duoSite i)) duoStart trace nd ∧
      trace.map Prod.fst = duoEvents i ∧ nd.daemon.groups.length = 1 := by
  refine Machine.Run.exists_of_exec (machine (duoSite i)) (Enabled (duoSite i)) duoStart
    (duoEvents i)
    (fun trace nd => trace.map Prod.fst = duoEvents i ∧ nd.daemon.groups.length = 1) ?_
  match i with
  | 0 => decide +kernel
  | 1 => decide +kernel

/-- However the clients of a daemon come, ask and hang up, and whatever it loses: it goes on
with the next event, and its groups are in order. No group is empty, each counts its members,
and it sends notices to the mailboxes of its local members and to no others. -/
theorem groups_tidy (hsite : site.Sound) (hstart : Start nd₀)
    (run : (machine site).Run (Enabled site) nd₀ trace nd) :
    nd.daemon.Tidy site ∧ ∀ e, Enabled site nd e → ∃ nd' notices, handle site nd e = .ok (nd', notices) := by
  obtain ⟨hinv, -⟩ := run_inv hsite hstart run
  refine ⟨hinv.operating.tidy, fun e he => ?_⟩
  obtain ⟨⟨nd', notices⟩, hr, -⟩ := hinv.handle hsite he
  exact ⟨nd', notices, hr⟩

theorem groups_tidy_duo : ∃ trace nd,
    (machine (duoSite 0)).Run (Enabled (duoSite 0)) duoStart trace nd ∧
      nd.daemon.groups.length = 1 ∧ nd.daemon.Tidy (duoSite 0) ∧
      ∀ e, Enabled (duoSite 0) nd e → ∃ nd' notices, handle (duoSite 0) nd e = .ok (nd', notices) := by
  obtain ⟨trace, nd, run, -, hlength⟩ := duo_runs 0
  exact ⟨trace, nd, run, hlength, groups_tidy (duoSite_sound 0) duoStart_start run⟩

/-- The events that all daemons of a membership have in common. -/
def common : Event → Bool
  | .deliver _ => true
  | .transMemb _ _ => true
  | .regMemb _ _ => true
  | _ => false

/-- What an event that all daemons have in common teaches, as far as it still matters. -/
noncomputable def learn (conf : Conf) (k : Known) (e : Event) : Known := (k.next conf e).now

theorem foldl_common (conf : Conf) (events : List Event) {k : Known} (hk : k.now = k) :
    events.foldl (learn conf) k = (events.filter common).foldl (learn conf) k := by
  induction events generalizing k with
  | nil => rfl
  | cons e rest ih =>
      cases hcommon : common e with
      | true =>
          rw [List.filter_cons_of_pos hcommon, List.foldl_cons, List.foldl_cons]
          exact ih (Known.now_now _)
      | false =>
          have hsame : learn conf k e = k := by
            cases e <;> first | exact hk | cases hcommon
          rw [List.filter_cons_of_neg (by simp [hcommon]), List.foldl_cons, hsame, ih hk]

theorem run_learns (hsite : site.Sound) (hstart : Start nd₀)
    (run : (machine site).Run (Enabled site) nd₀ trace nd) :
    nd.daemon.known.now =
      (trace.map Prod.fst).foldl (learn site.conf) nd₀.daemon.known.now := by
  induction run with
  | nil => rfl
  | @snoc trace t u e o run allowed move ih =>
      obtain ⟨hinv, -⟩ := run_inv hsite hstart run
      obtain ⟨r, hr, -, hknown⟩ := hinv.handle hsite allowed
      have hmove : (handle site t e).toOption = some (u, o) := move
      rw [hr] at hmove
      obtain rfl : r = (u, o) := Option.some.inj hmove
      rw [List.map_append, List.foldl_append, ← ih, hknown]
      refine (Known.now_next site.conf ?_).symm
      rintro procIds membId rfl hgop
      have hstate : t.daemon.gstate = .gtrans := allowed.1
      have hgop : t.daemon.gstate = .gop := hgop
      rw [hstate] at hgop
      cases hgop

/-- Daemons that begin in one membership and have delivered the same messages and memberships
in the same order have the same groups, whatever their own clients have done and wherever they
have come from. -/
theorem same_groups (hsite : site.Sound) (hsite' : site'.Sound) (hconf : site.conf = site'.conf)
    (hstart : Start nd₀) (hstart' : Start nd₁)
    (hmemb : nd₀.daemon.regMembId = nd₁.daemon.regMembId)
    (run : (machine site).Run (Enabled site) nd₀ trace nd)
    (run' : (machine site').Run (Enabled site') nd₁ trace' nd')
    (hcommon : (trace.map Prod.fst).filter common = (trace'.map Prod.fst).filter common) :
    nd.daemon.groups.map Group.info = nd'.daemon.groups.map Group.info := by
  obtain ⟨hinv, -⟩ := run_inv hsite hstart run
  obtain ⟨hinv', -⟩ := run_inv hsite' hstart' run'
  have hbegin : nd₀.daemon.known.now = nd₁.daemon.known.now := by
    rw [Known.now_of_gop (k := nd₀.daemon.known) hstart.1,
      Known.now_of_gop (k := nd₁.daemon.known) hstart'.1]
    simp only [Daemon.known, Daemon.table, hstart.1, hstart'.1, hstart.2.1, hstart'.2.1, hmemb]
  refine hinv.operating.info_eq hinv'.operating hconf ?_
  rw [run_learns hsite hstart run, run_learns hsite' hstart' run',
    foldl_common site.conf _ (Known.now_now _), foldl_common site'.conf _ (Known.now_now _),
    hcommon, hconf, hbegin]

/-- The second daemon has come from another membership than the first one. -/
def duoJoined : Node :=
  { duoStart with
    daemon := { duoStart.daemon with transMemb := [2], transMembId := { procId := 2, time := 0 } } }

theorem same_groups_duo : ∃ trace nd trace' nd',
    (machine (duoSite 0)).Run (Enabled (duoSite 0)) duoStart trace nd ∧
      (machine (duoSite 1)).Run (Enabled (duoSite 1)) duoJoined trace' nd' ∧
      nd.daemon.groups.length = 1 ∧
      nd.daemon.groups.map Group.info = nd'.daemon.groups.map Group.info := by
  obtain ⟨trace, nd, run, htrace, hlength⟩ := duo_runs 0
  obtain ⟨trace', nd', run', htrace'⟩ := Machine.Run.exists_of_exec (machine (duoSite 1))
    (Enabled (duoSite 1)) duoJoined (duoEvents 1)
    (fun trace _ => trace.map Prod.fst = duoEvents 1) (by decide +kernel)
  have hjoined : Start duoJoined := ⟨rfl, rfl, rfl, rfl, by decide⟩
  refine ⟨trace, nd, trace', nd', run, run', hlength, same_groups (duoSite_sound 0)
    (duoSite_sound 1) rfl duoStart_start hjoined rfl run run' ?_⟩
  rw [htrace, htrace']
  rfl

/-- What is kept along the messages and memberships to tell whether a client is in a group: the
last transitional membership, and whether it is in. -/
def joined (conf : Conf) (m n : Str) : List ProcId × Prop → Event → List ProcId × Prop
  | (here, isIn), .deliver (.join m' n') =>
      (here, isIn ∨ m' = m ∧ n' = n ∧ conf.member m ≠ none)
  | (here, isIn), .deliver (.leave m' n') => (here, isIn ∧ ¬ (m' = m ∧ n' = n))
  | (here, isIn), .deliver (.kill m') => (here, isIn ∧ m' ≠ m)
  | (_, isIn), .transMemb procIds _ => (procIds, isIn)
  | (here, isIn), .regMemb _ _ => (here, isIn ∧ m ∈ conf.membersOf here)
  | now, _ => now

end Node

/-- The client is in the group. -/
def Table.Has (t : Table) (n m : Str) : Prop := ∃ v ∈ t n, m ∈ v.members

namespace Table

variable {t : Table} {m m' n n' : Str}

theorem has_update (o : Option View) :
    Has (Function.update t n' o) n m ↔ if n = n' then ∃ v ∈ o, m ∈ v.members else t.Has n m := by
  rw [Has, Function.update_apply]
  split
  · rfl
  · rfl

theorem has_join (current : MembershipId) (changes : Prop) :
    (t.join current m' n' changes).Has n m ↔ t.Has n m ∨ m' = m ∧ n' = n := by
  rw [join]
  by_cases hin : m' ∈ ((t n').getD
      { members := ∅, grpId := { membId := current, index := 0 }, changed := False }).members
  · rw [if_pos hin]
    constructor
    · exact .inl
    · rintro (h | ⟨rfl, rfl⟩)
      · exact h
      · cases hn : t n' with
        | none =>
            rw [hn] at hin
            exact absurd hin (Set.notMem_empty _)
        | some v =>
            rw [hn] at hin
            exact ⟨v, hn, hin⟩
  · rw [if_neg hin, has_update]
    split
    · rename_i heq
      subst heq
      simp only [Option.mem_some_iff, exists_eq_left', View.add, Set.mem_insert_iff, Has]
      cases t n with
      | none => simp [eq_comm]
      | some v => simp [or_comm, eq_comm]
    · rename_i hne
      simp [Ne.symm hne]

theorem mem_without {v : View} :
    (∃ w ∈ v.without m', m ∈ w.members) ↔ m ∈ v.members ∧ m' ≠ m := by
  rw [View.without]
  split
  · rename_i hno
    simp only [Option.mem_some_iff, exists_eq_left']
    constructor
    · intro hm
      exact ⟨hm, fun heq => hno (heq ▸ hm)⟩
    · exact And.left
  · split
    · rename_i hempty
      simp only [Option.mem_def, reduceCtorEq, false_and, exists_false, false_iff, not_and]
      intro hm hne
      have hmem : m ∈ v.members \ {m'} := ⟨hm, Ne.symm hne⟩
      rw [hempty] at hmem
      exact hmem
    · simp [eq_comm]

theorem has_bind {f : View → Option View} :
    (t.bind f).Has n m ↔ ∃ v ∈ t n, ∃ w ∈ f v, m ∈ w.members := by
  simp only [Has, Table.bind, Option.mem_def, Option.bind_eq_some_iff]
  constructor
  · rintro ⟨w, ⟨v, hv, hw⟩, hm⟩
    exact ⟨v, hv, w, hw, hm⟩
  · rintro ⟨v, hv, w, hw, hm⟩
    exact ⟨w, ⟨v, hv, hw⟩, hm⟩

theorem has_leave : (t.leave m' n').Has n m ↔ t.Has n m ∧ ¬ (m' = m ∧ n' = n) := by
  rw [leave, has_update]
  split
  · rename_i heq
    subst heq
    have hbind : (∃ v ∈ (t n).bind (View.without m'), m ∈ v.members) ↔
        (t.bind (View.without m')).Has n m := Iff.rfl
    rw [hbind, has_bind]
    simp only [mem_without, Has]
    tauto
  · rename_i hne
    have hno : ¬ (m' = m ∧ n' = n) := fun h => hne h.2.symm
    tauto

theorem has_kill : (t.kill m').Has n m ↔ t.Has n m ∧ m' ≠ m := by
  rw [kill, has_bind]
  simp only [mem_without, Has]
  tauto

end Table

theorem View.members_cut (here : Set Str) (membId : MembershipId) (v : View) :
    (v.cut here membId).members = v.members := by
  rw [View.cut]
  split
  · rfl
  · rfl

theorem View.mem_stay {here : Set Str} {v : View} {m : Str} :
    (∃ w ∈ v.stay here, m ∈ w.members) ↔ m ∈ v.members ∧ m ∈ here := by
  rw [View.stay]
  split
  · rename_i hempty
    simp only [Option.mem_def, reduceCtorEq, false_and, exists_false, false_iff]
    intro hm
    have hmem : m ∈ v.members ∩ here := hm
    rw [hempty] at hmem
    exact hmem
  · simp

namespace Node

variable {site : Site} {nd₀ nd : Node} {trace : List (Event × List (Str × Notice))}

theorem next_joined (conf : Conf) (k : Known) (m n : Str) (e : Event) :
    joined conf m n (k.transMemb, k.table.Has n m) e =
      ((k.next conf e).transMemb, (k.next conf e).table.Has n m) := by
  cases e with
  | connect s => rfl
  | request r => rfl
  | hangUp m' => rfl
  | deliver r =>
      cases r with
      | join m' n' =>
          refine Prod.ext rfl (propext ?_)
          simp only [joined, Known.next, Known.request]
          cases hm : conf.member m' with
          | none =>
              simp only
              constructor
              · rintro (h | ⟨rfl, rfl, h⟩)
                · exact h
                · exact absurd hm h
              · exact .inl
          | some names =>
              simp only [Table.has_join]
              have hsome : m' = m → conf.member m ≠ none := by
                rintro rfl
                simp [hm]
              tauto
      | leave m' n' => exact Prod.ext rfl (propext Table.has_leave.symm)
      | kill m' => exact Prod.ext rfl (propext Table.has_kill.symm)
  | transMemb procIds membId =>
      refine Prod.ext rfl (propext ?_)
      simp [joined, Known.next, Table.Has, Table.map, View.members_cut]
  | regMemb procIds membId =>
      have hsettle : ∀ v : View, (∃ w ∈ (v.stay (conf.membersOf k.transMemb)).map
          (View.settle membId), m ∈ w.members) ↔
          m ∈ v.members ∧ m ∈ conf.membersOf k.transMemb := by
        intro v
        rw [← View.mem_stay]
        simp
      refine Prod.ext rfl (propext (Iff.trans ?_ Table.has_bind.symm))
      simp only [hsettle]
      constructor
      · rintro ⟨⟨v, hv, hm⟩, hhere⟩
        exact ⟨v, hv, hm, hhere⟩
      · rintro ⟨v, hv, hm, hhere⟩
        exact ⟨⟨v, hv, hm⟩, hhere⟩

/-- The members of a group are the clients that have joined it and since then have neither
left it nor been killed, and whose daemons have not been lost. -/
theorem members_joined (hsite : site.Sound) (hstart : Start nd₀)
    (run : (machine site).Run (Enabled site) nd₀ trace nd) (m n : Str) :
    (∃ g, nd.daemon.getGroup n = some g ∧ m ∈ g.members) ↔
      ((trace.map Prod.fst).foldl (joined site.conf m n) (nd₀.daemon.transMemb, False)).2 := by
  obtain ⟨-, hknown⟩ := run_inv hsite hstart run
  have hfold : ∀ (events : List Event) (k : Known),
      events.foldl (joined site.conf m n) (k.transMemb, k.table.Has n m) =
        ((events.foldl (Known.next site.conf) k).transMemb,
          (events.foldl (Known.next site.conf) k).table.Has n m) := by
    intro events
    induction events with
    | nil => exact fun _ => rfl
    | cons e rest ih =>
        intro k
        rw [List.foldl_cons, List.foldl_cons, next_joined]
        exact ih _
  have hempty : nd₀.daemon.known.table.Has n m = False := by
    refine eq_false ?_
    rintro ⟨v, hv, -⟩
    simp [Daemon.known, Daemon.table, tableOf, hstart.2.1, SkipList.find] at hv
  have hlast := hfold (trace.map Prod.fst) nd₀.daemon.known
  rw [hempty, ← hknown] at hlast
  refine Iff.trans ?_ (iff_of_eq (congrArg Prod.snd hlast).symm)
  constructor
  · rintro ⟨g, hget, hm⟩
    exact ⟨g.view, congrArg (Option.map Group.view) hget, hm⟩
  · rintro ⟨v, hv, hm⟩
    obtain ⟨g, hget, rfl⟩ := Option.map_eq_some_iff.mp hv
    exact ⟨g, hget, hm⟩

theorem members_joined_duo : ∃ trace nd,
    (machine (duoSite 0)).Run (Enabled (duoSite 0)) duoStart trace nd ∧
      trace.map Prod.fst = duoEvents 0 ∧
      ((∃ g, nd.daemon.getGroup [103] = some g ∧ duoClient 1 ∈ g.members) ↔
        ((trace.map Prod.fst).foldl (joined duoConf (duoClient 1) [103]) ([], False)).2) := by
  obtain ⟨trace, nd, run, htrace, -⟩ := duo_runs 0
  exact ⟨trace, nd, run, htrace,
    members_joined (duoSite_sound 0) duoStart_start run (duoClient 1) [103]⟩

end Node

end Netbroker.Groups
