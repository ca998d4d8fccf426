import Netbroker.Groups.Members
import Netbroker.Groups.Table

/-!
# The messages of clients

A daemon that is in `GOP` or `GTRANS` handles what clients send without an alarm. What it
knows of groups then changes as the table of its groups does, whatever daemon it is.

`Operating` is the state in which clients are handled. For each of joining, leaving and being
killed the handler is followed to its end, and `Handled` says what it has done: the daemon is
operating again, nothing but its groups has changed, and its table has become what the message
means. A kill is a leave in every group of the client, so loops over groups are treated once,
on tables.
-/

namespace Netbroker.Groups

open Spread Transition

def Group.view (g : Group) : View :=
  { members := {m | m ∈ g.members}, grpId := g.grpId, changed := g.changed = true }

def tableOf (groups : List Group) : Table :=
  fun n => (SkipList.find strncmp Group.name n groups).map Group.view

namespace Daemon

variable (site : Site) (d : Daemon)

def table : Table := tableOf d.groups

/-- The daemons that a daemon in `GTRANS` has lost are not present. -/
def present (procId : ProcId) : Prop := d.gstate = .gop ∨ procId ∈ d.transMemb

/-- The membership of the groups that are created. -/
def current : MembershipId := if d.gstate = .gop then d.regMembId else d.transMembId

/-- Groups in the order of their names. -/
structure Tidy : Prop where
  ordered : SkipList.Ordered strncmp Group.name d.groups
  groups : ∀ g ∈ d.groups, g.Tidy site d.sessions

end Daemon

/-- The daemons of a group are in its membership, but for those that are not present. -/
structure Group.Marked (present : ProcId → Prop) (g : Group) : Prop where
  known : g.grpId.membId.isUnknown = false
  here : ∀ dmn ∈ g.daemons, present dmn.procId → dmn.membId = g.grpId.membId
  away : ∀ dmn ∈ g.daemons, ¬ present dmn.procId → dmn.membId = unknownMembId
  changed : ∀ dmn ∈ g.daemons, ¬ present dmn.procId → g.changed = true

/-- A daemon that handles the messages of clients. -/
structure Daemon.Operating (site : Site) (d : Daemon) : Prop where
  state : d.gstate = .gop ∨ d.gstate = .gtrans
  tidy : d.Tidy site
  current : d.current.isUnknown = false
  marked : ∀ g ∈ d.groups, g.Marked d.present

theorem unknownMembId_isUnknown : unknownMembId.isUnknown = true := rfl

namespace Group

variable {site : Site} {sessions : List Session} {g : Group} {dmn : DaemonMembers}
  {procId : ProcId} {m n : Str} {present : ProcId → Prop}

theorem Marked.isPartitioned (h : g.Marked present) (hdmn : dmn ∈ g.daemons) :
    dmn.isPartitioned = true ↔ ¬ present dmn.procId := by
  by_cases hp : present dmn.procId
  · simp [DaemonMembers.isPartitioned, h.here dmn hdmn hp, h.known, hp]
  · simp [DaemonMembers.isPartitioned, h.away dmn hdmn hp, unknownMembId_isUnknown, hp]

/-- The group that `G_handle_join` leaves. -/
def withMember (site : Site) (g : Group) (dmn : DaemonMembers) (m : Str) (newMbox : Option Mailbox) :
    Group :=
  { g.putDaemon site { dmn with members := SkipList.put strncmp id m dmn.members } with
    numMembers := g.numMembers + 1
    grpId := { g.grpId with index := g.grpId.index + 1 }
    mboxes := g.mboxes ++ newMbox.toList
    changed := g.changed || dmn.isPartitioned }

theorem membersAt_withMember (newMbox : Option Mailbox) (procId : ProcId) :
    (g.withMember site dmn m newMbox).membersAt site procId =
      if dmn.procId = procId then SkipList.put strncmp id m dmn.members
      else g.membersAt site procId :=
  membersAt_putDaemon procId

theorem perm_put_member {l : List Str} (hm : m ∉ l) : (SkipList.put strncmp id m l).Perm (m :: l) :=
  SkipList.perm_put fun y hy heq => hm ((strncmp_total.eq_iff m y).mp heq ▸ hy)

theorem Formed.withMember (h : g.Formed site.conf)
    (hat : g.membersAt site dmn.procId = dmn.members) (hnew : m ∉ dmn.members)
    (hm : site.conf.member m = some (n, dmn.procId)) (newMbox : Option Mailbox) :
    (g.withMember site dmn m newMbox).Formed site.conf := by
  have hperm := perm_put_member hnew
  have hdmn : DaemonMembers.Tidy site.conf
      { dmn with members := SkipList.put strncmp id m dmn.members } := by
    refine ⟨?_, fun hnil => ?_, fun y hy => ?_⟩
    · have hordered := h.ordered_membersAt dmn.procId
      rw [hat] at hordered
      exact hordered.put strncmp_total
    · simp only at hnil
      rw [hnil] at hperm
      exact absurd hperm.length_eq (by simp)
    · rcases List.mem_cons.mp (hperm.mem_iff.mp hy) with rfl | hy
      · exact ⟨n, hm⟩
      · exact h.named (hat ▸ hy)
  have hcount : g.numMembers + 1 + ((g.membersAt site dmn.procId).length : Int) =
      g.numMembers + ((SkipList.put strncmp id m dmn.members).length : Int) := by
    rw [hat, hperm.length_eq, List.length_cons]
    omega
  have hformed := h.put hdmn hcount
  exact ⟨hformed.ordered, hformed.daemons, hformed.count⟩

theorem Formed.view_withMember (h : g.Formed site.conf)
    (hat : g.membersAt site dmn.procId = dmn.members) (hnew : m ∉ dmn.members)
    (hm : site.conf.member m = some (n, dmn.procId)) (newMbox : Option Mailbox) :
    (g.withMember site dmn m newMbox).view = g.view.add m (dmn.isPartitioned = true) := by
  have hperm := perm_put_member hnew
  have hformed := h.withMember hat hnew hm newMbox
  refine View.ext ?_ rfl (by simp [Group.withMember, view, View.add])
  ext y
  simp only [view, View.add, Set.mem_ofPred_eq, Set.mem_insert_iff, hformed.mem_members,
    h.mem_members, membersAt_withMember]
  constructor
  · rintro ⟨procId, hy⟩
    split at hy
    · exact (List.mem_cons.mp (hperm.mem_iff.mp hy)).imp_right fun hy => ⟨dmn.procId, hat ▸ hy⟩
    · exact .inr ⟨procId, hy⟩
  · rintro (rfl | ⟨procId, hy⟩)
    · exact ⟨dmn.procId, by simp [hperm.mem_iff]⟩
    · refine ⟨procId, ?_⟩
      split
      · rename_i heq
        rw [← heq, hat] at hy
        exact hperm.mem_iff.mpr (List.mem_cons_of_mem _ hy)
      · exact hy

theorem Local.withMember (h : g.Local site sessions)
    (hat : g.membersAt site dmn.procId = dmn.members) (hnew : m ∉ dmn.members)
    {newMbox : Option Mailbox}
    (hmbox : if dmn.procId = site.my.id then newMbox.isSome = true ∧ newMbox = mailboxOf sessions m
      else newMbox = none) :
    (g.withMember site dmn m newMbox).Local site sessions := by
  rw [Local, membersAt_withMember]
  split
  · rename_i heq
    rw [if_pos heq] at hmbox
    obtain ⟨hsome, hmbox⟩ := hmbox
    obtain ⟨mbox, rfl⟩ := Option.isSome_iff_exists.mp hsome
    rw [Local, ← heq, hat] at h
    have hput := (perm_put_member hnew).map (mailboxOf sessions)
    rw [List.map_cons, ← hmbox] at hput
    refine List.Perm.trans ?_ hput.symm
    simp only [Group.withMember, Option.toList_some, List.map_append, List.map_cons, List.map_nil]
    exact (List.perm_append_singleton _ _).trans (h.cons _)
  · rename_i hne
    rw [if_neg hne] at hmbox
    rw [Local] at h
    simpa [Group.withMember, hmbox] using h

theorem Marked.withMember (h : g.Marked present)
    (hhere : present dmn.procId → dmn.membId = g.grpId.membId)
    (haway : ¬ present dmn.procId → dmn.membId = unknownMembId) (newMbox : Option Mailbox) :
    (g.withMember site dmn m newMbox).Marked present where
  known := h.known
  here := by
    intro y hy
    rcases SkipList.mem_put hy with rfl | hy
    · exact hhere
    · exact h.here y hy
  away := by
    intro y hy
    rcases SkipList.mem_put hy with rfl | hy
    · exact haway
    · exact h.away y hy
  changed := by
    intro y hy hp
    rcases SkipList.mem_put hy with rfl | hy
    · simp [Group.withMember, DaemonMembers.isPartitioned, haway hp, unknownMembId_isUnknown]
    · simp [Group.withMember, h.changed y hy hp]

theorem withMember_nonempty (newMbox : Option Mailbox) :
    (g.withMember site dmn m newMbox).daemons ≠ [] := by
  intro hnil
  have hget : (g.putDaemon site
      { dmn with members := SkipList.put strncmp id m dmn.members }).getDaemon site dmn.procId =
      some { dmn with members := SkipList.put strncmp id m dmn.members } := by
    rw [getDaemon_putDaemon, if_pos rfl]
  have hmem := (mem_of_getDaemon hget).1
  simp only [Group.withMember] at hnil
  rw [hnil] at hmem
  exact List.not_mem_nil hmem

end Group

namespace Daemon

variable {site : Site} {d : Daemon} {g : Group} {m n name : Str} {procId : ProcId}

theorem getGroup_putGroup (n : Str) :
    (d.putGroup g).getGroup n = if g.name = n then some g else d.getGroup n := by
  split
  · rename_i heq
    rw [← heq]
    exact SkipList.find_put_self strncmp_total
  · rename_i hne
    exact SkipList.find_put_of_ne strncmp_total hne

theorem getGroup_eraseGroup (n : Str) :
    (d.eraseGroup name).getGroup n = if n = name then none else d.getGroup n := by
  split
  · rename_i heq
    rw [heq]
    exact SkipList.find_erase_self strncmp_total
  · rename_i hne
    exact SkipList.find_erase_of_ne strncmp_total hne

theorem table_eq (n : Str) : d.table n = (d.getGroup n).map Group.view := rfl

theorem table_putGroup : (d.putGroup g).table = Function.update d.table g.name (some g.view) := by
  funext n
  rw [table_eq, getGroup_putGroup, Function.update_apply]
  by_cases heq : g.name = n
  · rw [if_pos heq, if_pos heq.symm]
    rfl
  · rw [if_neg heq, if_neg (Ne.symm heq)]
    rfl

theorem table_eraseGroup : (d.eraseGroup name).table = Function.update d.table name none := by
  funext n
  rw [table_eq, getGroup_eraseGroup, Function.update_apply]
  split
  · rfl
  · rfl

theorem mem_of_getGroup (hget : d.getGroup n = some g) : g ∈ d.groups ∧ g.name = n :=
  SkipList.mem_of_find strncmp_total hget

theorem Operating.putGroup (h : d.Operating site) (hg : g.Tidy site d.sessions)
    (hmarked : g.Marked d.present) : (d.putGroup g).Operating site where
  state := h.state
  tidy := by
    refine ⟨h.tidy.ordered.put strncmp_total, fun y hy => ?_⟩
    rcases SkipList.mem_put hy with rfl | hy
    · exact hg
    · exact h.tidy.groups y hy
  current := h.current
  marked := by
    intro y hy
    rcases SkipList.mem_put hy with rfl | hy
    · exact hmarked
    · exact h.marked y hy

theorem Operating.eraseGroup (h : d.Operating site) : (d.eraseGroup name).Operating site where
  state := h.state
  tidy := ⟨h.tidy.ordered.erase, fun y hy => h.tidy.groups y (List.mem_filter.mp hy).1⟩
  current := h.current
  marked := fun y hy => h.marked y (List.mem_filter.mp hy).1

theorem Operating.not_gathering (h : d.Operating site) :
    ¬ (d.gstate = .ggather ∨ d.gstate = .ggt) := by
  rcases h.state with hs | hs
  · simp [hs]
  · simp [hs]

/-- The group that is joined, which may be new. -/
structure Joinable (site : Site) (d : Daemon) (n : Str) (g : Group) : Prop where
  name : g.name = n
  formed : g.Formed site.conf
  here : g.Local site d.sessions
  marked : g.Marked d.present
  view : g.view = (d.table n).getD
    { members := ∅, grpId := { membId := d.current, index := 0 }, changed := False }

theorem Operating.groupToJoin (h : d.Operating site) (n : Str) :
    d.Joinable site n (d.groupToJoin n) := by
  rw [Daemon.groupToJoin]
  cases hget : d.getGroup n with
  | some g =>
      obtain ⟨hg, hname⟩ := mem_of_getGroup hget
      have htidy := h.tidy.groups g hg
      exact ⟨hname, htidy.formed, htidy.here, h.marked g hg, by rw [table_eq, hget]; rfl⟩
  | none =>
      refine ⟨rfl, ⟨.nil, ?_, rfl⟩, ?_, ⟨h.current, ?_, ?_, ?_⟩, ?_⟩
      · exact fun dmn hdmn => absurd hdmn List.not_mem_nil
      · exact List.Perm.nil
      · exact fun dmn hdmn => absurd hdmn List.not_mem_nil
      · exact fun dmn hdmn => absurd hdmn List.not_mem_nil
      · exact fun dmn hdmn => absurd hdmn List.not_mem_nil
      · rw [table_eq, hget]
        exact View.ext (by ext y; simp [Group.view, Group.members]) rfl (by simp [Group.view])

/-- The daemon of the member that joins, which may be new to the group. -/
structure JoinedAt (site : Site) (d : Daemon) (g : Group) (procId : ProcId) (dmn : DaemonMembers) :
    Prop where
  procId : dmn.procId = procId
  members : g.membersAt site dmn.procId = dmn.members
  here : d.present dmn.procId → dmn.membId = g.grpId.membId
  away : ¬ d.present dmn.procId → dmn.membId = unknownMembId

theorem Joinable.daemonToJoin (h : d.Joinable site n g) (procId : ProcId) :
    d.JoinedAt site g procId (d.daemonToJoin site g procId) := by
  rw [Daemon.daemonToJoin]
  cases hget : g.getDaemon site procId with
  | some dmn =>
      obtain ⟨hdmn, hid⟩ := Group.mem_of_getDaemon hget
      subst hid
      exact ⟨rfl, Group.membersAt_of_getDaemon hget, h.marked.here dmn hdmn,
        h.marked.away dmn hdmn⟩
  | none => exact ⟨rfl, Group.membersAt_of_none hget, fun hp => if_pos hp, fun hp => if_neg hp⟩

theorem JoinedAt.isPartitioned {dmn : DaemonMembers} (h : d.JoinedAt site g procId dmn)
    (hknown : g.grpId.membId.isUnknown = false) :
    (dmn.isPartitioned = true) = ¬ d.present procId := by
  rw [← h.procId]
  by_cases hp : d.present dmn.procId
  · simp [DaemonMembers.isPartitioned, h.here hp, hknown, hp]
  · simp [DaemonMembers.isPartitioned, h.away hp, unknownMembId_isUnknown, hp]

/-- The table after a join. -/
noncomputable def joinTable (conf : Conf) (d : Daemon) (m n : Str) : Table :=
  match conf.member m with
  | none => d.table
  | some (_, procId) => d.table.join d.current m n (¬ d.present procId)

/-- What a daemon has done with the message of a client: its groups are all that has changed. -/
structure Handled (site : Site) (d : Daemon) (t : Table) (o : Outcome) : Prop where
  operating : o.daemon.Operating site
  groups : o.daemon = { d with groups := o.daemon.groups }
  table : o.daemon.table = t
  sent : o.sent = []

theorem handleJoin_returns (h : d.Operating site)
    (hlocal : ∀ name, site.conf.member m = some (name, site.my.id) →
      (getSession d.sessions name).isSome = true) :
    Returns (handleJoin site d m n) fun o => Handled site d (d.joinTable site.conf m n) o := by
  have hquiet : d.joinTable site.conf m n = d.table →
      Returns (.ok (.quiet d) : Except Exit Outcome)
        fun o => Handled site d (d.joinTable site.conf m n) o :=
    fun htable => .ok ⟨h, rfl, htable.symm, rfl⟩
  rw [handleJoin, if_neg h.not_gathering]
  split
  · rename_i hnames
    exact hquiet (by simp [joinTable, Conf.member, hnames])
  rename_i privateName procName hnames
  split
  · rename_i hproc
    exact hquiet (by simp [joinTable, Conf.member, hnames, hproc])
  rename_i p hproc
  have hm : site.conf.member m = some (privateName, p.id) :=
    Conf.member_eq_some.mpr ⟨procName, p, hnames, hproc, rfl⟩
  have hg := h.groupToJoin n
  have hdmn := hg.daemonToJoin p.id
  generalize d.groupToJoin n = g at hg hdmn
  generalize hdmn' : d.daemonToJoin site g p.id = dmn at hdmn
  have hmem : m ∈ g.members ↔ m ∈ dmn.members := by
    rw [hg.formed.mem_members_iff hm, ← hdmn.members, hdmn.procId]
  have htable : d.joinTable site.conf m n = d.table.join d.current m n (¬ d.present p.id) := by
    rw [joinTable, hm]
  simp only [hdmn']
  split
  · rename_i hold
    refine hquiet (htable.trans ?_)
    rw [Table.join, ← hg.view, if_pos]
    exact hmem.mpr (DaemonMembers.mem_of_getMember.mp hold)
  rename_i hnew
  rw [DaemonMembers.mem_of_getMember] at hnew
  have hmbox : ∀ newMbox, (if dmn.procId = site.my.id then
      newMbox.isSome = true ∧ newMbox = mailboxOf d.sessions m else newMbox = none) →
      Returns (do
        let g' := g.withMember site dmn m newMbox
        let notices ← g'.tell d.sessions
          (sendHeavyweightJoin site d.sessions g' (some m) newMbox)
          (sendLightweightMemb d.sessions g' .join m)
        pure ({ daemon := d.putGroup g', notices, sent := [] } : Outcome))
        fun o => Handled site d (d.joinTable site.conf m n) o := by
    intro newMbox hmbox
    have hm' : site.conf.member m = some (privateName, dmn.procId) := hdmn.procId ▸ hm
    have hformed := hg.formed.withMember hdmn.members hnew hm' newMbox
    have hview := hg.formed.view_withMember hdmn.members hnew hm' newMbox
    have htidy : (g.withMember site dmn m newMbox).Tidy site d.sessions :=
      ⟨hformed, Group.withMember_nonempty newMbox, hg.here.withMember hdmn.members hnew hmbox⟩
    have hmarked : (g.withMember site dmn m newMbox).Marked d.present :=
      hg.marked.withMember hdmn.here hdmn.away newMbox
    have hjoined : m ∈ (g.withMember site dmn m newMbox).members := by
      have hmem' : m ∈ (g.withMember site dmn m newMbox).view.members := by
        rw [hview]
        exact Set.mem_insert ..
      exact hmem'
    refine (Group.tell_returns (hformed.sendHeavyweightJoin_returns
      (fun j hj => (Option.some.inj hj) ▸ hjoined) newMbox)).bind fun notices _ => .pure ?_
    refine ⟨h.putGroup htidy hmarked, rfl, ?_, rfl⟩
    have hnew' : m ∉ g.view.members := fun hold => hnew (hmem.mp hold)
    rw [htable, Table.join, ← hg.view, if_neg hnew']
    refine Eq.trans (table_putGroup (g := g.withMember site dmn m newMbox)) ?_
    rw [hview, hdmn.isPartitioned hg.marked.known, ← hg.name]
    rfl
  rw [hdmn.procId] at hmbox
  split
  · rename_i hmy
    obtain ⟨s, hs⟩ := Option.isSome_iff_exists.mp (hlocal privateName (hmy ▸ hm))
    have hfound : (some s.mbox).isSome = true ∧ some s.mbox = mailboxOf d.sessions m :=
      ⟨rfl, by simp [mailboxOf, hnames, hs]⟩
    simp only [hs]
    exact hmbox (some s.mbox) (by rwa [if_pos hmy])
  · rename_i hmy
    exact hmbox none (by rw [if_neg hmy])

end Daemon

namespace Group

variable {site : Site} {sessions : List Session} {g : Group} {dmn : DaemonMembers}
  {procId : ProcId} {m n : Str} {present : ProcId → Prop}

theorem mem_erase_member {y : Str} {l : List Str} :
    y ∈ SkipList.erase strncmp id m l ↔ y ∈ l ∧ y ≠ m := by
  rw [SkipList.erase, List.mem_filter]
  simp [strncmp_total.eq_iff]

/-- What `G_remove_daemon` leaves alone. -/
theorem removeMember_frame : (g.removeMember site dmn m).name = g.name ∧
    (g.removeMember site dmn m).grpId = g.grpId ∧
    (g.removeMember site dmn m).changed = g.changed ∧
    (g.removeMember site dmn m).mboxes = g.mboxes := by
  rw [removeMember]
  split
  · exact ⟨rfl, rfl, rfl, rfl⟩
  · exact ⟨rfl, rfl, rfl, rfl⟩

theorem mem_daemons_removeMember {y : DaemonMembers}
    (hy : y ∈ (g.removeMember site dmn m).daemons) :
    y ∈ g.daemons ∨ y = { dmn with members := SkipList.erase strncmp id m dmn.members } := by
  rw [removeMember] at hy
  split at hy
  · exact (SkipList.mem_put (List.mem_filter.mp hy).1).symm
  · exact (SkipList.mem_put hy).symm

theorem Formed.members_removeMember (h : g.Formed site.conf)
    (hget : g.getDaemon site procId = some dmn) (hm : m ∈ dmn.members) :
    {y | y ∈ (g.removeMember site dmn m).members} = g.view.members \ {m} := by
  ext y
  simp only [view, Set.mem_ofPred_eq, Set.mem_sdiff, Set.mem_singleton_iff, h.mem_members,
    (h.removeMember hget hm).mem_members, membersAt_removeMember hget]
  constructor
  · rintro ⟨procId', hy⟩
    split at hy
    · obtain ⟨hy, hne⟩ := mem_erase_member.mp hy
      exact ⟨⟨procId, by rwa [membersAt_of_getDaemon hget]⟩, hne⟩
    · rename_i hne
      refine ⟨⟨procId', hy⟩, ?_⟩
      rintro rfl
      obtain ⟨n, hn⟩ := h.named hy
      have hat := membersAt_of_getDaemon hget
      obtain ⟨n', hn'⟩ := h.named (hat ▸ hm)
      rw [hn, Option.some.injEq, Prod.mk.injEq] at hn'
      exact hne hn'.2.symm
  · rintro ⟨⟨procId', hy⟩, hne⟩
    refine ⟨procId', ?_⟩
    split
    · rename_i heq
      rw [← heq, membersAt_of_getDaemon hget] at hy
      exact mem_erase_member.mpr ⟨hy, hne⟩
    · exact hy

/-- What a group has become when a member has left. -/
structure Left (site : Site) (sessions : List Session) (present : ProcId → Prop) (g : Group)
    (m : Str) (o : Option Group) : Prop where
  view : o.map Group.view = g.view.without m
  name : ∀ g' ∈ o, g'.name = g.name
  tidy : ∀ g' ∈ o, g'.Tidy site sessions
  marked : ∀ g' ∈ o, g'.Marked present

/-- The group without the mailbox of a local member. -/
def Unboxed (site : Site) (sessions : List Session) (g : Group) (procId : ProcId) (m : Str)
    (mboxes : List Mailbox) : Prop :=
  if procId = site.my.id then
    ∃ mbox, mailboxOf sessions m = some mbox ∧ (mbox :: mboxes).Perm g.mboxes
  else mboxes = g.mboxes

theorem Local.removeMember (h : g.Local site sessions) (hform : g.Formed site.conf)
    (hget : g.getDaemon site procId = some dmn) (hm : m ∈ dmn.members) {mboxes : List Mailbox}
    (hmboxes : g.Unboxed site sessions procId m mboxes) :
    (({ g with mboxes } : Group).removeMember site dmn m).Local site sessions := by
  have hget' : Group.getDaemon site { g with mboxes } procId = some dmn := hget
  rw [Local, membersAt_removeMember hget', removeMember_frame.2.2.2]
  rw [Unboxed] at hmboxes
  rw [Local] at h
  split
  · rename_i heq
    rw [if_pos heq] at hmboxes
    obtain ⟨mbox, hmbox, hperm⟩ := hmboxes
    rw [← heq, membersAt_of_getDaemon hget] at h
    have hordered := (hform.daemons dmn (mem_of_getDaemon hget).1).ordered
    have hfind : SkipList.find strncmp id m dmn.members = some m :=
      hordered.find_of_mem strncmp_total hm
    have hsplit := (hordered.perm_erase strncmp_total hfind).map (mailboxOf sessions)
    rw [List.map_cons, hmbox] at hsplit
    have hboth := (hperm.map some).trans (h.trans hsplit.symm)
    rw [List.map_cons] at hboth
    exact hboth.cons_inv
  · rename_i hne
    rw [if_neg hne] at hmboxes
    rw [hmboxes]
    exact h

theorem afterLeave_returns (h : g.Tidy site sessions) (hmarked : g.Marked present)
    (hget : g.getDaemon site procId = some dmn) (hm : m ∈ dmn.members) {mboxes : List Mailbox}
    (hmboxes : g.Unboxed site sessions procId m mboxes) (caused : Caused) :
    Returns ((({ g with mboxes } : Group).removeMember site dmn m).afterLeave site sessions caused m)
      fun r => Left site sessions present g m r.1 := by
  have hform : Group.Formed site.conf { g with mboxes } :=
    ⟨h.formed.ordered, h.formed.daemons, h.formed.count⟩
  have hget' : Group.getDaemon site { g with mboxes } procId = some dmn := hget
  have hmem : m ∈ g.view.members := by
    have hat := membersAt_of_getDaemon hget
    exact h.formed.mem_members.mpr ⟨procId, by rwa [hat]⟩
  have hformed := hform.removeMember hget' hm
  have hlocal := h.here.removeMember h.formed hget hm hmboxes
  have hmembers : {y | y ∈ (Group.removeMember site { g with mboxes } dmn m).members} =
      g.view.members \ {m} := hform.members_removeMember hget' hm
  have hname : (Group.removeMember site { g with mboxes } dmn m).name = g.name :=
    removeMember_frame.1
  have hgrpId : (Group.removeMember site { g with mboxes } dmn m).grpId = g.grpId :=
    removeMember_frame.2.1
  have hchanged : (Group.removeMember site { g with mboxes } dmn m).changed = g.changed :=
    removeMember_frame.2.2.1
  have hdaemons : ∀ y ∈ (Group.removeMember site { g with mboxes } dmn m).daemons,
      y ∈ g.daemons ∨ y = { dmn with members := SkipList.erase strncmp id m dmn.members } :=
    fun y hy => mem_daemons_removeMember (g := { g with mboxes }) hy
  generalize Group.removeMember site { g with mboxes } dmn m = g' at *
  rw [afterLeave]
  split
  · rename_i hzero
    have hnil := hformed.daemons_eq_nil hzero
    have hnone : g'.mboxes = [] := by
      have hat : g'.membersAt site site.my.id = [] := by
        simp [membersAt, Group.getDaemon, hnil, SkipList.find]
      rw [Local, hat] at hlocal
      simpa using hlocal.eq_nil
    rw [removeGroup, if_neg (by simp [hnil, hnone])]
    refine .ok ⟨?_, by simp, by simp, by simp⟩
    have hempty : g.view.members \ {m} = ∅ := by
      rw [← hmembers]
      ext y
      simp [members, hnil]
    rw [View.without, if_neg (not_not.mpr hmem), if_pos hempty]
    rfl
  · rename_i hpos
    have hne : g'.daemons ≠ [] := fun hnil => hpos (by rw [hformed.count, hnil]; rfl)
    refine (tell_returns ?_).bind fun notices _ => .pure ⟨?_, ?_, ?_, ?_⟩
    · have hformed' : Group.Formed site.conf
          { g' with grpId := { g'.grpId with index := g'.grpId.index + 1 } } :=
        ⟨hformed.ordered, hformed.daemons, hformed.count⟩
      exact hformed'.sendHeavyweightJoin_returns (fun j hj => absurd hj (by simp)) none
    · have hsome : g.view.members \ {m} ≠ ∅ := by
        rw [← hmembers]
        obtain ⟨dmn', rest, hcons⟩ := List.exists_cons_of_ne_nil hne
        have hdmn' : dmn' ∈ g'.daemons := hcons ▸ List.mem_cons_self
        obtain ⟨y, hy⟩ := List.exists_mem_of_ne_nil _ (hformed.daemons dmn' hdmn').nonempty
        exact Set.nonempty_iff_ne_empty.mp ⟨y, List.mem_flatMap.mpr ⟨dmn', hdmn', hy⟩⟩
      rw [View.without, if_neg (not_not.mpr hmem), if_neg hsome]
      refine congrArg some (View.ext hmembers ?_ ?_)
      · simp only [view, View.next, hgrpId]
      · simp only [view, hchanged]
    · rintro _ ⟨⟩
      exact hname
    · rintro _ ⟨⟩
      exact ⟨⟨hformed.ordered, hformed.daemons, hformed.count⟩, hne, hlocal⟩
    · rintro _ ⟨⟩
      have hdmn := (mem_of_getDaemon hget).1
      refine ⟨?_, ?_, ?_, ?_⟩
      · simpa only [hgrpId] using hmarked.known
      · intro y hy hp
        rcases hdaemons y hy with hy | rfl
        · simpa only [hgrpId] using hmarked.here y hy hp
        · simpa only [hgrpId] using hmarked.here dmn hdmn hp
      · intro y hy hp
        rcases hdaemons y hy with hy | rfl
        · exact hmarked.away y hy hp
        · exact hmarked.away dmn hdmn hp
      · intro y hy hp
        simp only [hchanged]
        rcases hdaemons y hy with hy | rfl
        · exact hmarked.changed y hy hp
        · exact hmarked.changed dmn hdmn hp

end Group

theorem tableOf_cons (g : Group) (groups : List Group) (n : Str) :
    tableOf (g :: groups) n = if g.name = n then some g.view else tableOf groups n := by
  rw [tableOf, tableOf, SkipList.find]
  split
  · rename_i heq
    rw [List.find?_cons_of_pos (by simpa using (strncmp_total.eq_iff _ _).mpr heq)]
    rfl
  · rename_i hne
    have hcmp : ¬ strncmp g.name n = 0 := fun h => hne ((strncmp_total.eq_iff _ _).mp h)
    rw [List.find?_cons_of_neg (by simpa using hcmp)]
    rfl

theorem tableOf_eq_none {groups : List Group} {n : Str} (h : ∀ g ∈ groups, g.name ≠ n) :
    tableOf groups n = none := by
  rw [tableOf, (SkipList.find_eq_none strncmp_total).mpr h]
  rfl

/-- A loop over groups in which each becomes what `k` makes of it. -/
theorem overGroups_returns {f : Group → Except Exit (Option Group × List (Str × Notice))}
    {Q : Group → Prop} {k : View → Option View} {groups : List Group}
    (hordered : SkipList.Ordered strncmp Group.name groups)
    (hf : ∀ g ∈ groups, Returns (f g) fun r =>
      r.1.map Group.view = k g.view ∧ ∀ g' ∈ r.1, g'.name = g.name ∧ Q g') :
    Returns (overGroups f groups) fun r =>
      SkipList.Ordered strncmp Group.name r.1 ∧ (∀ g' ∈ r.1, Q g') ∧
      tableOf r.1 = (tableOf groups).bind k := by
  refine Returns.mono (P := fun r => SkipList.Ordered strncmp Group.name r.1 ∧
    (∀ g' ∈ r.1, Q g' ∧ ∃ g ∈ groups, g'.name = g.name) ∧
    tableOf r.1 = (tableOf groups).bind k) ?_
    fun r hr => ⟨hr.1, fun g' hg' => (hr.2.1 g' hg').1, hr.2.2⟩
  induction groups with
  | nil => exact .ok ⟨.nil, by simp, rfl⟩
  | cons g rest ih =>
      obtain ⟨hlt, hrest⟩ := List.pairwise_cons.mp hordered
      have htail := ih hrest fun g' hg' => hf g' (List.mem_cons_of_mem _ hg')
      rw [overGroups]
      refine (hf g List.mem_cons_self).bind fun r hr => htail.bind fun r' hr' => .pure ?_
      obtain ⟨hview, hkept⟩ := hr
      obtain ⟨hordered', hmem, htable⟩ := hr'
      have hhead : ∀ y ∈ r'.1, strncmp g.name y.name < 0 := fun y hy => by
        obtain ⟨-, z, hz, heq⟩ := hmem y hy
        rw [heq]
        exact hlt z hz
      have hout : tableOf rest g.name = none :=
        tableOf_eq_none fun y hy heq => strncmp_total.ne_of_neg (hlt y hy) heq.symm
      refine ⟨?_, ?_, ?_⟩
      · cases hg? : r.1 with
        | none => exact hordered'
        | some g' =>
            refine List.pairwise_cons.mpr ⟨fun y hy => ?_, hordered'⟩
            rw [(hkept g' hg?).1]
            exact hhead y hy
      · intro y hy
        rcases List.mem_append.mp hy with hy | hy
        · obtain ⟨hname, hQ⟩ := hkept y (Option.mem_toList.mp hy)
          exact ⟨hQ, g, List.mem_cons_self, hname⟩
        · obtain ⟨hQ, z, hz, heq⟩ := hmem y hy
          exact ⟨hQ, z, List.mem_cons_of_mem _ hz, heq⟩
      · funext n
        rw [Table.bind, tableOf_cons]
        have hsame : tableOf r'.1 n = (tableOf rest n).bind k := congrFun htable n
        cases hg? : r.1 with
        | none =>
            rw [hg?] at hview
            split
            · rename_i heq
              rw [Option.bind_some, ← hview, ← heq]
              exact tableOf_eq_none fun y hy heq' => strncmp_total.ne_of_neg (hhead y hy) heq'.symm
            · exact hsame
        | some g' =>
            rw [hg?] at hview
            refine (tableOf_cons g' r'.1 n).trans ?_
            rw [(hkept g' hg?).1]
            split
            · rw [Option.bind_some, ← hview]
              rfl
            · exact hsame

theorem View.without_of_not_mem {v : View} {m : Str} (h : m ∉ v.members) :
    v.without m = some v := if_pos h

/-- The mailbox of a local member is there to be removed. -/
theorem Group.Local.mem_mboxes {site : Site} {sessions : List Session} {g : Group} {m : Str}
    {mbox : Mailbox} (h : g.Local site sessions) (hm : m ∈ g.membersAt site site.my.id)
    (hmbox : mailboxOf sessions m = some mbox) : mbox ∈ g.mboxes := by
  have hmem := h.mem_iff.mpr (List.mem_map.mpr ⟨m, hm, hmbox⟩)
  obtain ⟨y, hy, heq⟩ := List.mem_map.mp hmem
  exact Option.some.inj heq ▸ hy

namespace Daemon

variable {site : Site} {d : Daemon} {g : Group} {m n : Str}

/-- The sessions of the local members are there. -/
def Local (site : Site) (sessions : List Session) (m : Str) : Prop :=
  ∀ name, site.conf.member m = some (name, site.my.id) → (getSession sessions name).isSome = true

theorem handleLeave_returns (h : d.Operating site) (hlocal : Local site d.sessions m) :
    Returns (handleLeave site d m n) fun o => Handled site d (d.table.leave m n) o := by
  have hquiet : (d.table n).bind (View.without m) = d.table n →
      Returns (.ok (.quiet d) : Except Exit Outcome)
        fun o => Handled site d (d.table.leave m n) o := by
    intro hsame
    refine .ok ⟨h, rfl, ?_, rfl⟩
    rw [Table.leave, hsame, Function.update_eq_self]
    rfl
  have hout : (∀ g, d.getGroup n = some g → m ∉ g.members) →
      (d.table n).bind (View.without m) = d.table n := by
    intro hno
    rw [table_eq]
    cases hget : d.getGroup n with
    | none => rfl
    | some g => exact View.without_of_not_mem (hno g hget)
  have hformed : ∀ g, d.getGroup n = some g → g.Formed site.conf := fun g hget =>
    (h.tidy.groups g (mem_of_getGroup hget).1).formed
  have hnamed : ∀ g, d.getGroup n = some g → m ∈ g.members →
      ∃ name procId, site.conf.member m = some (name, procId) := fun g hget hm => by
    obtain ⟨procId, hat⟩ := (hformed g hget).mem_members.mp hm
    obtain ⟨name, hname⟩ := (hformed g hget).named hat
    exact ⟨name, procId, hname⟩
  rw [handleLeave, if_neg h.not_gathering]
  split
  · rename_i hnames
    refine hquiet (hout fun g hget hm => ?_)
    obtain ⟨name, procId, hname⟩ := hnamed g hget hm
    simp [Conf.member, hnames] at hname
  rename_i privateName procName hnames
  split
  case h_2 =>
    rename_i hmissing
    refine hquiet (hout fun g hget hm => ?_)
    obtain ⟨name, procId, hname⟩ := hnamed g hget hm
    obtain ⟨procName', p, hnames', hproc, -⟩ := Conf.member_eq_some.mp hname
    rw [hnames, Option.some.injEq, Prod.mk.injEq] at hnames'
    exact hmissing p g (hnames'.2 ▸ hproc) hget
  rename_i p g hproc hget
  have hmember : site.conf.member m = some (privateName, p.id) :=
    Conf.member_eq_some.mpr ⟨procName, p, hnames, hproc, rfl⟩
  obtain ⟨hg, hname⟩ := mem_of_getGroup hget
  have htidy := h.tidy.groups g hg
  have hmarked := h.marked g hg
  have hmem := htidy.formed.mem_members_iff hmember
  split
  · rename_i hdmn
    refine hquiet (hout fun g' hget' hm => ?_)
    obtain rfl := Option.some.inj (hget.symm.trans hget')
    rw [hmem, Group.membersAt_of_none hdmn] at hm
    exact List.not_mem_nil hm
  rename_i dmn hdmn
  have hat := Group.membersAt_of_getDaemon hdmn
  split
  · rename_i hno
    refine hquiet (hout fun g' hget' hm => ?_)
    obtain rfl := Option.some.inj (hget.symm.trans hget')
    rw [hmem, hat, ← DaemonMembers.mem_of_getMember] at hm
    rw [Option.isNone_iff_eq_none.mp hno] at hm
    cases hm
  rename_i hyes
  have hm : m ∈ dmn.members := by
    rw [← DaemonMembers.mem_of_getMember, Option.isSome_iff_ne_none]
    simpa using hyes
  have hleft : ∀ mboxes self, g.Unboxed site d.sessions p.id m mboxes →
      Returns (do
        let r ←
          (({ g with mboxes } : Group).removeMember site dmn m).afterLeave site d.sessions .leave m
        pure ({ daemon := d.setGroup n r.1, notices := self ++ r.2, sent := [] } : Outcome))
        fun o => Handled site d (d.table.leave m n) o := by
    intro mboxes self hmboxes
    refine (Group.afterLeave_returns htidy hmarked hdmn hm hmboxes .leave).bind fun r hr => ?_
    have hbind : (d.table n).bind (View.without m) = r.1.map Group.view := by
      rw [table_eq, hget]
      exact hr.view.symm
    obtain ⟨g?, notices⟩ := r
    cases g? with
    | none =>
        refine .pure ⟨h.eraseGroup, rfl, ?_, rfl⟩
        rw [Table.leave, hbind]
        exact table_eraseGroup
    | some g' =>
        refine .pure ⟨h.putGroup (hr.tidy g' rfl) (hr.marked g' rfl), rfl, ?_, rfl⟩
        rw [Table.leave, hbind, ← hname, ← hr.name g' rfl]
        exact table_putGroup
  split
  · rename_i hmy
    obtain ⟨s, hs⟩ := Option.isSome_iff_exists.mp (hlocal privateName (hmy ▸ hmember))
    have hmbox : mailboxOf d.sessions m = some s.mbox := by simp [mailboxOf, hnames, hs]
    have hmem' := htidy.here.mem_mboxes (hmy ▸ hat ▸ hm) hmbox
    obtain ⟨_, hremove, mboxes, rfl, hperm⟩ := Group.removeMailbox_returns hmem'
    simp only [hs, hremove]
    refine hleft mboxes (sendSelfLeave { g with mboxes } s) ?_
    rw [Group.Unboxed, if_pos hmy]
    exact ⟨s.mbox, hmbox, hperm⟩
  · rename_i hmy
    refine hleft g.mboxes [] ?_
    rw [Group.Unboxed, if_neg hmy]

theorem killInGroup_returns (h : d.Operating site) (hlocal : Local site d.sessions m) {p : Proc}
    {privateName procName : Str} (hnames : privateToNames m = some (privateName, procName))
    (hproc : site.conf.procByName procName = some p) (hg : g ∈ d.groups) :
    Returns (killInGroup site d.sessions p privateName m g) fun r =>
      Group.Left site d.sessions d.present g m r.1 := by
  have hmember : site.conf.member m = some (privateName, p.id) :=
    Conf.member_eq_some.mpr ⟨procName, p, hnames, hproc, rfl⟩
  have htidy := h.tidy.groups g hg
  have hmarked := h.marked g hg
  have hmem := htidy.formed.mem_members_iff hmember
  have hquiet : m ∉ g.members →
      Returns (.ok (some g, []) : Except Exit (Option Group × List (Str × Notice))) fun r =>
        Group.Left site d.sessions d.present g m r.1 := fun hno =>
    .ok ⟨(View.without_of_not_mem hno).symm, by simp, by simpa using htidy, by simpa using hmarked⟩
  rw [killInGroup]
  split
  · rename_i hdmn
    refine hquiet fun hm => ?_
    rw [hmem, Group.membersAt_of_none hdmn] at hm
    exact List.not_mem_nil hm
  rename_i dmn hdmn
  have hat := Group.membersAt_of_getDaemon hdmn
  split
  · rename_i hno
    refine hquiet fun hm => ?_
    rw [hmem, hat, ← DaemonMembers.mem_of_getMember, Option.isNone_iff_eq_none.mp hno] at hm
    cases hm
  rename_i hyes
  have hm : m ∈ dmn.members := by
    rw [← DaemonMembers.mem_of_getMember, Option.isSome_iff_ne_none]
    simpa using hyes
  split
  · rename_i hmy
    obtain ⟨s, hs⟩ := Option.isSome_iff_exists.mp (hlocal privateName (hmy ▸ hmember))
    have hmbox : mailboxOf d.sessions m = some s.mbox := by simp [mailboxOf, hnames, hs]
    have hmem' := htidy.here.mem_mboxes (hmy ▸ hat ▸ hm) hmbox
    obtain ⟨_, hremove, mboxes, rfl, hperm⟩ := Group.removeMailbox_returns hmem'
    simp only [hs, hremove]
    refine Group.afterLeave_returns htidy hmarked hdmn hm ?_ .disconnect
    rw [Group.Unboxed, if_pos hmy]
    exact ⟨s.mbox, hmbox, hperm⟩
  · rename_i hmy
    have hmboxes : g.Unboxed site d.sessions p.id m g.mboxes := by rw [Group.Unboxed, if_neg hmy]
    exact Group.afterLeave_returns htidy hmarked hdmn hm hmboxes .disconnect

theorem handleKill_returns (h : d.Operating site) (hlocal : Local site d.sessions m) :
    Returns (handleKill site d m) fun o => Handled site d (d.table.kill m) o := by
  have hquiet : site.conf.member m = none → Returns (.ok (.quiet d) : Except Exit Outcome)
      fun o => Handled site d (d.table.kill m) o := by
    intro hnone
    refine .ok ⟨h, rfl, ?_, rfl⟩
    funext n
    rw [Table.kill, Table.bind]
    show d.table n = _
    rw [table_eq]
    cases hget : d.getGroup n with
    | none => rfl
    | some g =>
        refine (View.without_of_not_mem fun hm => ?_).symm
        have hformed := (h.tidy.groups g (mem_of_getGroup hget).1).formed
        obtain ⟨procId, hat⟩ := hformed.mem_members.mp hm
        obtain ⟨name, hname⟩ := hformed.named hat
        rw [hnone] at hname
        cases hname
  rw [handleKill, if_neg h.not_gathering]
  split
  · rename_i hnames
    exact hquiet (by simp [Conf.member, hnames])
  rename_i privateName procName hnames
  split
  · rename_i hproc
    exact hquiet (by simp [Conf.member, hnames, hproc])
  rename_i p hproc
  have hover := overGroups_returns (Q := fun g => g.Tidy site d.sessions ∧ g.Marked d.present)
    (k := View.without m) h.tidy.ordered fun g hg =>
      (killInGroup_returns h hlocal hnames hproc hg).mono fun r hr =>
        ⟨hr.view, fun g' hg' => ⟨hr.name g' hg', hr.tidy g' hg', hr.marked g' hg'⟩⟩
  refine hover.bind fun r hr => .pure ?_
  obtain ⟨hordered, hkept, htable⟩ := hr
  exact ⟨⟨h.state, ⟨hordered, fun g hg => (hkept g hg).1⟩, h.current,
    fun g hg => (hkept g hg).2⟩, rfl, htable, rfl⟩

end Daemon

end Netbroker.Groups
