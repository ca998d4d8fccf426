import Netbroker.Groups.Messages

/-!
# The messages about groups

The representative of a synced set puts its groups into buffers. A group that does not fit is
cut between its daemons, and goes on in the next buffer. All buffers together cover its table.

What is told of a group is the list of its members by daemons. `takeDaemons` and `takeGroups`
fill one buffer and leave the rest of what is to be told; `buildLoop_spec` puts the buffers of
all turns together.
-/

namespace Netbroker.Groups

open Spread Transition

/-- The daemons of a group, as messages tell them. -/
def Group.told (g : Group) : List (Str × DaemonMembers) :=
  g.daemons.map fun dmn => (g.name, { dmn with membId := g.grpId.membId })

def GroupInfo.told (info : GroupInfo) : List (Str × DaemonMembers) :=
  info.daemons.map fun dmn => (info.name, dmn)

/-- What a buffer says of a group besides its daemons. -/
def GroupInfo.Of (info : GroupInfo) (g : Group) : Prop :=
  info.name = g.name ∧ info.grpId = g.grpId ∧ info.changed = g.changed

/-- A group of which some daemons have been told. -/
structure Group.Rest (g' g : Group) : Prop where
  name : g'.name = g.name
  grpId : g'.grpId = g.grpId
  changed : g'.changed = g.changed

theorem takeDaemons_spec (membId : MembershipId) (numBytes : Nat) (l : List DaemonMembers) :
    l.map (fun dmn => { dmn with membId }) =
      (takeDaemons membId numBytes l).1 ++
        (takeDaemons membId numBytes l).2.1.map fun dmn => { dmn with membId } := by
  induction l generalizing numBytes with
  | nil => rfl
  | cons dmn rest ih =>
      rw [takeDaemons]
      simp only
      split
      · rfl
      · exact congrArg ({ dmn with membId } :: ·) (ih _)

/-- What is taken and what is left are the groups. -/
structure Taken (groups : List Group) (infos : List GroupInfo) (rest : List Group) : Prop where
  told : groups.flatMap Group.told = infos.flatMap GroupInfo.told ++ rest.flatMap Group.told
  infos : ∀ info ∈ infos, ∃ g ∈ groups, info.Of g
  rest : ∀ g' ∈ rest, ∃ g ∈ groups, g'.Rest g

theorem takeGroups_spec (numBytes : Nat) (groups : List Group) :
    Taken groups (takeGroups numBytes groups).1 (takeGroups numBytes groups).2 := by
  induction groups generalizing numBytes with
  | nil => exact ⟨rfl, by simp [takeGroups], by simp [takeGroups]⟩
  | cons g rest ih =>
      have hself : ∀ g' ∈ g :: rest, ∃ y ∈ g :: rest, g'.Rest y :=
        fun g' hg' => ⟨g', hg', rfl, rfl, rfl⟩
      have htold := takeDaemons_spec g.grpId.membId (numBytes + groupInfoSize) g.daemons
      rw [takeGroups]
      split
      · exact ⟨rfl, by simp, hself⟩
      simp only
      generalize takeDaemons g.grpId.membId (numBytes + groupInfoSize) g.daemons = r at htold
      obtain ⟨taken, left, numBytes⟩ := r
      simp only at htold ⊢
      have hg : g.told = GroupInfo.told
          { name := g.name, grpId := g.grpId, changed := g.changed, daemons := taken } ++
          Group.told { g with daemons := left } := by
        have hmap := congrArg (List.map fun dmn => (g.name, dmn)) htold
        rw [List.map_append, List.map_map, List.map_map] at hmap
        exact hmap
      split
      · refine ⟨?_, ?_, ?_⟩
        · rw [List.flatMap_cons, hg]
          simp
        · intro info hinfo
          rw [List.mem_singleton.mp hinfo]
          exact ⟨g, List.mem_cons_self, rfl, rfl, rfl⟩
        · rintro g' (_ | ⟨_, hg'⟩)
          · exact ⟨g, List.mem_cons_self, rfl, rfl, rfl⟩
          · exact hself g' (List.mem_cons_of_mem _ hg')
      · rename_i hleft
        have hnil : left = [] := not_not.mp hleft
        obtain ⟨htold', hinfos, hrest⟩ := ih numBytes
        refine ⟨?_, ?_, ?_⟩
        · rw [List.flatMap_cons, List.flatMap_cons, htold', hg, hnil]
          simp [Group.told]
        · rintro info (_ | ⟨_, hinfo⟩)
          · exact ⟨g, List.mem_cons_self, rfl, rfl, rfl⟩
          · obtain ⟨y, hy, hof⟩ := hinfos info hinfo
            exact ⟨y, List.mem_cons_of_mem _ hy, hof⟩
        · intro g' hg'
          obtain ⟨y, hy, hof⟩ := hrest g' hg'
          exact ⟨y, List.mem_cons_of_mem _ hy, hof⟩

/-- All that is built of the groups. -/
structure Built (groups : List Group) (first : Option (List ProcId)) (bufs : List GroupsBuf) :
    Prop where
  told : ((bufs.flatMap GroupsBuf.groups).flatMap GroupInfo.told).Perm (groups.flatMap Group.told)
  infos : ∀ info ∈ bufs.flatMap GroupsBuf.groups, ∃ g ∈ groups, info.Of g
  first : bufs.findSome? GroupsBuf.first = first

theorem buildLoop_spec (d : Daemon) (fuel : Nat) (firstTime : Bool) (groups : List Group)
    (bufs : List GroupsBuf) {out : List GroupsBuf}
    (hout : d.buildLoop fuel firstTime groups bufs = some out) :
    ∃ new, out = new ++ bufs ∧
      Built groups (if firstTime then some d.mySyncedSet else none) new := by
  induction fuel generalizing firstTime groups bufs with
  | zero => cases hout
  | succ fuel ih =>
      rw [Daemon.buildLoop, Daemon.buildGroupsBuf] at hout
      simp only at hout
      generalize (preambleSize + if firstTime = true then 4 + 4 * d.mySyncedSet.length else 0) =
        numBytes at hout
      have htaken := takeGroups_spec numBytes groups
      generalize takeGroups numBytes groups = r at hout htaken
      obtain ⟨infos, rest⟩ := r
      simp only at hout htaken
      split at hout
      · rename_i hrest
        obtain rfl := Option.some.inj hout
        refine ⟨[_], rfl, ?_, ?_, ?_⟩
        · rw [htaken.told, hrest]
          simp
        · simpa using htaken.infos
        · cases firstTime <;> rfl
      · obtain ⟨new, rfl, hnew⟩ := ih false rest _ hout
        refine ⟨new ++ [_], by rw [List.append_assoc]; rfl, ?_, ?_, ?_⟩
        · rw [List.flatMap_append, List.flatMap_append, List.flatMap_singleton, htaken.told]
          exact (hnew.told.append_right _).trans List.perm_append_comm
        · intro info hinfo
          rw [List.flatMap_append, List.flatMap_singleton, List.mem_append] at hinfo
          rcases hinfo with hinfo | hinfo
          · obtain ⟨g', hg', hof⟩ := hnew.infos info hinfo
            obtain ⟨g, hg, hrest⟩ := htaken.rest g' hg'
            exact ⟨g, hg, hof.1.trans hrest.name, hof.2.1.trans hrest.grpId,
              hof.2.2.trans hrest.changed⟩
          · exact htaken.infos info hinfo
        · have hnone : new.findSome? GroupsBuf.first = none := hnew.first
          rw [List.findSome?_append, hnone]
          cases firstTime <;> rfl

variable {site : Site} {sessions : List Session} {procIds : List ProcId} {groups : List Group}
  {first : Option (List ProcId)} {bufs : List GroupsBuf}

theorem mem_told {g : Group} {n : Str} {dmn : DaemonMembers} :
    (n, dmn) ∈ g.told ↔
      n = g.name ∧ ∃ y ∈ g.daemons, dmn = { y with membId := g.grpId.membId } := by
  rw [Group.told, List.mem_map]
  constructor
  · rintro ⟨y, hy, heq⟩
    exact ⟨(Prod.mk.inj heq).1.symm, y, hy, (Prod.mk.inj heq).2.symm⟩
  · rintro ⟨rfl, y, hy, rfl⟩
    exact ⟨y, hy, rfl⟩

theorem Built.mem_iff (h : Built groups first bufs) {n : Str} {dmn : DaemonMembers} :
    (∃ info ∈ bufs.flatMap GroupsBuf.groups, info.name = n ∧ dmn ∈ info.daemons) ↔
      ∃ g ∈ groups, (n, dmn) ∈ g.told := by
  rw [← List.mem_flatMap, ← h.told.mem_iff, List.mem_flatMap]
  refine exists_congr fun info => and_congr_right fun _ => ?_
  rw [GroupInfo.told, List.mem_map]
  constructor
  · rintro ⟨rfl, hdmn⟩
    exact ⟨dmn, hdmn, rfl⟩
  · rintro ⟨y, hy, heq⟩
    obtain ⟨rfl, rfl⟩ := Prod.mk.inj heq
    exact ⟨rfl, hy⟩

theorem Gathering.keys_nodup (h : Gathering site sessions procIds groups) :
    ((groups.flatMap Group.told).map fun p => (p.1, p.2.procId)).Nodup := by
  rw [List.map_flatMap]
  refine List.nodup_flatMap.mpr ⟨fun g hg => ?_, h.ordered.imp fun {g g'} hlt => ?_⟩
  · rw [Group.told, List.map_map]
    exact List.Pairwise.map _ (fun a b hab heq =>
      (compareProcIds_total site.conf).ne_of_neg hab (Prod.mk.inj heq).2)
      (h.tidy g hg).formed.ordered
  · intro k hk hk'
    obtain ⟨p, hp, rfl⟩ := List.mem_map.mp hk
    obtain ⟨p', hp', heq⟩ := List.mem_map.mp hk'
    have hname : p.1 = g.name := (mem_told.mp hp).1
    have hname' : p'.1 = g'.name := (mem_told.mp hp').1
    refine strncmp_total.ne_of_neg hlt ?_
    rw [← hname, ← hname', (Prod.mk.inj heq).1]

/-- The buffers of a daemon cover its table. -/
theorem Built.covers (hbuilt : Built groups first bufs)
    (h : Gathering site sessions procIds groups) :
    Covers site.conf (tableOf groups) procIds (bufs.flatMap GroupsBuf.groups) := by
  have hview : ∀ g ∈ groups, tableOf groups g.name = some g.view := fun g hg => by
    rw [tableOf, h.ordered.find_of_mem strncmp_total hg]
    rfl
  refine ⟨⟨?keys, ?daemons, ?views⟩, ?members⟩
  case keys =>
    have hkeys : (bufs.flatMap GroupsBuf.groups).flatMap GroupInfo.keys =
        ((bufs.flatMap GroupsBuf.groups).flatMap GroupInfo.told).map
          fun p => (p.1, p.2.procId) := by
      rw [List.map_flatMap]
      refine List.flatMap_congr fun info _ => ?_
      rw [GroupInfo.told, List.map_map]
      rfl
    rw [hkeys]
    exact (hbuilt.told.map _).nodup_iff.mpr h.keys_nodup
  case daemons =>
    intro info hinfo dmn hdmn
    obtain ⟨g, hg, hmem⟩ := hbuilt.mem_iff.mp ⟨info, hinfo, rfl, hdmn⟩
    obtain ⟨hname, y, hy, rfl⟩ := mem_told.mp hmem
    obtain ⟨g', hg', hof⟩ := hbuilt.infos info hinfo
    obtain rfl : g' = g := h.ordered.unique strncmp_total hg' hg (hof.1.symm.trans hname)
    have htidy := (h.tidy g' hg').formed.daemons y hy
    refine ⟨⟨htidy.ordered, htidy.nonempty, htidy.named⟩, ?_, h.daemons g' hg' y hy⟩
    rw [hof.2.1]
  case views =>
    intro info hinfo
    obtain ⟨g, hg, hof⟩ := hbuilt.infos info hinfo
    rw [hof.1, hof.2.1, hof.2.2]
    exact ⟨(h.whole g hg).known, g.view, hview g hg, rfl, Iff.rfl⟩
  case members =>
    intro n v hv
    refine ⟨?_, h.nonempty hv⟩
    obtain ⟨g, hget, rfl⟩ := Option.map_eq_some_iff.mp hv
    obtain ⟨hg, rfl⟩ := SkipList.mem_of_find strncmp_total hget
    ext m
    constructor
    · intro hm
      obtain ⟨y, hy, hm⟩ := List.mem_flatMap.mp hm
      obtain ⟨info, hinfo, hname, hdmn⟩ := hbuilt.mem_iff.mpr
        ⟨g, hg, mem_told.mpr ⟨rfl, y, hy, rfl⟩⟩
      exact ⟨info, hinfo, hname, _, hdmn, hm⟩
    · rintro ⟨info, hinfo, hname, dmn, hdmn, hm⟩
      obtain ⟨g', hg', hmem⟩ := hbuilt.mem_iff.mp ⟨info, hinfo, hname, hdmn⟩
      obtain ⟨hname', y, hy, rfl⟩ := mem_told.mp hmem
      obtain rfl : g = g' := h.ordered.unique strncmp_total hg hg' hname'
      exact List.mem_flatMap.mpr ⟨y, hy, hm⟩

/-- What a representative has built tells its table and its synced set. -/
theorem Daemon.buildNewGroupsBufs_covers {d d' : Daemon}
    (h : Gathering site d.sessions d.mySyncedSet d.groups) (hnone : d.groupsBufs = [])
    (hbuild : d.buildNewGroupsBufs = .ok d') :
    d' = { d with groupsBufs := d'.groupsBufs } ∧
    Covers site.conf d.table d.mySyncedSet (d'.groupsBufs.flatMap GroupsBuf.groups) ∧
    d'.groupsBufs.findSome? GroupsBuf.first = some d.mySyncedSet := by
  rw [buildNewGroupsBufs, hnone] at hbuild
  cases hloop : d.buildLoop (buildFuel d.groups) true d.groups [] with
  | none =>
      rw [hloop] at hbuild
      cases hbuild
  | some bufs =>
      rw [hloop] at hbuild
      obtain ⟨new, hnew, hbuilt⟩ := buildLoop_spec d _ true d.groups [] hloop
      obtain rfl : bufs = new := hnew.trans (List.append_nil new)
      obtain rfl := Except.ok.inj hbuild
      exact ⟨rfl, hbuilt.covers h, hbuilt.first⟩

theorem Daemon.groupsMessages_bufs (d : Daemon) (bufs : List GroupsBuf) :
    (d.groupsMessages site bufs).map GroupsMess.buf = bufs := by
  induction bufs with
  | nil => rfl
  | cons buf rest ih =>
      rw [groupsMessages, List.map_cons, ih]

/-- What a representative sends tells its table and its synced set. -/
theorem Daemon.sendNewGroups_tells {d : Daemon} {o : Outcome}
    (h : Gathering site d.sessions d.mySyncedSet d.groups) (hnone : d.groupsBufs = [])
    (hleader : d.isSyncedSetLeader site.my.id = true) (hsend : d.sendNewGroups site = .ok o) :
    o.daemon.table = d.table ∧
    Covers site.conf d.table d.mySyncedSet (o.sent.flatMap fun m => m.buf.groups) ∧
    (o.sent.findSome? fun m => m.buf.first) = some d.mySyncedSet := by
  rw [sendNewGroups, if_pos hleader] at hsend
  cases hbuild : d.buildNewGroupsBufs with
  | error e =>
      rw [hbuild] at hsend
      cases hsend
  | ok d' =>
      rw [hbuild] at hsend
      obtain rfl := Except.ok.inj hsend
      obtain ⟨hsame, hcovers, hfirst⟩ := buildNewGroupsBufs_covers h hnone hbuild
      have hbufs : (sendGroups site { d' with groupsBufsFresh := true }).sent.map GroupsMess.buf =
          d'.groupsBufs := groupsMessages_bufs _ _
      rw [← hbufs, List.flatMap_map] at hcovers
      rw [← hbufs, List.findSome?_map] at hfirst
      refine ⟨?_, hcovers, hfirst⟩
      rw [hsame]
      rfl

end Netbroker.Groups
