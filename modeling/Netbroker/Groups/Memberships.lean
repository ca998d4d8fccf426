import Netbroker.Groups.Clients

/-!
# Daemons that leave

In the transitional membership the daemons that have been lost are marked, and their members
stay until the regular membership. When that has no daemons but those of the transitional one
the members of the others go away, and the groups that they were in get an identifier of the
new membership.

A change of where daemons are is a `Recast`, which keeps names and members. Then come the
elimination of daemons from one group, what the two memberships make of one group, and the
loops over all groups. In each case the new table is stated beside the invariant.
-/

namespace Netbroker.Groups

open Spread Transition

/-- The members at some daemons. -/
def Conf.membersOf (conf : Conf) (procIds : List ProcId) : Set Str :=
  {m | ∃ n, ∃ procId ∈ procIds, conf.member m = some (n, procId)}

namespace Group

variable {site : Site} {sessions : List Session} {g : Group} {present : ProcId → Prop}
  {procIds : List ProcId} {membId : MembershipId}

/-- The daemons of a group keep their names and members. -/
structure Recast (g g' : Group) (f : DaemonMembers → DaemonMembers) : Prop where
  name : g'.name = g.name
  numMembers : g'.numMembers = g.numMembers
  mboxes : g'.mboxes = g.mboxes
  daemons : g'.daemons = g.daemons.map f
  procId : ∀ dmn, (f dmn).procId = dmn.procId
  members : ∀ dmn, (f dmn).members = dmn.members

namespace Recast

variable {g' : Group} {f : DaemonMembers → DaemonMembers}

theorem formed (h : Recast g g' f) (hg : g.Formed site.conf) : g'.Formed site.conf where
  ordered := by
    rw [h.daemons]
    exact hg.ordered.map h.procId
  daemons := by
    intro y hy
    rw [h.daemons] at hy
    obtain ⟨dmn, hdmn, rfl⟩ := List.mem_map.mp hy
    have htidy := hg.daemons dmn hdmn
    refine ⟨?_, ?_, ?_⟩
    · rw [h.members]
      exact htidy.ordered
    · rw [h.members]
      exact htidy.nonempty
    · rw [h.members, h.procId]
      exact htidy.named
  count := by
    rw [h.numMembers, hg.count, h.daemons, List.map_map]
    refine congrArg List.sum (List.map_congr_left fun dmn _ => ?_)
    simp [h.members]

theorem membersAt (h : Recast g g' f) (procId : ProcId) :
    g'.membersAt site procId = g.membersAt site procId := by
  rw [Group.membersAt, Group.membersAt, getDaemon, getDaemon, h.daemons,
    SkipList.find_map h.procId, Option.map_map]
  congr 2
  funext dmn
  exact h.members dmn

theorem tidy (h : Recast g g' f) (hg : g.Tidy site sessions) : g'.Tidy site sessions where
  formed := h.formed hg.formed
  nonempty := by
    rw [h.daemons]
    simpa using hg.nonempty
  here := by
    rw [Local, h.mboxes, h.membersAt]
    exact hg.here

theorem members_eq (h : Recast g g' f) : {m | m ∈ g'.members} = g.view.members := by
  ext m
  simp [Group.members, view, h.daemons, h.members]

end Recast

theorem Formed.members_subset (h : g.Formed site.conf) :
    g.view.members ⊆ site.conf.membersOf procIds ↔ ∀ dmn ∈ g.daemons, dmn.procId ∈ procIds := by
  constructor
  · intro hsub dmn hdmn
    obtain ⟨m, hm⟩ := List.exists_mem_of_ne_nil _ (h.daemons dmn hdmn).nonempty
    obtain ⟨n, procId, hp, hn⟩ := hsub (List.mem_flatMap.mpr ⟨dmn, hdmn, hm⟩)
    obtain ⟨n', hn'⟩ := (h.daemons dmn hdmn).named m hm
    rw [hn, Option.some.injEq, Prod.mk.injEq] at hn'
    exact hn'.2 ▸ hp
  · intro hall m hm
    obtain ⟨dmn, hdmn, hm⟩ := List.mem_flatMap.mp hm
    obtain ⟨n, hn⟩ := (h.daemons dmn hdmn).named m hm
    exact ⟨n, dmn.procId, hall dmn hdmn, hn⟩

theorem sum_filter (l : List DaemonMembers) (gone : DaemonMembers → Bool) :
    ((l.filter fun dmn => !gone dmn).map fun dmn => (dmn.members.length : Int)).sum =
      (l.map fun dmn => (dmn.members.length : Int)).sum -
        ((l.filter gone).map fun dmn => dmn.members.length).sum := by
  induction l with
  | nil => rfl
  | cons dmn rest ih =>
      cases hgone : gone dmn with
      | true =>
          simp only [List.filter_cons, hgone, Bool.not_true, if_true, List.map_cons, List.sum_cons,
            Bool.false_eq_true, if_false]
          omega
      | false =>
          simp only [List.filter_cons, hgone, Bool.not_false, if_true, List.map_cons, List.sum_cons,
            Bool.false_eq_true, if_false]
          omega

theorem Formed.eliminate (h : g.Formed site.conf) (gone : DaemonMembers → Bool) :
    (g.eliminate gone).Formed site.conf where
  ordered := h.ordered.filter _
  daemons := fun dmn hdmn => h.daemons dmn (List.mem_filter.mp hdmn).1
  count := by
    simp only [Group.eliminate, sum_filter, h.count]

/-- The members of the daemons that are not eliminated stay. -/
theorem Formed.members_eliminate (h : g.Formed site.conf) {gone : DaemonMembers → Bool}
    (hgone : ∀ dmn ∈ g.daemons, gone dmn = true ↔ dmn.procId ∉ procIds) :
    {m | m ∈ (g.eliminate gone).members} = g.view.members ∩ site.conf.membersOf procIds := by
  ext m
  constructor
  · intro hm
    obtain ⟨dmn, hdmn, hm⟩ := List.mem_flatMap.mp hm
    obtain ⟨hdmn, hstay⟩ := List.mem_filter.mp hdmn
    obtain ⟨n, hn⟩ := (h.daemons dmn hdmn).named m hm
    have hp : dmn.procId ∈ procIds := by
      by_contra hp
      simp [(hgone dmn hdmn).mpr hp] at hstay
    exact ⟨List.mem_flatMap.mpr ⟨dmn, hdmn, hm⟩, n, dmn.procId, hp, hn⟩
  · rintro ⟨hm, n, procId, hp, hn⟩
    obtain ⟨dmn, hdmn, hm⟩ := List.mem_flatMap.mp hm
    obtain ⟨n', hn'⟩ := (h.daemons dmn hdmn).named m hm
    rw [hn, Option.some.injEq, Prod.mk.injEq] at hn'
    refine List.mem_flatMap.mpr ⟨dmn, List.mem_filter.mpr ⟨hdmn, ?_⟩, hm⟩
    have hstay : ¬ gone dmn = true := fun hg => (hgone dmn hdmn).mp hg (hn'.2 ▸ hp)
    simpa using hstay

theorem Formed.membersAt_eliminate (h : g.Formed site.conf) {gone : DaemonMembers → Bool}
    {procId : ProcId} (hstay : ∀ dmn ∈ g.daemons, dmn.procId = procId → gone dmn = false) :
    (g.eliminate gone).membersAt site procId = g.membersAt site procId := by
  have hsame : (g.eliminate gone).getDaemon site procId = g.getDaemon site procId := by
    cases hget : g.getDaemon site procId with
    | none =>
        refine (SkipList.find_eq_none (compareProcIds_total site.conf)).mpr fun dmn hdmn => ?_
        exact (SkipList.find_eq_none (compareProcIds_total site.conf)).mp hget dmn
          (List.mem_filter.mp hdmn).1
    | some dmn =>
        obtain ⟨hdmn, rfl⟩ := mem_of_getDaemon hget
        refine (h.eliminate gone).getDaemon_of_mem (List.mem_filter.mpr ⟨hdmn, ?_⟩)
        simp [hstay dmn hdmn rfl]
  rw [membersAt, membersAt, hsame]

/-- A group that has lost daemons, which the own daemon is not one of. -/
theorem Tidy.eliminate (h : g.Tidy site sessions) {gone : DaemonMembers → Bool}
    (hmy : ∀ dmn ∈ g.daemons, dmn.procId = site.my.id → gone dmn = false) :
    (g.eliminate gone).Local site sessions := by
  rw [Local, h.formed.membersAt_eliminate hmy]
  exact h.here

theorem partitionGroup_spec {d : Daemon} (h : g.Tidy site sessions) (hmarked : g.Marked present)
    (hall : ∀ dmn ∈ g.daemons, present dmn.procId)
    (hknown : d.transMembId.isUnknown = false) :
    (d.partitionGroup g).1.name = g.name ∧
    (d.partitionGroup g).1.view = g.view.cut (site.conf.membersOf d.transMemb) d.transMembId ∧
    (d.partitionGroup g).1.Tidy site sessions ∧
    (d.partitionGroup g).1.Marked (· ∈ d.transMemb) := by
  have hsub : g.view.members ⊆ site.conf.membersOf d.transMemb ↔
      ∀ dmn ∈ g.daemons, dmn.procId ∈ d.transMemb := h.formed.members_subset
  have hlost : g.daemons.any d.lost = true ↔ ¬ g.view.members ⊆ site.conf.membersOf d.transMemb := by
    rw [hsub, List.any_eq_true]
    simp [Daemon.lost]
  rw [Daemon.partitionGroup, View.cut]
  by_cases hany : g.daemons.any d.lost = true
  · rw [if_pos hany, if_neg (hlost.mp hany)]
    let f : DaemonMembers → DaemonMembers := fun dmn =>
      if d.lost dmn then { dmn with membId := unknownMembId } else { dmn with membId := d.transMembId }
    have hdaemons : ∀ dmn ∈ g.daemons,
        (if (if d.lost dmn then { dmn with membId := unknownMembId } else dmn).isPartitioned = true
          then (if d.lost dmn then { dmn with membId := unknownMembId } else dmn)
          else { (if d.lost dmn then { dmn with membId := unknownMembId } else dmn) with
            membId := d.transMembId }) = f dmn := by
      intro dmn hdmn
      have hunknown : g.grpId.membId.isUnknown = false := hmarked.known
      by_cases hl : d.lost dmn = true
      · simp [f, hl, DaemonMembers.isPartitioned, unknownMembId_isUnknown]
      · simp [f, hl, DaemonMembers.isPartitioned, hmarked.here dmn hdmn (hall dmn hdmn), hunknown]
    let g' : Group :=
      { g with
        daemons := g.daemons.map f
        grpId := { membId := d.transMembId, index := 1 }
        changed := true }
    have hrecast : Recast g g' f := by
      refine ⟨rfl, rfl, rfl, rfl, fun dmn => ?_, fun dmn => ?_⟩
      · by_cases hl : d.lost dmn = true
        · simp [f, hl]
        · simp [f, hl]
      · by_cases hl : d.lost dmn = true
        · simp [f, hl]
        · simp [f, hl]
    have hg' : Group.updateDaemonMembIds
        { g with
          daemons := g.daemons.map fun dmn =>
            if d.lost dmn then { dmn with membId := unknownMembId } else dmn
          grpId := { membId := d.transMembId, index := 1 }
          changed := true } = g' := by
      simp only [updateDaemonMembIds, List.map_map, g']
      congr 1
      exact List.map_congr_left hdaemons
    simp only [hg']
    refine ⟨rfl, View.ext hrecast.members_eq rfl (eq_true rfl), hrecast.tidy h, hknown, ?_, ?_, ?_⟩
    · intro y hy hp
      obtain ⟨dmn, -, rfl⟩ := List.mem_map.mp hy
      have hl : d.lost dmn = false := by
        rw [hrecast.procId] at hp
        simpa [Daemon.lost] using hp
      simp [f, hl, g']
    · intro y hy hp
      obtain ⟨dmn, -, rfl⟩ := List.mem_map.mp hy
      have hl : d.lost dmn = true := by
        rw [hrecast.procId] at hp
        simpa [Daemon.lost] using hp
      simp [f, hl]
    · exact fun _ _ _ => rfl
  · rw [if_neg hany, if_pos (not_not.mp (mt hlost.mpr hany))]
    have hin := hsub.mp (not_not.mp (mt hlost.mpr hany))
    exact ⟨rfl, rfl, h, hmarked.known, fun dmn hdmn _ => hmarked.here dmn hdmn (hall dmn hdmn),
      fun dmn hdmn hp => absurd (hin dmn hdmn) hp, fun dmn hdmn hp => absurd (hin dmn hdmn) hp⟩

/-- What a group has become when the daemons that were lost are eliminated. -/
structure Stayed (site : Site) (sessions : List Session) (g : Group) (procIds : List ProcId)
    (g' : Group) : Prop where
  name : g'.name = g.name
  grpId : g'.grpId = g.grpId
  changed : g'.changed = g.changed
  formed : g'.Formed site.conf
  here : g'.Local site sessions
  members : {m | m ∈ g'.members} = g.view.members ∩ site.conf.membersOf procIds
  daemons : ∀ dmn ∈ g'.daemons, dmn ∈ g.daemons ∧ dmn.procId ∈ procIds

theorem Tidy.stayed (h : g.Tidy site sessions) {gone : DaemonMembers → Bool}
    (hgone : ∀ dmn ∈ g.daemons, gone dmn = true ↔ dmn.procId ∉ procIds)
    (hmy : site.my.id ∈ procIds) : Stayed site sessions g procIds (g.eliminate gone) where
  name := rfl
  grpId := rfl
  changed := rfl
  formed := h.formed.eliminate gone
  here := h.eliminate fun dmn hdmn heq => by
    rw [Bool.eq_false_iff]
    exact fun hg => (hgone dmn hdmn).mp hg (heq ▸ hmy)
  members := h.formed.members_eliminate hgone
  daemons := by
    intro dmn hdmn
    obtain ⟨hdmn, hstay⟩ := List.mem_filter.mp hdmn
    refine ⟨hdmn, ?_⟩
    by_contra hp
    simp [(hgone dmn hdmn).mpr hp] at hstay

theorem Stayed.empty {g' : Group} (h : Stayed site sessions g procIds g')
    (hzero : g'.numMembers = 0) :
    removeGroup g' = .ok none ∧ g.view.stay (site.conf.membersOf procIds) = none := by
  have hnil := h.formed.daemons_eq_nil hzero
  have hnone : g'.mboxes = [] := by
    have hat : g'.membersAt site site.my.id = [] := by
      simp [membersAt, Group.getDaemon, hnil, SkipList.find]
    have hlocal := h.here
    rw [Local, hat] at hlocal
    simpa using hlocal.eq_nil
  refine ⟨by rw [removeGroup, if_neg (by simp [hnil, hnone])], if_pos ?_⟩
  rw [← h.members]
  ext y
  simp [Group.members, hnil]

theorem Formed.members_ne_empty (h : g.Formed site.conf) (hne : g.daemons ≠ []) :
    {m | m ∈ g.members} ≠ ∅ := by
  obtain ⟨dmn, rest, hcons⟩ := List.exists_cons_of_ne_nil hne
  have hdmn : dmn ∈ g.daemons := hcons ▸ List.mem_cons_self
  obtain ⟨y, hy⟩ := List.exists_mem_of_ne_nil _ (h.daemons dmn hdmn).nonempty
  exact Set.nonempty_iff_ne_empty.mp ⟨y, List.mem_flatMap.mpr ⟨dmn, hdmn, hy⟩⟩

theorem Stayed.nonempty {g' : Group} (h : Stayed site sessions g procIds g')
    (hpos : g'.numMembers ≠ 0) :
    g'.daemons ≠ [] ∧
      g.view.stay (site.conf.membersOf procIds) =
        some { g.view with members := {m | m ∈ g'.members} } := by
  have hne : g'.daemons ≠ [] := fun hnil => hpos (by rw [h.formed.count, hnil]; rfl)
  refine ⟨hne, ?_⟩
  have hsome := h.formed.members_ne_empty hne
  rw [h.members] at hsome ⊢
  exact if_neg hsome

/-- Where nobody was lost a group stays as it is. -/
theorem Tidy.stay_eq (h : g.Tidy site sessions)
    (hall : ∀ dmn ∈ g.daemons, dmn.procId ∈ procIds) :
    g.view.stay (site.conf.membersOf procIds) = some g.view := by
  have hsub := h.formed.members_subset.mpr hall
  have hinter : g.view.members ∩ site.conf.membersOf procIds = g.view.members :=
    Set.inter_eq_left.mpr hsub
  have hne : g.view.members ≠ ∅ := h.formed.members_ne_empty h.nonempty
  rw [View.stay, hinter, if_neg hne]

theorem recast_settle (g : Group) (membId : MembershipId) :
    Recast g (g.settle membId).updateDaemonMembIds fun dmn =>
      if dmn.isPartitioned then dmn else { dmn with membId } := by
  refine ⟨rfl, rfl, rfl, rfl, fun dmn => ?_, fun dmn => ?_⟩
  · by_cases hp : dmn.isPartitioned = true
    · simp [hp]
    · simp [hp]
  · by_cases hp : dmn.isPartitioned = true
    · simp [hp]
    · simp [hp]

theorem subtractGroup_returns {d : Daemon} (h : g.Tidy site d.sessions)
    (hmarked : g.Marked (· ∈ d.transMemb)) (hmy : site.my.id ∈ d.transMemb)
    (hknown : d.regMembId.isUnknown = false) :
    Returns (d.subtractGroup site g) fun r =>
      r.1.map Group.view =
        (g.view.stay (site.conf.membersOf d.transMemb)).map (View.settle d.regMembId) ∧
      ∀ g' ∈ r.1, g'.name = g.name ∧ g'.Tidy site d.sessions ∧ g'.Marked (fun _ => True) ∧
        ∀ dmn ∈ g'.daemons, dmn.procId ∈ d.transMemb := by
  have hgone : ∀ dmn ∈ g.daemons, dmn.isPartitioned = true ↔ dmn.procId ∉ d.transMemb :=
    fun dmn hdmn => hmarked.isPartitioned hdmn
  rw [Daemon.subtractGroup]
  split
  · rename_i hsame
    have hunchanged : g.changed = false := by simpa using hsame
    have hall : ∀ dmn ∈ g.daemons, dmn.procId ∈ d.transMemb := fun dmn hdmn => by
      by_contra hp
      rw [hmarked.changed dmn hdmn hp] at hunchanged
      cases hunchanged
    refine .ok ⟨?_, ?_⟩
    · rw [h.stay_eq hall, Option.map_some, Option.map_some, View.settle,
        if_neg (by simp [view, hunchanged])]
    · rintro _ ⟨⟩
      exact ⟨rfl, h, ⟨hmarked.known, fun dmn hdmn _ => hmarked.here dmn hdmn (hall dmn hdmn),
        fun dmn _ hp => absurd trivial hp, fun dmn _ hp => absurd trivial hp⟩, hall⟩
  rename_i hchanged
  have hchanged : g.changed = true := by simpa using hchanged
  have hstayed := h.stayed hgone hmy
  generalize g.eliminate DaemonMembers.isPartitioned = g' at hstayed
  simp only
  split
  · rename_i hzero
    obtain ⟨hremove, hnone⟩ := hstayed.empty hzero
    rw [hremove, hnone]
    exact .ok ⟨rfl, by simp⟩
  rename_i hpos
  obtain ⟨hne, hsome⟩ := hstayed.nonempty hpos
  have hrecast := recast_settle g' d.regMembId
  have htidy := hrecast.tidy ⟨hstayed.formed, hne, hstayed.here⟩
  have hdone : ∀ notices : List (Str × Notice),
      Returns (.ok (some (g'.settle d.regMembId).updateDaemonMembIds, notices) :
        Except Exit (Option Group × List (Str × Notice))) fun r =>
      r.1.map Group.view =
        (g.view.stay (site.conf.membersOf d.transMemb)).map (View.settle d.regMembId) ∧
      ∀ g' ∈ r.1, g'.name = g.name ∧ g'.Tidy site d.sessions ∧ g'.Marked (fun _ => True) ∧
        ∀ dmn ∈ g'.daemons, dmn.procId ∈ d.transMemb := by
    refine fun notices => .ok ⟨?_, ?_⟩
    · rw [hsome, Option.map_some, Option.map_some, View.settle, if_pos (by simp [view, hchanged])]
      refine congrArg some (View.ext hrecast.members_eq rfl ?_)
      simp [view, updateDaemonMembIds, Group.settle]
    · rintro _ ⟨⟩
      refine ⟨hstayed.name, htidy, ⟨hknown, ?_, ?_, ?_⟩, ?_⟩
      · intro y hy _
        obtain ⟨dmn, hdmn, rfl⟩ := List.mem_map.mp hy
        obtain ⟨hdmn, hp⟩ := hstayed.daemons dmn hdmn
        have hpart : ¬ dmn.isPartitioned = true := fun hpart => (hgone dmn hdmn).mp hpart hp
        rw [if_neg hpart]
        rfl
      · exact fun _ _ hp => absurd trivial hp
      · exact fun _ _ hp => absurd trivial hp
      · intro y hy
        rw [hrecast.daemons] at hy
        obtain ⟨dmn, hdmn, rfl⟩ := List.mem_map.mp hy
        rw [hrecast.procId]
        exact (hstayed.daemons dmn hdmn).2
  split
  · exact hdone []
  · refine (htidy.formed.sendHeavyweightJoin_returns (fun j hj => absurd hj (by simp)) none).bind
      fun notices _ => hdone notices

end Group

namespace Daemon

variable {site : Site} {d : Daemon}

theorem partitionGroup_name (g : Group) : (d.partitionGroup g).1.name = g.name := by
  rw [partitionGroup]
  split
  · rfl
  · rfl

/-- In `GOP` the transitional membership cuts the groups. -/
theorem handleTransMemb_returns (h : d.Operating site) (hstate : d.gstate = .gop)
    (transMemb : List ProcId) {transMembId : MembershipId}
    (hknown : transMembId.isUnknown = false) :
    Returns (handleTransMemb d transMemb transMembId) fun o =>
      o.daemon.Operating site ∧
      o.daemon = { d with
        transMemb
        transMembId
        groups := o.daemon.groups
        gstate := .gtrans
        mySyncedSet := d.mySyncedSet.filter fun procId => procId ∈ transMemb } ∧
      o.daemon.table = d.table.map (View.cut (site.conf.membersOf transMemb) transMembId) ∧
      o.sent = [] := by
  have hspec : ∀ g ∈ d.groups, _ := fun g hg =>
    Group.partitionGroup_spec (d := { d with transMemb, transMembId }) (h.tidy.groups g hg)
      (h.marked g hg) (fun _ _ => Or.inl hstate) hknown
  rw [handleTransMemb, hstate]
  have hordered : SkipList.Ordered strncmp Group.name
      ((d.groups.map
        (partitionGroup { d with transMemb, transMembId, gstate := .gop })).map Prod.fst) := by
    rw [List.map_map]
    exact h.tidy.ordered.map fun g => partitionGroup_name g
  refine .ok ⟨⟨.inr rfl, ⟨?_, ?_⟩, ?_, ?_⟩, ?_, ?_, rfl⟩
  · exact hordered
  · intro g' hg'
    simp only [updateSyncedSet, List.map_map, List.mem_map, Function.comp] at hg'
    obtain ⟨g, hg, rfl⟩ := hg'
    exact (hspec g hg).2.2.1
  · simpa [current, updateSyncedSet] using hknown
  · intro g' hg'
    simp only [updateSyncedSet, List.map_map, List.mem_map, Function.comp] at hg'
    obtain ⟨g, hg, rfl⟩ := hg'
    have hmarked := (hspec g hg).2.2.2
    have hpresent : (fun procId => procId ∈ transMemb) = present
        (updateSyncedSet { d with
          transMemb
          transMembId
          groups := (d.groups.map (partitionGroup { d with transMemb, transMembId })).map Prod.fst
          gstate := .gtrans }) := by
      funext procId
      simp [present, updateSyncedSet]
    exact hpresent ▸ hmarked
  · rfl
  · funext n
    have hfind : SkipList.find strncmp Group.name n
        (d.groups.map fun g => (partitionGroup { d with transMemb, transMembId } g).1) =
        (SkipList.find strncmp Group.name n d.groups).map fun g =>
          (partitionGroup { d with transMemb, transMembId } g).1 :=
      SkipList.find_map (fun g => partitionGroup_name g) n
    simp only [table, tableOf, updateSyncedSet, List.map_map, Table.map]
    refine (congrArg (Option.map Group.view) hfind).trans ?_
    rw [Option.map_map, Option.map_map]
    cases hget : SkipList.find strncmp Group.name n d.groups with
    | none => rfl
    | some g =>
        exact congrArg some (hspec g (SkipList.mem_of_find strncmp_total hget).1).2.1

/-- In `GTRANS` a regular membership without other daemons drops the members that were cut. -/
theorem handleRegMemb_returns (h : d.Operating site) (hstate : d.gstate = .gtrans)
    (hmy : site.my.id ∈ d.transMemb) {regMemb : List ProcId}
    (hlen : d.transMemb.length = regMemb.length) {regMembId : MembershipId}
    (hknown : regMembId.isUnknown = false) :
    Returns (handleRegMemb site d regMemb regMembId) fun o =>
      o.daemon.Operating site ∧
      o.daemon = { d with regMemb, regMembId, groups := o.daemon.groups, gstate := .gop } ∧
      o.daemon.table = d.table.bind (fun v =>
        (v.stay (site.conf.membersOf d.transMemb)).map (View.settle regMembId)) ∧
      o.sent = [] := by
  have hpresent : d.present = (· ∈ d.transMemb) := by
    funext procId
    simp [present, hstate]
  rw [handleRegMemb, hstate]
  simp only [hlen, if_true]
  have hover := overGroups_returns (f := subtractGroup site { d with regMemb, regMembId })
    (Q := fun g => g.Tidy site d.sessions ∧ g.Marked fun _ => True)
    (k := fun v => (v.stay (site.conf.membersOf d.transMemb)).map (View.settle regMembId))
    h.tidy.ordered fun g hg =>
      (Group.subtractGroup_returns (d := { d with regMemb, regMembId }) (h.tidy.groups g hg)
        (hpresent ▸ h.marked g hg) hmy hknown).mono fun r hr =>
        ⟨hr.1, fun g' hg' => ⟨(hr.2 g' hg').1, (hr.2 g' hg').2.1, (hr.2 g' hg').2.2.1⟩⟩
  refine hover.bind fun r hr => .pure ?_
  obtain ⟨hordered, hkept, htable⟩ := hr
  refine ⟨⟨.inl rfl, ⟨hordered, fun g hg => (hkept g hg).1⟩, ?_, fun g hg => ?_⟩, ?_, htable, rfl⟩
  · simpa [current] using hknown
  · have hmarked := (hkept g hg).2
    exact ⟨hmarked.known, fun dmn hdmn _ => hmarked.here dmn hdmn trivial,
      fun dmn _ hp => absurd (Or.inl rfl) hp, fun dmn _ hp => absurd (Or.inl rfl) hp⟩
  · rfl

end Daemon

end Netbroker.Groups
