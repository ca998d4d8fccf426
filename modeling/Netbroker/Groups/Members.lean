import Netbroker.Groups.Handlers
import Netbroker.Transition.Returns

/-!
# What holds of a group

The daemons of a group and the members of each stand in their orders, none of them is empty,
each member names its daemon, and the number of the members is right. The mailboxes are those
of the members that are local.

`Formed` is about the lists of a group, `Local` about its mailboxes, and `Tidy` is both. A
member that leaves keeps them, and as long as they hold a notice of the group can be built:
the daemons are found in their sets and none is missed.
-/

namespace Netbroker.Groups

open Spread Transition

/-- The session and the daemon that a private group names. -/
def Conf.member (conf : Conf) (m : Str) : Option (Str × ProcId) := do
  let (name, procName) ← privateToNames m
  let p ← conf.procByName procName
  pure (name, p.id)

theorem Conf.member_eq_some {conf : Conf} {m n : Str} {procId : ProcId} :
    conf.member m = some (n, procId) ↔
      ∃ procName p, privateToNames m = some (n, procName) ∧ conf.procByName procName = some p ∧
        p.id = procId := by
  constructor
  · intro h
    simp only [member, Option.bind_eq_bind, Option.bind_eq_some_iff, Option.pure_def] at h
    obtain ⟨⟨name, procName⟩, hnames, p, hp, heq⟩ := h
    simp only [Option.some.injEq, Prod.mk.injEq] at heq
    exact ⟨procName, p, heq.1 ▸ hnames, hp, heq.2⟩
  · rintro ⟨procName, p, hnames, hp, rfl⟩
    simp [member, hnames, hp]

/-- The mailbox of the session that a private group names. -/
def mailboxOf (sessions : List Session) (m : Str) : Option Mailbox := do
  let (name, _) ← privateToNames m
  let s ← getSession sessions name
  pure s.mbox

structure DaemonMembers.Tidy (conf : Conf) (dmn : DaemonMembers) : Prop where
  ordered : SkipList.Ordered strncmp id dmn.members
  nonempty : dmn.members ≠ []
  named : ∀ m ∈ dmn.members, ∃ n, conf.member m = some (n, dmn.procId)

/-- The daemons of a group, which may have none yet. -/
structure Group.Formed (conf : Conf) (g : Group) : Prop where
  ordered : SkipList.Ordered (compareProcIds conf) DaemonMembers.procId g.daemons
  daemons : ∀ dmn ∈ g.daemons, dmn.Tidy conf
  count : g.numMembers = (g.daemons.map fun dmn => (dmn.members.length : Int)).sum

/-- The members at a daemon. -/
def Group.membersAt (site : Site) (g : Group) (procId : ProcId) : List Str :=
  ((g.getDaemon site procId).map DaemonMembers.members).getD []

/-- The mailboxes are those of the local members. -/
def Group.Local (site : Site) (sessions : List Session) (g : Group) : Prop :=
  (g.mboxes.map some).Perm ((g.membersAt site site.my.id).map (mailboxOf sessions))

structure Group.Tidy (site : Site) (sessions : List Session) (g : Group) : Prop where
  formed : g.Formed site.conf
  nonempty : g.daemons ≠ []
  here : g.Local site sessions

theorem DaemonMembers.mem_of_getMember {dmn : DaemonMembers} {m : Str} :
    (dmn.getMember m).isSome = true ↔ m ∈ dmn.members := by
  rw [getMember, SkipList.find, List.find?_isSome]
  constructor
  · rintro ⟨y, hy, heq⟩
    have hym : y = m := (strncmp_total.eq_iff _ _).mp (by simpa using heq)
    exact hym ▸ hy
  · intro hm
    exact ⟨m, hm, by simpa using (strncmp_total.eq_iff m m).mpr rfl⟩

namespace Group

variable {site : Site} {sessions : List Session} {g : Group} {dmn : DaemonMembers}
  {procId : ProcId} {m : Str}

theorem mem_of_getDaemon (hget : g.getDaemon site procId = some dmn) :
    dmn ∈ g.daemons ∧ dmn.procId = procId :=
  SkipList.mem_of_find (compareProcIds_total site.conf) hget

theorem Formed.getDaemon_of_mem (h : g.Formed site.conf) (hdmn : dmn ∈ g.daemons) :
    g.getDaemon site dmn.procId = some dmn :=
  h.ordered.find_of_mem (compareProcIds_total site.conf) hdmn

theorem membersAt_of_getDaemon (hget : g.getDaemon site procId = some dmn) :
    g.membersAt site procId = dmn.members := by rw [membersAt, hget, Option.map_some, Option.getD_some]

theorem membersAt_of_none (hget : g.getDaemon site procId = none) :
    g.membersAt site procId = [] := by rw [membersAt, hget, Option.map_none, Option.getD_none]

/-- The members of a group are those at its daemons. -/
theorem Formed.mem_members (h : g.Formed site.conf) :
    m ∈ g.members ↔ ∃ procId, m ∈ g.membersAt site procId := by
  rw [members, List.mem_flatMap]
  constructor
  · rintro ⟨dmn, hdmn, hm⟩
    exact ⟨dmn.procId, by rwa [membersAt_of_getDaemon (h.getDaemon_of_mem hdmn)]⟩
  · rintro ⟨procId, hm⟩
    cases hget : g.getDaemon site procId with
    | none => simp [membersAt_of_none hget] at hm
    | some dmn => exact ⟨dmn, (mem_of_getDaemon hget).1, by rwa [membersAt_of_getDaemon hget] at hm⟩

theorem Formed.named (h : g.Formed site.conf) (hm : m ∈ g.membersAt site procId) :
    ∃ n, site.conf.member m = some (n, procId) := by
  cases hget : g.getDaemon site procId with
  | none => simp [membersAt_of_none hget] at hm
  | some dmn =>
      obtain ⟨hdmn, rfl⟩ := mem_of_getDaemon hget
      rw [membersAt_of_getDaemon hget] at hm
      exact (h.daemons dmn hdmn).named m hm

theorem Formed.ordered_membersAt (h : g.Formed site.conf) (procId : ProcId) :
    SkipList.Ordered strncmp id (g.membersAt site procId) := by
  cases hget : g.getDaemon site procId with
  | none =>
      rw [membersAt_of_none hget]
      exact .nil
  | some dmn =>
      rw [membersAt_of_getDaemon hget]
      exact (h.daemons dmn (mem_of_getDaemon hget).1).ordered

/-- A member stands at the daemon that it names. -/
theorem Formed.mem_members_iff (h : g.Formed site.conf) {n : Str}
    (hm : site.conf.member m = some (n, procId)) :
    m ∈ g.members ↔ m ∈ g.membersAt site procId := by
  rw [h.mem_members]
  constructor
  · rintro ⟨procId', hm'⟩
    obtain ⟨n', hn'⟩ := h.named hm'
    rw [hm, Option.some.injEq, Prod.mk.injEq] at hn'
    rwa [hn'.2]
  · exact fun hm' => ⟨procId, hm'⟩

theorem getDaemon_putDaemon (procId : ProcId) :
    (g.putDaemon site dmn).getDaemon site procId =
      if dmn.procId = procId then some dmn else g.getDaemon site procId := by
  split
  · rename_i heq
    rw [← heq]
    exact SkipList.find_put_self (compareProcIds_total site.conf)
  · rename_i hne
    exact SkipList.find_put_of_ne (compareProcIds_total site.conf) hne

theorem membersAt_putDaemon (procId : ProcId) :
    (g.putDaemon site dmn).membersAt site procId =
      if dmn.procId = procId then dmn.members else g.membersAt site procId := by
  rw [membersAt, getDaemon_putDaemon]
  split
  · rfl
  · rfl

theorem getDaemon_removeDaemon (procId : ProcId) :
    (g.removeDaemon site dmn).getDaemon site procId =
      if dmn.procId = procId then none else g.getDaemon site procId := by
  split
  · rename_i heq
    rw [← heq]
    exact SkipList.find_erase_self (compareProcIds_total site.conf)
  · rename_i hne
    exact SkipList.find_erase_of_ne (compareProcIds_total site.conf) (Ne.symm hne)

theorem sizeAt_eq (procId : ProcId) :
    (((g.getDaemon site procId).map fun dmn => (dmn.members.length : Int)).getD 0) =
      (g.membersAt site procId).length := by
  rw [membersAt]
  cases g.getDaemon site procId with
  | none => rfl
  | some dmn => rfl

/-- A daemon is put into a group in place of the one that is found. -/
theorem Formed.put (h : g.Formed site.conf) (hdmn : dmn.Tidy site.conf) {n : Int}
    (hn : n + (g.membersAt site dmn.procId).length = g.numMembers + dmn.members.length) :
    ({ g.putDaemon site dmn with numMembers := n } : Group).Formed site.conf where
  ordered := h.ordered.put (compareProcIds_total site.conf)
  daemons := by
    intro y hy
    rcases SkipList.mem_put hy with rfl | hy
    · exact hdmn
    · exact h.daemons y hy
  count := by
    have hsum := h.ordered.sum_put (compareProcIds_total site.conf) (x := dmn)
      fun dmn => (dmn.members.length : Int)
    have hcount := h.count
    rw [← sizeAt_eq] at hn
    simp only [putDaemon, Group.getDaemon] at hn ⊢
    omega

/-- A daemon is erased from a group. -/
theorem Formed.erase (h : g.Formed site.conf) {n : Int}
    (hn : n + (g.membersAt site procId).length = g.numMembers) :
    ({ g with
        daemons := SkipList.erase (compareProcIds site.conf) DaemonMembers.procId procId g.daemons
        numMembers := n } : Group).Formed site.conf where
  ordered := h.ordered.erase
  daemons := fun y hy => h.daemons y (List.mem_filter.mp hy).1
  count := by
    have hsum := h.ordered.sum_erase (compareProcIds_total site.conf) (k := procId)
      fun dmn => (dmn.members.length : Int)
    have hcount := h.count
    rw [← sizeAt_eq] at hn
    simp only [Group.getDaemon] at hn ⊢
    omega

/-- A group that counts no members has no daemons. -/
theorem Formed.daemons_eq_nil (h : g.Formed site.conf) (hn : g.numMembers = 0) :
    g.daemons = [] := by
  cases hg : g.daemons with
  | nil => rfl
  | cons dmn rest =>
      have hdmn : dmn ∈ g.daemons := hg ▸ List.mem_cons_self
      have hpos := List.length_pos_iff.mpr (h.daemons dmn hdmn).nonempty
      have hcount := h.count
      rw [hg, List.map_cons, List.sum_cons] at hcount
      have hrest : 0 ≤ (rest.map fun dmn => (dmn.members.length : Int)).sum := by
        refine List.sum_nonneg fun x hx => ?_
        obtain ⟨y, -, rfl⟩ := List.mem_map.mp hx
        exact Int.natCast_nonneg _
      omega

/-- The members at the daemon of the one that leaves. -/
theorem membersAt_removeMember (hget : g.getDaemon site procId = some dmn) (procId' : ProcId) :
    (g.removeMember site dmn m).membersAt site procId' =
      if procId = procId' then SkipList.erase strncmp id m dmn.members
      else g.membersAt site procId' := by
  obtain ⟨-, rfl⟩ := mem_of_getDaemon hget
  have hput : ∀ n : Int, Group.membersAt site
      { g.putDaemon site { dmn with members := SkipList.erase strncmp id m dmn.members } with
        numMembers := n } procId' =
      if dmn.procId = procId' then SkipList.erase strncmp id m dmn.members
      else g.membersAt site procId' := fun n => membersAt_putDaemon procId'
  rw [removeMember]
  split
  · rename_i hempty
    rw [membersAt, getDaemon_removeDaemon]
    split
    · exact hempty.symm
    · rename_i hne
      rw [← membersAt, hput, if_neg hne]
  · exact hput _

theorem Formed.removeMember (h : g.Formed site.conf) (hget : g.getDaemon site procId = some dmn)
    (hm : m ∈ dmn.members) : (g.removeMember site dmn m).Formed site.conf := by
  obtain ⟨hdmn, rfl⟩ := mem_of_getDaemon hget
  have htidy := h.daemons dmn hdmn
  have hlen : (SkipList.erase strncmp id m dmn.members).length + 1 = dmn.members.length := by
    have hfind : SkipList.find strncmp id m dmn.members = some m :=
      htidy.ordered.find_of_mem strncmp_total hm
    simpa using (htidy.ordered.perm_erase strncmp_total hfind).length_eq
  have hat := membersAt_of_getDaemon hget
  rw [Group.removeMember]
  split
  · rename_i hempty
    simp only at hempty
    rw [hempty] at hlen
    simp only [hempty, removeDaemon, putDaemon]
    have hcount : g.numMembers - 1 + ((g.membersAt site dmn.procId).length : Int) =
        g.numMembers := by
      rw [hat, ← hlen]
      simp
    have herase := h.erase hcount
    have hsame : SkipList.erase (compareProcIds site.conf) DaemonMembers.procId dmn.procId
        (SkipList.put (compareProcIds site.conf) DaemonMembers.procId
          { dmn with members := [] } g.daemons) =
        SkipList.erase (compareProcIds site.conf) DaemonMembers.procId dmn.procId g.daemons :=
      @SkipList.erase_put _ _ _ DaemonMembers.procId (compareProcIds_total site.conf) g.daemons
        { dmn with members := [] }
    rw [hsame]
    simpa using herase
  · rename_i hne
    refine h.put ⟨htidy.ordered.erase, hne, fun y hy => ?_⟩ ?_
    · exact htidy.named y (List.mem_filter.mp hy).1
    · rw [hat]
      simp only
      omega

theorem Formed.nodup (h : g.Formed site.conf) : (g.daemons.map DaemonMembers.procId).Nodup := by
  rw [List.Nodup, List.pairwise_map]
  exact h.ordered.imp fun hab => (compareProcIds_total site.conf).ne_of_neg hab

theorem compareDaemonVsSet_ne {a b : DaemonMembers} (hne : a.procId ≠ b.procId) :
    compareDaemonVsSet site.conf a b ≠ 0 := by
  rw [compareDaemonVsSet]
  split
  · exact fun heq => hne (((compareProcIds_total site.conf).eq_iff _ _).mp heq)
  · assumption

/-- In the order of the sets no daemon is lost. -/
theorem Formed.bySet_perm (h : g.Formed site.conf) : (g.bySet site).Perm g.daemons := by
  have hfold : ∀ l acc : List DaemonMembers, ((acc ++ l).map DaemonMembers.procId).Nodup →
      (l.foldl (fun l dmn => SkipList.put (compareDaemonVsSet site.conf) id dmn l) acc).Perm
        (acc ++ l) := by
    intro l
    induction l with
    | nil =>
        intro acc _
        rw [List.append_nil, List.foldl_nil]
    | cons dmn rest ih =>
        intro acc hacc
        have hmid : (acc ++ dmn :: rest).Perm ((dmn :: acc) ++ rest) := List.perm_middle
        have hnodup := (hmid.map DaemonMembers.procId).nodup_iff.mp hacc
        have hput : (SkipList.put (compareDaemonVsSet site.conf) id dmn acc).Perm (dmn :: acc) := by
          refine SkipList.perm_put fun y hy => compareDaemonVsSet_ne fun heq => ?_
          rw [List.map_append, List.map_cons, List.cons_append, List.nodup_cons] at hnodup
          exact hnodup.1 (List.mem_append_left _ (List.mem_map.mpr ⟨y, hy, heq.symm⟩))
        have hstep := hput.append_right rest
        rw [List.foldl_cons]
        exact (ih _ ((hstep.map _).nodup_iff.mpr hnodup)).trans (hstep.trans hmid.symm)
  exact hfold g.daemons [] h.nodup

/-- The sets are built: each daemon is met once. -/
theorem addDaemon_returns (joiner : Option Str) (l : List DaemonMembers) (b : VsSets)
    (hnodup : (l.map DaemonMembers.procId).Nodup)
    (hoffset : b.offset ≠ 0 → site.my.id ∉ l.map DaemonMembers.procId) :
    Returns (l.foldlM (VsSets.addDaemon site g joiner) b) fun b' =>
      b'.foundJoiner = (b.foundJoiner || l.any fun dmn => joiner.any fun j => dmn.members.contains j) := by
  induction l generalizing b with
  | nil => exact .pure (by simp)
  | cons dmn rest ih =>
      rw [List.map_cons, List.nodup_cons] at hnodup
      have honce : ¬ (dmn.procId = site.my.id ∧ b.offset ≠ 0) := fun hmet =>
        hoffset hmet.2 (hmet.1 ▸ List.mem_cons_self)
      simp only [List.foldlM_cons, VsSets.addDaemon, if_neg honce]
      refine (ih _ hnodup.2 fun hne => ?_).mono fun b' hb' => ?_
      · simp only at hne
        split at hne
        · rename_i heq
          rw [← heq]
          exact hnodup.1
        · exact fun hmem => hoffset hne (List.mem_cons_of_mem _ hmem)
      · rw [hb', List.any_cons, Bool.or_assoc]

/-- The membership that a group is told, which lists its members. -/
theorem Formed.buildMembVs_returns (h : g.Formed site.conf) {joiner : Option Str}
    (hjoiner : ∀ j ∈ joiner, j ∈ g.members) :
    Returns (g.buildMembVs site joiner) fun msg =>
      ∃ vsSets offset, msg = g.buildMemb .network vsSets offset := by
  have hperm := h.bySet_perm
  rw [buildMembVs]
  refine (addDaemon_returns joiner (g.bySet site) _ ((hperm.map _).nodup_iff.mpr h.nodup)
    fun hne => absurd rfl hne).bind fun b hb => ?_
  cases joiner with
  | none => exact .pure ⟨b.sets, b.offset, rfl⟩
  | some j =>
      obtain ⟨dmn, hdmn, hj⟩ := List.mem_flatMap.mp (hjoiner j rfl)
      have hfound : b.foundJoiner = true := by
        rw [hb, List.any_eq_true.mpr ⟨dmn, hperm.mem_iff.mpr hdmn, by simpa using hj⟩]
        rfl
      simp only [hfound, if_true]
      exact .pure ⟨b.sets ++ [[j]], b.offset, rfl⟩

theorem Formed.sendHeavyweightJoin_returns (h : g.Formed site.conf) {joiner : Option Str}
    (hjoiner : ∀ j ∈ joiner, j ∈ g.members) (newMbox : Option Mailbox) :
    Returns (sendHeavyweightJoin site sessions g joiner newMbox) fun _ => True := by
  rw [sendHeavyweightJoin]
  exact (h.buildMembVs_returns hjoiner).bind fun msg _ => .pure trivial

theorem tell_returns {heavy : Except Exit (List (Str × Notice))} {light : List (Str × Notice)}
    (h : Returns heavy fun _ => True) : Returns (g.tell sessions heavy light) fun _ => True := by
  rw [tell]
  split
  · exact .ok trivial
  · split
    · exact h.map fun _ _ => trivial
    · exact .ok trivial

theorem removeMailbox_returns {mbox : Mailbox} (hmbox : mbox ∈ g.mboxes) :
    Returns (removeMailbox g mbox) fun g' =>
      ∃ mboxes, g' = { g with mboxes } ∧ (mbox :: mboxes).Perm g.mboxes := by
  rw [removeMailbox]
  split
  · rename_i hnone
    rw [List.findIdx?_eq_none_iff] at hnone
    exact absurd (hnone mbox hmbox) (by simp)
  · rename_i i hi
    obtain ⟨hlt, hmi, -⟩ := List.findIdx?_eq_some_iff_getElem.mp hi
    refine .ok ⟨_, rfl, ?_⟩
    obtain ⟨init, last, hsplit⟩ : ∃ init last, g.mboxes = init ++ [last] :=
      ⟨_, _, (List.dropLast_append_getLast (List.ne_nil_of_mem hmbox)).symm⟩
    simp only [decide_eq_true_eq] at hmi
    have hlast : g.mboxes.getLastD 0 = last := by simp [hsplit]
    rw [hlast]
    have hlen : i < init.length ∨ i = init.length := by
      rw [hsplit, List.length_append, List.length_singleton] at hlt
      omega
    rcases hlen with hlt' | rfl
    · have hset : (g.mboxes.set i last).dropLast = init.set i last := by
        rw [hsplit, List.set_append_left _ _ hlt', List.dropLast_concat]
      have hget : init[i] = mbox := by
        rw [← hmi]
        simp only [hsplit]
        rw [List.getElem_append_left hlt']
      rw [hset, hsplit, List.set_eq_take_append_cons_drop, if_pos hlt']
      have hinit : init.take i ++ mbox :: init.drop (i + 1) = init := by
        rw [← hget, List.getElem_cons_drop, List.take_append_drop]
      have hleft : (mbox :: (init.take i ++ last :: init.drop (i + 1))).Perm
          (mbox :: last :: (init.take i ++ init.drop (i + 1))) := List.perm_middle.cons _
      have hright : init.Perm (mbox :: (init.take i ++ init.drop (i + 1))) := by
        conv_lhs => rw [← hinit]
        exact List.perm_middle
      have hend : (init ++ [last]).Perm (last :: mbox :: (init.take i ++ init.drop (i + 1))) :=
        (List.perm_append_singleton last init).trans (hright.cons last)
      exact (hleft.trans (List.Perm.swap ..)).trans hend.symm
    · have hset : (g.mboxes.set init.length last).dropLast = init := by
        simp [hsplit]
      have hget : last = mbox := by
        rw [← hmi]
        simp [hsplit]
      rw [hset, hsplit, hget]
      exact (List.perm_append_singleton mbox init).symm

end Group

end Netbroker.Groups
