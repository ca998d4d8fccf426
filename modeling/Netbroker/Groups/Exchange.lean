import Netbroker.Groups.Packing

/-!
# The exchange of groups

After daemons have come together the representatives of the synced sets send what they know.
The daemons keep the messages until they are complete, merge all of the tables and settle.
The order in which the messages come does not matter, so that all daemons end with one table.

The exchange begins with a regular membership and ends when the members of all synced sets
have been counted. `Heard` follows a daemon through the messages of any order that completes
them; the representatives come in some order, which merging forgets.
-/

namespace Netbroker.Groups

open Spread Transition

variable {site : Site} {t : Table} {procIds : List ProcId}

/-- A synced set is in the order of the configuration. -/
structure Synced (conf : Conf) (procIds : List ProcId) : Prop where
  known : ∀ id ∈ procIds, 0 ≤ conf.index id
  ordered : procIds.Pairwise fun a b => conf.index a < conf.index b

theorem Synced.cons_returns {conf : Conf} {x : ProcId} {l : List ProcId}
    {r : Except Exit (List ProcId)} (hx : 0 ≤ conf.index x)
    (hlt : ∀ y ∈ l, conf.index x < conf.index y)
    (h : Returns r fun zs => Synced conf zs ∧ zs.Perm l) :
    Returns (r.map (x :: ·)) fun zs => Synced conf zs ∧ zs.Perm (x :: l) := by
  refine h.map fun zs hzs => ⟨⟨?_, ?_⟩, hzs.2.cons x⟩
  · rintro y (_ | ⟨_, hy⟩)
    · exact hx
    · exact hzs.1.known y hy
  · exact List.pairwise_cons.mpr ⟨fun y hy => hlt y (hzs.2.mem_iff.mp hy), hzs.1.ordered⟩

theorem Synced.tail {conf : Conf} {x : ProcId} {xs : List ProcId} (h : Synced conf (x :: xs)) :
    Synced conf xs :=
  ⟨fun y hy => h.known y (List.mem_cons_of_mem _ hy), (List.pairwise_cons.mp h.ordered).2⟩

theorem Synced.head_lt {conf : Conf} {x : ProcId} {xs : List ProcId} (h : Synced conf (x :: xs)) :
    ∀ y ∈ xs, conf.index x < conf.index y := (List.pairwise_cons.mp h.ordered).1

theorem Synced.head_known {conf : Conf} {x : ProcId} {xs : List ProcId}
    (h : Synced conf (x :: xs)) : 0 ≤ conf.index x := h.known x List.mem_cons_self

/-- Synced sets that are apart become one. -/
theorem addToSyncedSet_returns {conf : Conf} {xs ys : List ProcId} (hxs : Synced conf xs)
    (hys : Synced conf ys) (hapart : ∀ x ∈ xs, x ∉ ys) :
    Returns (addToSyncedSet conf xs ys) fun zs => Synced conf zs ∧ zs.Perm (xs ++ ys) := by
  fun_induction addToSyncedSet conf xs ys with
  | case1 => exact .ok ⟨hxs, .nil⟩
  | case2 x xs hx => exact absurd hxs.head_known (by omega)
  | case3 x xs _ ih =>
      refine Synced.cons_returns hxs.head_known ?_ (ih hxs.tail hys fun y _ => List.not_mem_nil)
      show ∀ y ∈ xs ++ [], conf.index x < conf.index y
      rw [List.append_nil]
      exact hxs.head_lt
  | case4 y ys hy => exact absurd hys.head_known (by omega)
  | case5 y ys _ ih =>
      exact Synced.cons_returns hys.head_known hys.head_lt
        (ih hxs hys.tail fun _ h => absurd h List.not_mem_nil)
  | case6 x xs y ys hx => exact absurd hxs.head_known (by omega)
  | case7 x xs y ys _ hy => exact absurd hys.head_known (by omega)
  | case8 x xs y ys _ _ hlt ih =>
      refine Synced.cons_returns hxs.head_known ?_
        (ih hxs.tail hys fun z hz => hapart z (List.mem_cons_of_mem _ hz))
      intro z hz
      rcases List.mem_append.mp hz with hz | hz
      · exact hxs.head_lt z hz
      · rcases List.mem_cons.mp hz with rfl | hz
        · exact hlt
        · exact hlt.trans (hys.head_lt z hz)
  | case9 x xs y ys _ _ _ hlt ih =>
      have hcons := Synced.cons_returns (l := x :: xs ++ ys) hys.head_known ?_
        (ih hxs hys.tail fun z hz hz' => hapart z hz (List.mem_cons_of_mem _ hz'))
      · exact hcons.mono fun zs hzs => ⟨hzs.1, hzs.2.trans List.perm_middle.symm⟩
      · intro z hz
        rcases List.mem_append.mp hz with hz | hz
        · rcases List.mem_cons.mp hz with rfl | hz
          · exact hlt
          · exact hlt.trans (hxs.head_lt z hz)
        · exact hys.head_lt z hz
  | case10 x xs y ys _ _ hge hle =>
      have heq : x = y := conf.index_inj hxs.head_known (by omega)
      exact absurd (heq ▸ List.mem_cons_self) (hapart x List.mem_cons_self)

def GroupsMessageLink.said (link : GroupsMessageLink) : List GroupInfo :=
  link.messages.flatMap fun m => m.buf.groups

/-- The messages of a representative tell the table of its synced set. -/
structure GroupsMessageLink.Tells (conf : Conf) (link : GroupsMessageLink) (t : Table)
    (procIds : List ProcId) : Prop where
  covers : Covers conf t procIds link.said
  synced : Synced conf procIds
  syncedSet : link.syncedSet = some procIds

/-- A daemon that merges the tables of others into that of its synced set. -/
structure Daemon.Merging (site : Site) (d : Daemon) : Prop where
  gathering : Gathering site d.sessions d.mySyncedSet d.groups
  synced : Synced site.conf d.mySyncedSet
  my : site.my.id ∈ d.mySyncedSet

namespace Daemon

variable {d : Daemon} {link : GroupsMessageLink} {links : List GroupsMessageLink}
  {told : List (Table × List ProcId)}

theorem addLink_returns (h : d.Merging site) (htells : link.Tells site.conf t procIds)
    (hapart : ∀ id ∈ d.mySyncedSet, id ∉ procIds) :
    Returns (d.addLink site link) fun d' =>
      d'.Merging site ∧
      d' = { d with groups := d'.groups, mySyncedSet := d'.mySyncedSet } ∧
      d'.mySyncedSet.Perm (d.mySyncedSet ++ procIds) ∧ d'.table = d.table.merge t := by
  have hgroups : link.messages.foldl (messToGroups site) d.groups =
      link.said.foldl (addGroupInfo site) d.groups := by
    rw [GroupsMessageLink.said, List.foldl_flatMap]
    rfl
  have htake := h.gathering.take (hapart _ h.my) hapart htells.covers
  rw [addLink, htells.syncedSet]
  refine (addToSyncedSet_returns h.synced htells.synced hapart).bind fun ids hids => .pure ?_
  rw [hgroups]
  refine ⟨⟨⟨htake.1.ordered, htake.1.tidy, htake.1.whole, fun g hg dmn hdmn => ?_⟩, hids.1, ?_⟩,
    rfl, hids.2, htake.2⟩
  · exact hids.2.mem_iff.mpr (htake.1.daemons g hg dmn hdmn)
  · exact hids.2.mem_iff.mpr (List.mem_append_left _ h.my)

theorem addLinks_returns (h : d.Merging site)
    (htold : List.Forall₂ (fun link p => link.Tells site.conf p.1 p.2) links told)
    (hapart : (d.mySyncedSet ++ told.flatMap Prod.snd).Nodup) :
    Returns (links.foldlM (addLink site) d) fun d' =>
      d'.Merging site ∧
      d' = { d with groups := d'.groups, mySyncedSet := d'.mySyncedSet } ∧
      d'.mySyncedSet.Perm (d.mySyncedSet ++ told.flatMap Prod.snd) ∧
      d'.table = (told.map Prod.fst).foldl Table.merge d.table := by
  induction htold generalizing d with
  | nil => exact .pure ⟨h, rfl, by simp, rfl⟩
  | @cons link p links told htells _ ih =>
      rw [List.flatMap_cons, ← List.append_assoc] at hapart
      have hdisjoint := List.nodup_append.mp (List.Nodup.of_append_left hapart)
      rw [List.foldlM_cons]
      refine (addLink_returns h htells fun id hid hid' =>
        hdisjoint.2.2 id hid id hid' rfl).bind fun d₁ hd₁ => ?_
      obtain ⟨hmerging, hsame, hperm, htable⟩ := hd₁
      refine (ih hmerging ((hperm.append_right _).nodup_iff.mpr hapart)).mono fun d₂ hd₂ => ?_
      obtain ⟨hmerging₂, hsame₂, hperm₂, htable₂⟩ := hd₂
      refine ⟨hmerging₂, ?_, ?_, ?_⟩
      · rw [hsame₂, hsame]
      · rw [List.flatMap_cons, ← List.append_assoc]
        exact hperm₂.trans (hperm.append_right _)
      · rw [htable₂, htable]
        rfl

/-- A group settles: it is no longer changed, and its daemons are in its membership. -/
theorem settleGroup_returns {g : Group} (h : g.Tidy site d.sessions) (hwhole : g.Whole)
    (hknown : d.regMembId.isUnknown = false) :
    Returns (d.settleGroup site g) fun r =>
      r.1.map Group.view = some (g.view.settle d.regMembId) ∧
      ∀ g' ∈ r.1, g'.name = g.name ∧ g'.Tidy site d.sessions ∧ g'.Marked fun _ => True := by
  rw [settleGroup]
  split
  · rename_i hsame
    have hunchanged : g.changed = false := by simpa using hsame
    refine .ok ⟨?_, ?_⟩
    · rw [View.settle, if_neg (by simp [Group.view, hunchanged])]
      rfl
    · rintro _ ⟨⟩
      exact ⟨rfl, h, ⟨hwhole.known, fun dmn hdmn _ => hwhole.same hunchanged dmn hdmn,
        fun dmn _ hp => absurd trivial hp, fun dmn _ hp => absurd trivial hp⟩⟩
  rename_i hchanged
  have hchanged : g.changed = true := by simpa using hchanged
  have hrecast := Group.recast_settle g d.regMembId
  have hdone : ∀ notices : List (Str × Notice),
      Returns (.ok (some (g.settle d.regMembId).updateDaemonMembIds, notices) :
        Except Exit (Option Group × List (Str × Notice))) fun r =>
      r.1.map Group.view = some (g.view.settle d.regMembId) ∧
      ∀ g' ∈ r.1, g'.name = g.name ∧ g'.Tidy site d.sessions ∧ g'.Marked fun _ => True := by
    refine fun notices => .ok ⟨?_, ?_⟩
    · rw [View.settle, if_pos (by simp [Group.view, hchanged])]
      refine congrArg some (View.ext hrecast.members_eq rfl ?_)
      simp [Group.view, Group.updateDaemonMembIds, Group.settle]
    · rintro _ ⟨⟩
      refine ⟨rfl, hrecast.tidy h, ⟨hknown, ?_, ?_, ?_⟩⟩
      · intro y hy _
        obtain ⟨dmn, hdmn, rfl⟩ := List.mem_map.mp hy
        have hpart : ¬ dmn.isPartitioned = true := by
          rw [DaemonMembers.isPartitioned, hwhole.daemons dmn hdmn]
          exact Bool.false_ne_true
        rw [if_neg hpart]
        rfl
      · exact fun _ _ hp => absurd trivial hp
      · exact fun _ _ hp => absurd trivial hp
  have hformed : (g.settle d.regMembId).Formed site.conf :=
    ⟨h.formed.ordered, h.formed.daemons, h.formed.count⟩
  simp only
  split
  · exact hdone []
  · exact (hformed.sendHeavyweightJoin_returns (fun j hj => absurd hj (by simp)) none).bind
      fun notices _ => hdone notices

/-- The tables of all synced sets are merged, and settle. -/
theorem computeAndNotify_returns (h : d.Merging site) (hknown : d.regMembId.isUnknown = false)
    (htold : List.Forall₂ (fun link p => link.Tells site.conf p.1 p.2) d.gathered told)
    (hapart : (d.mySyncedSet ++ told.flatMap Prod.snd).Nodup) :
    Returns (d.computeAndNotify site) fun o =>
      Operating site { o.daemon with gstate := .gop } ∧
      o.daemon.mySyncedSet.Perm (d.mySyncedSet ++ told.flatMap Prod.snd) ∧
      o.daemon.table =
        (Table.mergeAll (d.table :: told.map Prod.fst)).map (View.settle d.regMembId) ∧
      o.sent = [] := by
  rw [computeAndNotify]
  refine (addLinks_returns h htold hapart).bind fun d' hd' => ?_
  obtain ⟨hmerging, hsame, hperm, htable⟩ := hd'
  have hreg : d'.regMembId = d.regMembId := by rw [hsame]
  have hover := overGroups_returns (f := settleGroup site d')
    (Q := fun g => g.Tidy site d'.sessions ∧ g.Marked fun _ => True)
    (k := fun v => some (v.settle d.regMembId)) hmerging.gathering.ordered fun g hg =>
      (settleGroup_returns (hmerging.gathering.tidy g hg) (hmerging.gathering.whole g hg)
        (hreg ▸ hknown)).mono fun r hr => ⟨hreg ▸ hr.1, hr.2⟩
  refine hover.bind fun r hr => .pure ?_
  obtain ⟨hordered, hkept, hsettled⟩ := hr
  refine ⟨⟨.inl rfl, ⟨hordered, fun g hg => (hkept g hg).1⟩, ?_, fun g hg => ?_⟩, hperm, ?_, rfl⟩
  · rw [current, if_pos rfl]
    exact hreg ▸ hknown
  · have hmarked := (hkept g hg).2
    exact ⟨hmarked.known, fun dmn hdmn _ => hmarked.here dmn hdmn trivial,
      fun dmn _ hp => absurd (Or.inl rfl) hp, fun dmn _ hp => absurd (Or.inl rfl) hp⟩
  · refine hsettled.trans ?_
    have hmerged : tableOf d'.groups = Table.mergeAll (d.table :: told.map Prod.fst) := htable
    rw [hmerged]
    funext n
    rw [Table.bind, Table.map]
    cases Table.mergeAll (d.table :: told.map Prod.fst) n <;> rfl

end Daemon

/-- A group loses the daemons that are gone, and is not settled yet. -/
theorem dropPartitioned_returns {sessions : List Session} {g : Group} (h : g.Tidy site sessions)
    (hmarked : g.Marked (· ∈ procIds)) (hmy : site.my.id ∈ procIds) :
    Returns (dropPartitioned g) fun r =>
      r.1.map Group.view = g.view.stay (site.conf.membersOf procIds) ∧
      ∀ g' ∈ r.1, g'.name = g.name ∧ g'.Tidy site sessions ∧ g'.Whole ∧
        ∀ dmn ∈ g'.daemons, dmn.procId ∈ procIds := by
  have hwhole : ∀ {g' : Group}, g'.grpId = g.grpId →
      (∀ dmn ∈ g'.daemons, dmn ∈ g.daemons ∧ dmn.procId ∈ procIds) → g'.Whole := by
    intro g' hgrpId hdaemons
    have hsame : ∀ dmn ∈ g'.daemons, dmn.membId = g'.grpId.membId := fun dmn hdmn => by
      rw [hgrpId]
      exact hmarked.here dmn (hdaemons dmn hdmn).1 (hdaemons dmn hdmn).2
    refine ⟨hgrpId ▸ hmarked.known, fun dmn hdmn => ?_, fun _ => hsame⟩
    rw [hsame dmn hdmn, hgrpId]
    exact hmarked.known
  rw [dropPartitioned]
  split
  · rename_i hsame
    have hunchanged : g.changed = false := by simpa using hsame
    have hall : ∀ dmn ∈ g.daemons, dmn.procId ∈ procIds := fun dmn hdmn => by
      by_contra hp
      rw [hmarked.changed dmn hdmn hp] at hunchanged
      cases hunchanged
    refine .ok ⟨?_, ?_⟩
    · rw [h.stay_eq hall]
      rfl
    · rintro _ ⟨⟩
      exact ⟨rfl, h, hwhole rfl fun dmn hdmn => ⟨hdmn, hall dmn hdmn⟩, hall⟩
  have hstayed := h.stayed (fun dmn hdmn => hmarked.isPartitioned hdmn) hmy
  generalize g.eliminate DaemonMembers.isPartitioned = g' at hstayed
  simp only
  split
  · rename_i hzero
    obtain ⟨hremove, hnone⟩ := hstayed.empty hzero
    rw [hremove, hnone]
    exact .ok ⟨rfl, by simp⟩
  rename_i hpos
  obtain ⟨hne, hsome⟩ := hstayed.nonempty hpos
  refine .ok ⟨?_, ?_⟩
  · rw [hsome]
    refine congrArg some (View.ext rfl hstayed.grpId ?_)
    simp only [Group.view, hstayed.changed]
  · rintro _ ⟨⟩
    exact ⟨hstayed.name, ⟨hstayed.formed, hne, hstayed.here⟩, hwhole hstayed.grpId hstayed.daemons,
      fun dmn hdmn => (hstayed.daemons dmn hdmn).2⟩

theorem Daemon.sendNewGroups_same {d : Daemon} {o : Outcome}
    (hsend : d.sendNewGroups site = .ok o) :
    o.daemon = { d with
      groupsBufs := o.daemon.groupsBufs
      groupsBufsFresh := o.daemon.groupsBufsFresh } := by
  rw [sendNewGroups] at hsend
  split at hsend
  · rw [buildNewGroupsBufs] at hsend
    split at hsend
    · cases hsend
    · obtain rfl := Except.ok.inj hsend
      rfl
  · obtain rfl := Except.ok.inj hsend
    rfl

/-- When daemons have come together a daemon keeps those of its groups that are here, and its
representative tells them. -/
theorem Daemon.handleRegMemb_gathers {d : Daemon} (h : d.Operating site)
    (hstate : d.gstate = .gtrans) (hmy : site.my.id ∈ d.transMemb)
    (hsynced : Synced site.conf d.mySyncedSet)
    (hset : ∀ id, id ∈ d.mySyncedSet ↔ id ∈ d.transMemb) (hnone : d.groupsBufs = [])
    {regMemb : List ProcId} (hlen : d.transMemb.length ≠ regMemb.length)
    {regMembId : MembershipId} {o : Outcome}
    (hreg : handleRegMemb site d regMemb regMembId = .ok o) :
    o.daemon.Merging site ∧
    o.daemon = { d with
      regMemb
      regMembId
      groups := o.daemon.groups
      groupsBufs := o.daemon.groupsBufs
      groupsBufsFresh := o.daemon.groupsBufsFresh
      gstate := .ggather } ∧
    o.daemon.table = d.table.bind (View.stay (site.conf.membersOf d.transMemb)) ∧
    (d.isSyncedSetLeader site.my.id = true →
      Covers site.conf o.daemon.table d.mySyncedSet (o.sent.flatMap fun m => m.buf.groups) ∧
      (o.sent.findSome? fun m => m.buf.first) = some d.mySyncedSet) := by
  have hpresent : d.present = (· ∈ d.transMemb) := by
    funext procId
    simp [present, hstate]
  rw [handleRegMemb, hstate] at hreg
  simp only [hlen, if_false] at hreg
  obtain ⟨r, hover, hordered, hkept, htable⟩ := overGroups_returns (f := dropPartitioned)
    (Q := fun g => g.Tidy site d.sessions ∧ g.Whole ∧ ∀ dmn ∈ g.daemons, dmn.procId ∈ d.transMemb)
    (k := View.stay (site.conf.membersOf d.transMemb)) h.tidy.ordered fun g hg =>
      dropPartitioned_returns (h.tidy.groups g hg) (hpresent ▸ h.marked g hg) hmy
  rw [hover] at hreg
  have hgathering : Gathering site d.sessions d.mySyncedSet r.1 :=
    ⟨hordered, fun g hg => (hkept g hg).1, fun g hg => (hkept g hg).2.1,
      fun g hg dmn hdmn => (hset _).mpr ((hkept g hg).2.2 dmn hdmn)⟩
  let d₁ : Daemon := { d with regMemb, regMembId, groups := r.1, gstate := .ggather }
  have hsend : d₁.sendNewGroups site = .ok o := hreg
  have hsame := sendNewGroups_same hsend
  have hgroups : o.daemon.table = tableOf r.1 := by
    rw [hsame]
    rfl
  refine ⟨?_, ?_, hgroups.trans htable, fun hleader => ?_⟩
  · rw [hsame]
    exact ⟨hgathering, hsynced, (hset _).mpr hmy⟩
  · rw [hsame]
  · obtain ⟨-, hcovers, hfirst⟩ := sendNewGroups_tells (d := d₁) hgathering hnone hleader hsend
    exact ⟨hgroups ▸ hcovers, hfirst⟩

def messagesOf (ms : List (ProcId × GroupsMess)) (r : ProcId) : List GroupsMess :=
  (ms.filter fun p => p.1 = r).map Prod.snd

/-- How many daemons the messages that complete those of their representatives are for. -/
def represented (ms : List (ProcId × GroupsMess)) : Nat :=
  (ms.map fun p => if p.2.agreed then p.2.represented else 0).sum

theorem messagesOf_append (ms : List (ProcId × GroupsMess)) (r id : ProcId) (m : GroupsMess) :
    messagesOf (ms ++ [(id, m)]) r =
      messagesOf ms r ++ if id = r then [m] else [] := by
  rw [messagesOf, List.filter_append, List.map_append]
  by_cases h : id = r
  · simp [messagesOf, h]
  · simp [messagesOf, h]

/-- The links hold the messages that have come, by representatives. -/
structure Kept (ms : List (ProcId × GroupsMess)) (links : List GroupsMessageLink) : Prop where
  nodup : (links.map GroupsMessageLink.repProcId).Nodup
  reps : ∀ r, r ∈ links.map GroupsMessageLink.repProcId ↔ r ∈ ms.map Prod.fst
  messages : ∀ link ∈ links, link.messages = (messagesOf ms link.repProcId).reverse

theorem addMessage_reps (id : ProcId) (m : GroupsMess) (links : List GroupsMessageLink) :
    (addMessage id m links).map GroupsMessageLink.repProcId =
      links.map GroupsMessageLink.repProcId := by
  induction links with
  | nil => rfl
  | cons link rest ih =>
      rw [addMessage]
      split
      · rfl
      · rw [List.map_cons, List.map_cons, ih]

theorem mem_addMessage {id : ProcId} {m : GroupsMess} {links : List GroupsMessageLink}
    {y : GroupsMessageLink} (hnodup : (links.map GroupsMessageLink.repProcId).Nodup)
    (hy : y ∈ addMessage id m links) :
    ∃ link ∈ links, y.repProcId = link.repProcId ∧
      y.messages = (if id = link.repProcId then [m] else []) ++ link.messages := by
  induction links with
  | nil => exact absurd hy List.not_mem_nil
  | cons link rest ih =>
      rw [List.map_cons, List.nodup_cons] at hnodup
      rw [addMessage] at hy
      split at hy
      · rename_i heq
        rcases List.mem_cons.mp hy with rfl | hy
        · exact ⟨link, List.mem_cons_self, rfl, by rw [if_pos heq.symm]; rfl⟩
        · refine ⟨y, List.mem_cons_of_mem _ hy, rfl, ?_⟩
          rw [if_neg]
          · rfl
          · rintro rfl
            exact hnodup.1 (heq ▸ List.mem_map.mpr ⟨y, hy, rfl⟩)
      · rename_i hne
        rcases List.mem_cons.mp hy with rfl | hy
        · exact ⟨y, List.mem_cons_self, rfl, by rw [if_neg (Ne.symm hne)]; rfl⟩
        · obtain ⟨z, hz, hrest⟩ := ih hnodup.2 hy
          exact ⟨z, List.mem_cons_of_mem _ hz, hrest⟩

theorem Kept.keep {ms : List (ProcId × GroupsMess)} {d : Daemon} (h : Kept ms d.gathered)
    (id : ProcId) (m : GroupsMess) : Kept (ms ++ [(id, m)]) (d.keepMessage id m).gathered := by
  rw [Daemon.keepMessage]
  split
  · rename_i hany
    refine ⟨?_, fun r => ?_, fun y hy => ?_⟩
    · rw [addMessage_reps]
      exact h.nodup
    · have hid : id ∈ ms.map Prod.fst := by
        rw [← h.reps, List.mem_map]
        simpa using hany
      rw [addMessage_reps, h.reps, List.map_append, List.mem_append]
      refine ⟨.inl, ?_⟩
      rintro (hr | hr)
      · exact hr
      · rw [List.map_singleton, List.mem_singleton] at hr
        rwa [hr]
    · obtain ⟨link, hlink, hrep, hmessages⟩ := mem_addMessage h.nodup hy
      rw [hmessages, h.messages link hlink, hrep, messagesOf_append, List.reverse_append]
      split <;> rfl
  · rename_i hnone
    have hnew : id ∉ d.gathered.map GroupsMessageLink.repProcId := by
      rw [List.mem_map]
      simpa using hnone
    refine ⟨List.nodup_cons.mpr ⟨hnew, h.nodup⟩, fun r => ?_, fun y hy => ?_⟩
    · rw [List.map_cons, List.mem_cons, h.reps, List.map_append, List.mem_append,
        List.map_singleton, List.mem_singleton, or_comm]
    · rw [messagesOf_append]
      rcases List.mem_cons.mp hy with rfl | hmem
      · have hnil : messagesOf ms id = [] := by
          rw [messagesOf, List.map_eq_nil_iff, List.filter_eq_nil_iff]
          intro p hp heq
          rw [h.reps] at hnew
          exact hnew (List.mem_map.mpr ⟨p, hp, by simpa using heq⟩)
        rw [hnil, if_pos rfl]
        rfl
      · rw [h.messages y hmem, if_neg, List.append_nil]
        rintro rfl
        exact hnew (List.mem_map.mpr ⟨y, hmem, rfl⟩)

/-- A daemon takes the messages of the others, one after the other. -/
def Daemon.hear (site : Site) (d : Daemon) (ms : List GroupsMess) : Except Exit Daemon :=
  ms.foldlM (fun d m => (handleGroups site d m).map Outcome.daemon) d

/-- The messages of all synced sets, in an order in which some daemon gets them. The last one
completes them. -/
structure Exchange (conf : Conf) (regMembId : MembershipId) (regMemb : List ProcId)
    (reps : List ProcId) (table : ProcId → Table) (set : ProcId → List ProcId)
    (ms : List (ProcId × GroupsMess)) : Prop where
  heard : ∀ p ∈ ms, (conf.procByName p.2.sender).map Proc.id = some p.1 ∧
    p.2.buf.membId = regMembId
  senders : ∀ r, r ∈ reps ↔ r ∈ ms.map Prod.fst
  nodup : reps.Nodup
  covers : ∀ r ∈ reps,
    Covers conf (table r) (set r) ((messagesOf ms r).flatMap fun m => m.buf.groups)
  synced : ∀ r ∈ reps, Synced conf (set r)
  syncedSet : ∀ r ∈ reps, ((messagesOf ms r).findSome? fun m => m.buf.first) = some (set r)
  sets : (reps.flatMap set).Nodup
  apart : (reps.map table).Pairwise Table.Apart
  count : represented ms = regMemb.length
  last : ∃ pre p, ms = pre ++ [p] ∧ p.2.agreed = true ∧ 0 < p.2.represented

/-- What a daemon has heard so far. -/
structure Heard (d d' : Daemon) (ms : List (ProcId × GroupsMess)) : Prop where
  same : d' = { d with
    gathered := d'.gathered
    complete := d'.complete
    numDaemonsGathered := represented ms }
  kept : Kept (ms.filter fun p => !d.isSyncedSetLeader p.1) d'.gathered

theorem represented_append (ms ms' : List (ProcId × GroupsMess)) :
    represented (ms ++ ms') = represented ms + represented ms' := by
  rw [represented, List.map_append, List.sum_append]
  rfl

/-- A message is counted, and kept unless it is of the own representative. -/
def Daemon.counted (d : Daemon) (id : ProcId) (m : GroupsMess) : Daemon :=
  let d :=
    if d.isSyncedSetLeader id then { d with complete := d.complete || m.agreed }
    else d.keepMessage id m
  { d with numDaemonsGathered := d.numDaemonsGathered + if m.agreed then m.represented else 0 }

theorem Daemon.keepMessage_eq (d : Daemon) (id : ProcId) (m : GroupsMess) :
    d.keepMessage id m = { d with gathered := (d.keepMessage id m).gathered } := by
  rw [keepMessage]
  split <;> rfl

theorem Heard.next {d d' : Daemon} {ms : List (ProcId × GroupsMess)} (h : Heard d d' ms)
    (id : ProcId) (m : GroupsMess) : Heard d (d'.counted id m) (ms ++ [(id, m)]) := by
  have hleader : d'.isSyncedSetLeader id = d.isSyncedSetLeader id := by rw [h.same]; rfl
  have hnum : d'.numDaemonsGathered = represented ms := by rw [h.same]
  have hcount : d'.numDaemonsGathered + (if m.agreed then m.represented else 0) =
      represented (ms ++ [(id, m)]) := by
    rw [represented_append, hnum]
    simp [represented]
  have hkeep := h.kept.keep id m
  rw [Daemon.counted, hleader]
  by_cases hown : d.isSyncedSetLeader id = true
  · rw [if_pos hown]
    refine ⟨?_, ?_⟩
    · simp only [hcount]
      rw [h.same]
    · simpa [List.filter_append, hown] using h.kept
  · rw [if_neg hown, Daemon.keepMessage_eq]
    refine ⟨?_, ?_⟩
    · simp only [hcount]
      rw [h.same]
    · simpa [List.filter_append, hown] using hkeep

/-- A message completes the exchange, or is the next one heard. -/
theorem handleGroups_eq {d d' : Daemon} {ms : List (ProcId × GroupsMess)} (h : Heard d d' ms)
    (hstate : d.gstate = .ggather) {id : ProcId} {m : GroupsMess}
    (hsender : (site.conf.procByName m.sender).map Proc.id = some id)
    (hmembId : m.buf.membId = d.regMembId) :
    ∃ next, Heard d next (ms ++ [(id, m)]) ∧
      handleGroups site d' m =
        if represented (ms ++ [(id, m)]) ≠ d.regMemb.length then .ok (.quiet next)
        else (next.computeAndNotify site).map fun o =>
          { o with daemon := { o.daemon with gstate := .gop } } := by
  have hstate' : d'.gstate = .ggather := by rw [h.same]; exact hstate
  have hreg : d'.regMembId = d.regMembId := by rw [h.same]
  obtain ⟨p, hp, rfl⟩ := Option.map_eq_some_iff.mp hsender
  have hnext := h.next p.id m
  refine ⟨_, hnext, ?_⟩
  have hnum : (d'.counted p.id m).numDaemonsGathered = represented (ms ++ [(p.id, m)]) :=
    by rw [hnext.same]
  have hmemb : (d'.counted p.id m).regMemb = d.regMemb := by rw [hnext.same]
  have hgather : (d'.counted p.id m).gstate = .ggather :=
    by rw [hnext.same]; exact hstate
  have hhandle : handleGroups site d' m =
      if (d'.counted p.id m).numDaemonsGathered ≠ (d'.counted p.id m).regMemb.length then
        pure (.quiet (d'.counted p.id m))
      else (do
        let o ← (d'.counted p.id m).computeAndNotify site
        let next := { o.daemon with gstate := .gop }
        if (d'.counted p.id m).gstate = .ggather then pure { o with daemon := next }
        else do
          let o' ← handleTransMemb next next.transMemb next.transMembId
          pure { o' with notices := o.notices ++ o'.notices }) := by
    rw [handleGroups, if_neg (by simp [hstate']), if_neg (by simp [hreg, hmembId]), hp]
    rfl
  rw [hhandle, hnum, hmemb, hgather]
  split
  · rfl
  · cases (d'.counted p.id m).computeAndNotify site <;> rfl

section

variable {d d' : Daemon} {reps : List ProcId} {table : ProcId → Table}
  {set : ProcId → List ProcId} {ms : List (ProcId × GroupsMess)} {leader : ProcId}

/-- The own representative and those whose messages are kept are all of them. -/
theorem Kept.reps_perm {links : List GroupsMessageLink}
    (h : Kept (ms.filter fun p => p.1 ≠ leader) links) (hnodup : reps.Nodup)
    (hsenders : ∀ r, r ∈ reps ↔ r ∈ ms.map Prod.fst) (hleader : leader ∈ reps) :
    (leader :: links.map GroupsMessageLink.repProcId).Perm reps := by
  have hmem : ∀ r, r ∈ links.map GroupsMessageLink.repProcId ↔ r ∈ reps ∧ r ≠ leader := by
    intro r
    rw [h.reps, hsenders, List.mem_map, List.mem_map]
    constructor
    · rintro ⟨p, hp, rfl⟩
      obtain ⟨hp, hne⟩ := List.mem_filter.mp hp
      exact ⟨⟨p, hp, rfl⟩, by simpa using hne⟩
    · rintro ⟨⟨p, hp, rfl⟩, hne⟩
      exact ⟨p, List.mem_filter.mpr ⟨hp, by simpa using hne⟩, rfl⟩
  refine (List.perm_ext_iff_of_nodup (List.nodup_cons.mpr ⟨?_, h.nodup⟩) hnodup).mpr fun r => ?_
  · exact fun hin => ((hmem leader).mp hin).2 rfl
  · rw [List.mem_cons, hmem]
    constructor
    · rintro (rfl | hr)
      · exact hleader
      · exact hr.1
    · intro hr
      by_cases heq : r = leader
      · exact .inl heq
      · exact .inr ⟨hr, heq⟩

theorem messagesOf_filter {r : ProcId} (hne : r ≠ leader) :
    messagesOf (ms.filter fun p => p.1 ≠ leader) r = messagesOf ms r := by
  rw [messagesOf, messagesOf, List.filter_filter]
  congr 1
  refine List.filter_congr fun p _ => ?_
  by_cases h : p.1 = r
  · simp [h, hne]
  · simp [h]

/-- What is kept of a representative tells its table. -/
theorem Exchange.tells {conf : Conf} {regMembId : MembershipId} {regMemb : List ProcId}
    (h : Exchange conf regMembId regMemb reps table set ms) {links : List GroupsMessageLink}
    (hkept : Kept (ms.filter fun p => p.1 ≠ leader) links)
    (hperm : (leader :: links.map GroupsMessageLink.repProcId).Perm reps) :
    List.Forall₂ (fun link p => link.Tells conf p.1 p.2) links
      (links.map fun link => (table link.repProcId, set link.repProcId)) := by
  refine List.forall₂_map_right_iff.mpr (List.forall₂_same.mpr fun link hlink => ?_)
  have hrep : link.repProcId ∈ links.map GroupsMessageLink.repProcId :=
    List.mem_map.mpr ⟨link, hlink, rfl⟩
  have hmem : link.repProcId ∈ reps := hperm.mem_iff.mp (List.mem_cons_of_mem _ hrep)
  have hne : link.repProcId ≠ leader := fun heq =>
    (List.nodup_cons.mp (hperm.nodup_iff.mpr h.nodup)).1 (heq ▸ hrep)
  have hmessages : link.messages = (messagesOf ms link.repProcId).reverse := by
    rw [hkept.messages link hlink, messagesOf_filter hne]
  refine ⟨(h.covers _ hmem).perm ?_, h.synced _ hmem, ?_⟩
  · rw [GroupsMessageLink.said, hmessages]
    exact (List.reverse_perm _).symm.flatMap_right _
  · rw [GroupsMessageLink.syncedSet, hmessages, List.reverse_reverse]
    exact h.syncedSet _ hmem

/-- A daemon that has heard all but the last message. -/
theorem hear_heard (hstate : d.gstate = .ggather) {pre : List (ProcId × GroupsMess)}
    (hheard : ∀ p ∈ ms ++ pre, (site.conf.procByName p.2.sender).map Proc.id = some p.1 ∧
      p.2.buf.membId = d.regMembId)
    (hcount : represented (ms ++ pre) < d.regMemb.length) (h : Heard d d' ms) :
    Returns (d'.hear site (pre.map Prod.snd)) fun d'' => Heard d d'' (ms ++ pre) := by
  induction pre generalizing ms d' with
  | nil => exact .pure (by rwa [List.append_nil])
  | cons p rest ih =>
      obtain ⟨hsender, hmembId⟩ := hheard p (by simp)
      obtain ⟨next, hnext, hhandle⟩ := handleGroups_eq h hstate hsender hmembId
      rw [List.append_cons] at hheard hcount ⊢
      have hlt : represented (ms ++ [p]) ≠ d.regMemb.length := by
        rw [represented_append] at hcount
        omega
      rw [if_pos hlt] at hhandle
      rw [Daemon.hear, List.map_cons, List.foldlM_cons, hhandle]
      exact ih hheard hcount hnext

/-- A daemon of the synced set of `leader`, to which no message has come yet. -/
structure Daemon.Ready (site : Site) (d : Daemon) (table : ProcId → Table)
    (set : ProcId → List ProcId) (leader : ProcId) : Prop where
  merging : d.Merging site
  state : d.gstate = .ggather
  known : d.regMembId.isUnknown = false
  gathered : d.gathered = []
  num : d.numDaemonsGathered = 0
  head : d.mySyncedSet.head? = some leader
  set : set leader = d.mySyncedSet
  table : table leader = d.table

/-- Whatever the order in which the messages of all synced sets come, the daemon ends with all
tables merged and settled. -/
theorem exchange_returns (h : d.Ready site table set leader)
    (hex : Exchange site.conf d.regMembId d.regMemb reps table set ms) (hleader : leader ∈ reps) :
    Returns (d.hear site (ms.map Prod.snd)) fun d' =>
      d'.Operating site ∧ d'.gstate = .gop ∧
      d'.mySyncedSet.Perm (reps.flatMap set) ∧
      d'.table = (Table.mergeAll (reps.map table)).map (View.settle d.regMembId) := by
  obtain ⟨hmine, hstate, hknown, hgathered, hnum, hhead, hset, htable⟩ := h
  obtain ⟨pre, last, hms, hagreed, hpos⟩ := hex.last
  have hcount := hex.count
  have hheard := hex.heard
  have hlast : represented [last] = last.2.represented := by simp [represented, hagreed]
  have hlt : represented pre < d.regMemb.length := by
    rw [hms, represented_append, hlast] at hcount
    omega
  have hstart : Heard d d [] := by
    refine ⟨?_, ?_⟩
    · rw [show represented [] = d.numDaemonsGathered from hnum.symm]
    · rw [hgathered]
      exact ⟨.nil, by simp, by simp⟩
  have hfirst : Returns (d.hear site (pre.map Prod.snd)) fun d' => Heard d d' ([] ++ pre) :=
    hear_heard hstate (fun p hp => hheard p (hms ▸ List.mem_append_left _ hp)) hlt hstart
  rw [hms, List.map_append, Daemon.hear, List.foldlM_append]
  refine hfirst.bind fun d₁ hd₁ => ?_
  obtain ⟨hsender, hmembId⟩ := hheard last (hms ▸ List.mem_append_right _ List.mem_cons_self)
  obtain ⟨next, hnext, hhandle⟩ := handleGroups_eq hd₁ hstate hsender hmembId
  have hall : [] ++ pre ++ [(last.1, last.2)] = ms := hms.symm
  rw [hall] at hnext hhandle
  rw [if_neg (not_not.mpr hcount)] at hhandle
  have hown : ∀ id, d.isSyncedSetLeader id = decide (id = leader) := by
    intro id
    rw [Daemon.isSyncedSetLeader, hhead]
    simp [eq_comm]
  have hkept : Kept (ms.filter fun p => p.1 ≠ leader) next.gathered := by
    refine (congrArg (Kept · next.gathered) (List.filter_congr fun p _ => ?_)).mp hnext.kept
    rw [hown]
    simp
  have hperm := hkept.reps_perm hex.nodup hex.senders hleader
  have hmerging : next.Merging site := by
    rw [hnext.same]
    exact ⟨hmine.gathering, hmine.synced, hmine.my⟩
  have hreg : next.regMembId = d.regMembId := by rw [hnext.same]
  have hown' : next.mySyncedSet = set leader := by rw [hnext.same, hset]
  have htold : next.mySyncedSet ++ (next.gathered.map fun link =>
      (table link.repProcId, set link.repProcId)).flatMap Prod.snd =
      (leader :: next.gathered.map GroupsMessageLink.repProcId).flatMap set := by
    rw [hown', List.flatMap_cons, List.flatMap_map, List.flatMap_map]
  have htables : next.table :: (next.gathered.map fun link =>
      (table link.repProcId, set link.repProcId)).map Prod.fst =
      (leader :: next.gathered.map GroupsMessageLink.repProcId).map table := by
    have hsame : next.table = table leader := by rw [hnext.same, htable]; rfl
    rw [hsame, List.map_cons, List.map_map, List.map_map]
    rfl
  have hpermSets := hperm.flatMap_right set
  have hdone := Daemon.computeAndNotify_returns hmerging (hreg ▸ hknown) (hex.tells hkept hperm)
    (htold ▸ hpermSets.nodup_iff.mpr hex.sets)
  rw [List.map_singleton, List.foldlM_cons, hhandle]
  obtain ⟨o, ho, hoperating, hsets, hmerged, -⟩ := hdone
  rw [ho]
  refine .pure ⟨hoperating, rfl, ?_, ?_⟩
  · rw [htold] at hsets
    exact hsets.trans hpermSets
  · have hsettle := Table.mergeAll_settle
      ((hperm.map table).pairwise_iff (fun h => h.symm) |>.mpr hex.apart) (hperm.map table)
      d.regMembId
    rw [htables, hreg] at hmerged
    exact hmerged.trans hsettle

/-- Daemons end with one table, also where they get the messages in different orders. -/
theorem exchange_agree {site' : Site} {d₁ d₂ : Daemon} {leader' : ProcId}
    {ms' : List (ProcId × GroupsMess)}
    (h₁ : d₁.Ready site table set leader) (h₂ : d₂.Ready site' table set leader')
    (hex₁ : Exchange site.conf d₁.regMembId d₁.regMemb reps table set ms)
    (hex₂ : Exchange site'.conf d₂.regMembId d₂.regMemb reps table set ms')
    (hleader : leader ∈ reps) (hleader' : leader' ∈ reps) (hreg : d₁.regMembId = d₂.regMembId) :
    ∃ e₁ e₂, d₁.hear site (ms.map Prod.snd) = .ok e₁ ∧
      d₂.hear site' (ms'.map Prod.snd) = .ok e₂ ∧
      e₁.table = e₂.table ∧ e₁.gstate = .gop ∧ e₂.gstate = .gop := by
  obtain ⟨e₁, hhear₁, -, hgop₁, -, htable₁⟩ := exchange_returns h₁ hex₁ hleader
  obtain ⟨e₂, hhear₂, -, hgop₂, -, htable₂⟩ := exchange_returns h₂ hex₂ hleader'
  exact ⟨e₁, e₂, hhear₁, hhear₂, by rw [htable₁, htable₂, hreg], hgop₁, hgop₂⟩

end

end Netbroker.Groups
