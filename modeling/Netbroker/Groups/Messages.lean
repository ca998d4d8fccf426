import Netbroker.Groups.Memberships

/-!
# What the daemons tell each other about their groups

The representative of a synced set packs its groups into messages, a group into as many as it
takes. Whoever takes these messages has merged its table with the one that was packed.

`Says` and `Covers` are about the messages of one table: that they say nothing else, and that
they say all of it. `Adding` follows a daemon through the groups of these messages, one group
at a time, in whatever pieces it comes.
-/

namespace Netbroker.Groups

open Spread Transition

def GroupInfo.keys (info : GroupInfo) : List (Str × ProcId) :=
  info.daemons.map fun dmn => (info.name, dmn.procId)

/-- The members of a group that some messages name. -/
def membersIn (infos : List GroupInfo) (n : Str) : Set Str :=
  {m | ∃ info ∈ infos, info.name = n ∧ ∃ dmn ∈ info.daemons, m ∈ dmn.members}

/-- What messages say is of the table, and of the daemons `procIds`. -/
structure Says (conf : Conf) (t : Table) (procIds : List ProcId) (infos : List GroupInfo) :
    Prop where
  keys : (infos.flatMap GroupInfo.keys).Nodup
  daemons : ∀ info ∈ infos, ∀ dmn ∈ info.daemons,
    dmn.Tidy conf ∧ dmn.membId = info.grpId.membId ∧ dmn.procId ∈ procIds
  views : ∀ info ∈ infos, info.grpId.membId.isUnknown = false ∧
    ∃ v, t info.name = some v ∧ v.grpId = info.grpId ∧ (v.changed ↔ info.changed = true)

theorem Says.left {conf : Conf} {t : Table} {procIds : List ProcId} {infos rest : List GroupInfo}
    (h : Says conf t procIds (infos ++ rest)) : Says conf t procIds infos where
  keys := by
    have hkeys := h.keys
    rw [List.flatMap_append] at hkeys
    exact hkeys.of_append_left
  daemons := fun info hinfo => h.daemons info (List.mem_append_left _ hinfo)
  views := fun info hinfo => h.views info (List.mem_append_left _ hinfo)

/-- The messages say all that the table says. -/
structure Covers (conf : Conf) (t : Table) (procIds : List ProcId) (infos : List GroupInfo) : Prop
    extends Says conf t procIds infos where
  members : ∀ n v, t n = some v → v.members = membersIn infos n ∧ v.members.Nonempty

theorem Covers.perm {conf : Conf} {t : Table} {procIds : List ProcId}
    {infos infos' : List GroupInfo} (h : Covers conf t procIds infos)
    (hperm : infos.Perm infos') : Covers conf t procIds infos' where
  keys := (hperm.flatMap_right _).nodup_iff.mp h.keys
  daemons := fun info hinfo => h.daemons info (hperm.mem_iff.mpr hinfo)
  views := fun info hinfo => h.views info (hperm.mem_iff.mpr hinfo)
  members := by
    intro n v hv
    obtain ⟨hmembers, hne⟩ := h.members n v hv
    refine ⟨hmembers.trans ?_, hne⟩
    ext m
    simp [membersIn, hperm.mem_iff]

namespace View

/-- Some of the members of `w` are taken into a group. -/
def take (v w : View) (ms : Set Str) : View :=
  { members := v.members ∪ ms
    grpId := v.grpId
    changed := v.changed ∨ w.changed ∨ ms.Nonempty ∧ v.grpId.membId ≠ w.grpId.membId }

/-- A group that nobody has joined. -/
def fresh (grpId : GroupId) : View := { members := ∅, grpId, changed := False }

theorem take_take (v w : View) (ms ms' : Set Str) :
    (v.take w ms).take w ms' = v.take w (ms ∪ ms') := by
  refine View.ext (Set.union_assoc ..) rfl (propext ?_)
  simp only [take, Set.union_nonempty]
  tauto

theorem take_members {v w : View} (h : w.members.Nonempty) : v.take w w.members = v.merge w := by
  refine View.ext rfl rfl (propext ?_)
  simp only [take, merge, h, true_and]

theorem fresh_take (w : View) : (fresh w.grpId).take w w.members = w := by
  refine View.ext (Set.empty_union _) rfl (propext ?_)
  simp [take, fresh]

end View

namespace Group

variable {site : Site} {sessions : List Session} {g : Group} {dmn : DaemonMembers}

/-- The daemons of a group are known, and in its membership unless it has changed. -/
structure Whole (g : Group) : Prop where
  known : g.grpId.membId.isUnknown = false
  daemons : ∀ dmn ∈ g.daemons, dmn.membId.isUnknown = false
  same : g.changed = false → ∀ dmn ∈ g.daemons, dmn.membId = g.grpId.membId

/-- What the daemons of messages have made of a group. -/
structure Grown (site : Site) (g : Group) (l : List DaemonMembers) (g' : Group) : Prop where
  name : g'.name = g.name
  grpId : g'.grpId = g.grpId
  mboxes : g'.mboxes = g.mboxes
  changed : g'.changed = (g.changed || l.any fun dmn => dmn.membId ≠ g.grpId.membId)
  formed : g'.Formed site.conf
  daemons : ∀ dmn ∈ g'.daemons, dmn ∈ g.daemons ∨ dmn ∈ l
  membersAt : ∀ procId, procId ∉ l.map DaemonMembers.procId →
    g'.membersAt site procId = g.membersAt site procId
  members : {m | m ∈ g'.members} = g.view.members ∪ {m | ∃ dmn ∈ l, m ∈ dmn.members}

theorem Formed.grown (h : g.Formed site.conf) (l : List DaemonMembers)
    (hnodup : (l.map DaemonMembers.procId).Nodup) (htidy : ∀ dmn ∈ l, dmn.Tidy site.conf)
    (hnew : ∀ dmn ∈ l, ∀ y ∈ g.daemons, y.procId ≠ dmn.procId) :
    Grown site g l (l.foldl (addDaemon site) g) := by
  induction l generalizing g with
  | nil =>
      refine ⟨rfl, rfl, rfl, by simp, h, fun dmn hdmn => .inl hdmn, fun _ _ => rfl, ?_⟩
      ext m
      simp [view]
  | cons dmn rest ih =>
      rw [List.map_cons, List.nodup_cons] at hnodup
      have hnone : g.getDaemon site dmn.procId = none :=
        (SkipList.find_eq_none (compareProcIds_total site.conf)).mpr
          (hnew dmn List.mem_cons_self)
      have hcount : g.numMembers + (dmn.members.length : Int) +
          ((g.membersAt site dmn.procId).length : Int) = g.numMembers + dmn.members.length := by
        rw [membersAt_of_none hnone]
        simp
      have hput := h.put (htidy dmn List.mem_cons_self) hcount
      have hformed : (g.addDaemon site dmn).Formed site.conf :=
        ⟨hput.ordered, hput.daemons, hput.count⟩
      have hmem : ∀ y ∈ (g.addDaemon site dmn).daemons, y = dmn ∨ y ∈ g.daemons :=
        fun y hy => SkipList.mem_put hy
      have hat : ∀ procId, (g.addDaemon site dmn).membersAt site procId =
          if dmn.procId = procId then dmn.members else g.membersAt site procId :=
        fun procId => membersAt_putDaemon procId
      have hrest := ih hformed hnodup.2 (fun y hy => htidy y (List.mem_cons_of_mem _ hy))
        fun y hy z hz => by
          rcases hmem z hz with rfl | hz
          · exact fun heq => hnodup.1 (heq ▸ List.mem_map.mpr ⟨y, hy, rfl⟩)
          · exact hnew y (List.mem_cons_of_mem _ hy) z hz
      rw [List.foldl_cons]
      refine ⟨hrest.name, hrest.grpId, hrest.mboxes, ?_, hrest.formed, ?_, ?_, ?_⟩
      · rw [hrest.changed, List.any_cons, ← Bool.or_assoc]
        rfl
      · intro y hy
        rcases hrest.daemons y hy with hy | hy
        · rcases hmem y hy with rfl | hy
          · exact .inr List.mem_cons_self
          · exact .inl hy
        · exact .inr (List.mem_cons_of_mem _ hy)
      · intro procId hprocId
        rw [List.map_cons, List.mem_cons, not_or] at hprocId
        rw [hrest.membersAt procId hprocId.2, hat, if_neg (Ne.symm hprocId.1)]
      · rw [hrest.members]
        ext m
        simp only [view, Set.mem_union, Set.mem_ofPred_eq, hformed.mem_members, h.mem_members, hat,
          List.mem_cons, exists_eq_or_imp]
        constructor
        · rintro (⟨procId, hm⟩ | hm)
          · split at hm
            · exact .inr (.inl hm)
            · exact .inl ⟨procId, hm⟩
          · exact .inr (.inr hm)
        · rintro (⟨procId, hm⟩ | hm | hm)
          · refine .inl ⟨procId, ?_⟩
            rw [if_neg]
            · exact hm
            · rintro rfl
              rw [membersAt_of_none hnone] at hm
              exact List.not_mem_nil hm
          · exact .inl ⟨dmn.procId, by rwa [if_pos rfl]⟩
          · exact .inr hm

theorem Grown.view_eq {g' : Group} {l : List DaemonMembers} {w : View} {changed : Bool}
    (h : Grown site { g with changed := g.changed || changed } l g')
    (hw : w.changed ↔ changed = true)
    (hl : ∀ dmn ∈ l, dmn.membId = w.grpId.membId ∧ dmn.members ≠ []) :
    g'.view = g.view.take w {m | ∃ dmn ∈ l, m ∈ dmn.members} := by
  refine View.ext h.members h.grpId (propext ?_)
  have hany : (l.any fun dmn => dmn.membId ≠ g.grpId.membId) = true ↔
      {m | ∃ dmn ∈ l, m ∈ dmn.members}.Nonempty ∧ g.grpId.membId ≠ w.grpId.membId := by
    simp only [List.any_eq_true, decide_eq_true_eq]
    constructor
    · rintro ⟨dmn, hdmn, hne⟩
      obtain ⟨m, hm⟩ := List.exists_mem_of_ne_nil _ (hl dmn hdmn).2
      exact ⟨⟨m, dmn, hdmn, hm⟩, fun heq => hne ((hl dmn hdmn).1.trans heq.symm)⟩
    · rintro ⟨⟨m, dmn, hdmn, -⟩, hne⟩
      exact ⟨dmn, hdmn, fun heq => hne (heq.symm.trans (hl dmn hdmn).1)⟩
  have hchanged : g'.changed = true ↔ (g.changed = true ∨ changed = true) ∨
      (l.any fun dmn => dmn.membId ≠ g.grpId.membId) = true := by
    rw [h.changed, Bool.or_eq_true, Bool.or_eq_true]
  simp only [view, View.take]
  rw [hchanged, hany, hw, or_assoc]

theorem Whole.grown {g' : Group} {l : List DaemonMembers} (h : g.Whole) (hgrown : Grown site g l g')
    (hknown : ∀ dmn ∈ l, dmn.membId.isUnknown = false) : g'.Whole where
  known := hgrown.grpId ▸ h.known
  daemons := by
    intro dmn hdmn
    rcases hgrown.daemons dmn hdmn with hdmn | hdmn
    · exact h.daemons dmn hdmn
    · exact hknown dmn hdmn
  same := by
    intro hsame dmn hdmn
    rw [hgrown.changed, Bool.or_eq_false_iff] at hsame
    rw [hgrown.grpId]
    rcases hgrown.daemons dmn hdmn with hdmn | hdmn
    · exact h.same hsame.1 dmn hdmn
    · have hne := List.any_eq_false.mp hsame.2 dmn hdmn
      simpa using hne

end Group

/-- What the groups are while messages about `t` are taken, of which `infos` have been. -/
structure Adding (site : Site) (sessions : List Session) (own : List ProcId) (start t : Table)
    (infos : List GroupInfo) (groups : List Group) : Prop where
  ordered : SkipList.Ordered strncmp Group.name groups
  formed : ∀ g ∈ groups, g.Formed site.conf
  here : ∀ g ∈ groups, g.Local site sessions
  whole : ∀ g ∈ groups, g.Whole
  daemons : ∀ g ∈ groups, ∀ dmn ∈ g.daemons,
    dmn.procId ∈ own ∨ (g.name, dmn.procId) ∈ infos.flatMap GroupInfo.keys
  other : ∀ n, (∀ info ∈ infos, info.name ≠ n) → tableOf groups n = start n
  taken : ∀ n w, (∃ info ∈ infos, info.name = n) → t n = some w →
    tableOf groups n =
      some (((start n).getD (.fresh w.grpId)).take w (membersIn infos n))

variable {site : Site} {sessions : List Session} {own procIds : List ProcId} {start t : Table}
  {infos : List GroupInfo} {groups : List Group}

theorem membersIn_append (infos : List GroupInfo) (info : GroupInfo) (n : Str) :
    membersIn (infos ++ [info]) n = membersIn infos n ∪
      {m | info.name = n ∧ ∃ dmn ∈ info.daemons, m ∈ dmn.members} := by
  ext m
  simp only [membersIn, List.mem_append, List.mem_singleton, Set.mem_ofPred_eq, Set.mem_union]
  constructor
  · rintro ⟨y, hy | rfl, h⟩
    · exact .inl ⟨y, hy, h⟩
    · exact .inr h
  · rintro (⟨y, hy, h⟩ | h)
    · exact ⟨y, .inl hy, h⟩
    · exact ⟨info, .inr rfl, h⟩

/-- The group of a message, which may be new. -/
def groupToAdd (groups : List Group) (info : GroupInfo) : Group :=
  (SkipList.find strncmp Group.name info.name groups).getD
    { name := info.name
      grpId := info.grpId
      changed := false
      numMembers := 0
      daemons := []
      mboxes := [] }

theorem groupToAdd_spec (h : Adding site sessions own start t infos groups) {info : GroupInfo}
    (hknown : info.grpId.membId.isUnknown = false) :
    (groupToAdd groups info).name = info.name ∧ (groupToAdd groups info).Formed site.conf ∧
    (groupToAdd groups info).Local site sessions ∧ (groupToAdd groups info).Whole ∧
    (∀ dmn ∈ (groupToAdd groups info).daemons,
      dmn.procId ∈ own ∨ (info.name, dmn.procId) ∈ infos.flatMap GroupInfo.keys) ∧
    (groupToAdd groups info).view = (tableOf groups info.name).getD (.fresh info.grpId) := by
  rw [groupToAdd, tableOf]
  cases hget : SkipList.find strncmp Group.name info.name groups with
  | some g =>
      obtain ⟨hg, hname⟩ := SkipList.mem_of_find strncmp_total hget
      exact ⟨hname, h.formed g hg, h.here g hg, h.whole g hg, hname ▸ h.daemons g hg, rfl⟩
  | none =>
      refine ⟨rfl, ⟨.nil, by simp, rfl⟩, List.Perm.nil, ⟨hknown, by simp, by simp⟩, by simp, ?_⟩
      exact View.ext (by ext m; simp [Group.view, Group.members, View.fresh]) rfl
        (by simp [Group.view, View.fresh])

theorem Adding.add (h : Adding site sessions own start t infos groups) {info : GroupInfo}
    (hmy : site.my.id ∉ procIds) (hapart : ∀ procId ∈ own, procId ∉ procIds)
    (hsaid : Says site.conf t procIds (infos ++ [info])) :
    Adding site sessions own start t (infos ++ [info]) (addGroupInfo site groups info) := by
  have hinfo : info ∈ infos ++ [info] := List.mem_append_right _ (List.mem_singleton_self _)
  have hdaemons := hsaid.daemons info hinfo
  obtain ⟨hknown, w, hw, hwgrp, hwchanged⟩ := hsaid.views info hinfo
  obtain ⟨hname, hformed, hhere, hwhole, hprocs, hview⟩ := groupToAdd_spec h hknown
  have hkeys := hsaid.keys
  rw [List.flatMap_append, List.flatMap_singleton, List.nodup_append] at hkeys
  obtain ⟨-, hnodup, hdisjoint⟩ := hkeys
  have hnodup' : (info.daemons.map DaemonMembers.procId).Nodup := by
    refine List.Nodup.of_map (fun procId => (info.name, procId)) ?_
    rw [List.map_map]
    exact hnodup
  let g₀ : Group :=
    { groupToAdd groups info with changed := (groupToAdd groups info).changed || info.changed }
  have hformed₀ : g₀.Formed site.conf := ⟨hformed.ordered, hformed.daemons, hformed.count⟩
  have hnew : ∀ dmn ∈ info.daemons, ∀ y ∈ g₀.daemons, y.procId ≠ dmn.procId := by
    intro dmn hdmn y hy heq
    rcases hprocs y hy with hy | hy
    · exact hapart _ hy (heq ▸ (hdaemons dmn hdmn).2.2)
    · exact hdisjoint _ hy _ (List.mem_map.mpr ⟨dmn, hdmn, rfl⟩) (by rw [heq])
  have hgrown := hformed₀.grown info.daemons hnodup' (fun dmn hdmn => (hdaemons dmn hdmn).1) hnew
  have hwhole₀ : g₀.Whole := by
    refine ⟨hwhole.known, hwhole.daemons, fun hsame => hwhole.same ?_⟩
    simp only [g₀, Bool.or_eq_false_iff] at hsame
    exact hsame.1
  have hwhole' := hwhole₀.grown hgrown fun dmn hdmn => by
    rw [(hdaemons dmn hdmn).2.1]
    exact hknown
  have hmyAt : site.my.id ∉ info.daemons.map DaemonMembers.procId := fun hmem => by
    obtain ⟨dmn, hdmn, heq⟩ := List.mem_map.mp hmem
    exact hmy (heq ▸ (hdaemons dmn hdmn).2.2)
  have hhere' : (info.daemons.foldl (Group.addDaemon site) g₀).Local site sessions := by
    rw [Group.Local, hgrown.mboxes, hgrown.membersAt _ hmyAt]
    exact hhere
  have hadd : addGroupInfo site groups info =
      SkipList.put strncmp Group.name (info.daemons.foldl (Group.addDaemon site) g₀) groups := rfl
  have htake := hgrown.view_eq (w := w) hwchanged fun dmn hdmn =>
    ⟨(hdaemons dmn hdmn).2.1.trans (congrArg GroupId.membId hwgrp.symm),
      (hdaemons dmn hdmn).1.nonempty⟩
  generalize info.daemons.foldl (Group.addDaemon site) g₀ = g' at hgrown hwhole' hhere' hadd htake
  have hname' : g'.name = info.name := hgrown.name.trans hname
  have htable : tableOf (addGroupInfo site groups info) =
      Function.update (tableOf groups) info.name (some g'.view) := by
    funext n
    rw [hadd, Function.update_apply, tableOf]
    by_cases heq : n = info.name
    · rw [if_pos heq, heq, ← hname', SkipList.find_put_self strncmp_total]
      rfl
    · rw [if_neg heq, SkipList.find_put_of_ne strncmp_total (fun h => heq (h.symm.trans hname'))]
      rfl
  constructor
  case ordered => exact hadd ▸ h.ordered.put strncmp_total
  case formed =>
    intro g hg
    rcases SkipList.mem_put (hadd ▸ hg) with rfl | hg
    · exact hgrown.formed
    · exact h.formed g hg
  case here =>
    intro g hg
    rcases SkipList.mem_put (hadd ▸ hg) with rfl | hg
    · exact hhere'
    · exact h.here g hg
  case whole =>
    intro g hg
    rcases SkipList.mem_put (hadd ▸ hg) with rfl | hg
    · exact hwhole'
    · exact h.whole g hg
  case daemons =>
    intro g hg dmn hdmn
    rw [List.flatMap_append, List.flatMap_singleton, List.mem_append]
    rcases SkipList.mem_put (hadd ▸ hg) with rfl | hg
    · rw [hname']
      rcases hgrown.daemons dmn hdmn with hdmn | hdmn
      · exact (hprocs dmn hdmn).imp_right .inl
      · exact .inr (.inr (List.mem_map.mpr ⟨dmn, hdmn, rfl⟩))
    · exact (h.daemons g hg dmn hdmn).imp_right .inl
  case other =>
    intro n hn
    rw [htable, Function.update_of_ne (Ne.symm (hn info hinfo))]
    exact h.other n fun y hy => hn y (List.mem_append_left _ hy)
  case taken =>
    intro n w' hex hw'
    rw [htable, membersIn_append]
    by_cases heq : n = info.name
    · subst heq
      obtain rfl := Option.some.inj (hw'.symm.trans hw)
      have hlist : {m | info.name = info.name ∧ ∃ dmn ∈ info.daemons, m ∈ dmn.members} =
          {m | ∃ dmn ∈ info.daemons, m ∈ dmn.members} := by
        ext m
        simp
      rw [Function.update_self, hlist, ← View.take_take, htake, hview]
      by_cases hold : ∃ y ∈ infos, y.name = info.name
      · rw [h.taken info.name w' hold hw', Option.getD_some]
      · have hfresh : tableOf groups info.name = start info.name :=
          h.other info.name fun y hy hyn => hold ⟨y, hy, hyn⟩
        have hempty : membersIn infos info.name = ∅ := by
          ext m
          simp only [membersIn, Set.mem_ofPred_eq, Set.mem_empty_iff_false, iff_false]
          rintro ⟨y, hy, hyn, -⟩
          exact hold ⟨y, hy, hyn⟩
        rw [hfresh, hempty, View.take_take, Set.empty_union, hwgrp]
    · have hex' : ∃ y ∈ infos, y.name = n := by
        obtain ⟨y, hy, hyn⟩ := hex
        rcases List.mem_append.mp hy with hy | hy
        · exact ⟨y, hy, hyn⟩
        · rw [List.mem_singleton.mp hy] at hyn
          exact absurd hyn.symm heq
      have hsame : {m | info.name = n ∧ ∃ dmn ∈ info.daemons, m ∈ dmn.members} = ∅ := by
        ext m
        simp [Ne.symm heq]
      rw [Function.update_of_ne heq, hsame, Set.union_empty]
      exact h.taken n w' hex' hw'

theorem Adding.addAll {rest : List GroupInfo} (h : Adding site sessions own start t infos groups)
    (hmy : site.my.id ∉ procIds) (hapart : ∀ procId ∈ own, procId ∉ procIds)
    (hsaid : Says site.conf t procIds (infos ++ rest)) :
    Adding site sessions own start t (infos ++ rest) (rest.foldl (addGroupInfo site) groups) := by
  induction rest generalizing infos groups with
  | nil => rwa [List.append_nil]
  | cons info rest ih =>
      rw [List.append_cons] at hsaid ⊢
      exact ih (h.add hmy hapart hsaid.left) hsaid

/-- The groups of a daemon that takes messages are of the daemons `procIds`. -/
structure Gathering (site : Site) (sessions : List Session) (procIds : List ProcId)
    (groups : List Group) : Prop where
  ordered : SkipList.Ordered strncmp Group.name groups
  tidy : ∀ g ∈ groups, g.Tidy site sessions
  whole : ∀ g ∈ groups, g.Whole
  daemons : ∀ g ∈ groups, ∀ dmn ∈ g.daemons, dmn.procId ∈ procIds

theorem Gathering.nonempty (h : Gathering site sessions own groups) {n : Str} {v : View}
    (hv : tableOf groups n = some v) : v.members.Nonempty := by
  obtain ⟨g, hget, rfl⟩ := Option.map_eq_some_iff.mp hv
  have htidy := h.tidy g (SkipList.mem_of_find strncmp_total hget).1
  exact Set.nonempty_iff_ne_empty.mpr (htidy.formed.members_ne_empty htidy.nonempty)

theorem Gathering.adding (h : Gathering site sessions own groups) :
    Adding site sessions own (tableOf groups) t [] groups where
  ordered := h.ordered
  formed := fun g hg => (h.tidy g hg).formed
  here := fun g hg => (h.tidy g hg).here
  whole := h.whole
  daemons := fun g hg dmn hdmn => .inl (h.daemons g hg dmn hdmn)
  other := fun _ _ => rfl
  taken := fun _ _ hex => absurd hex (by simp)

/-- All that a table says has been taken. -/
theorem Adding.table_eq (h : Adding site sessions own start t infos groups)
    (hcovers : Covers site.conf t procIds infos) : tableOf groups = start.merge t := by
  funext n
  rw [Table.merge]
  cases hw : t n with
  | none =>
      rw [h.other n]
      · cases start n <;> rfl
      · rintro info hinfo rfl
        obtain ⟨-, v, hv, -⟩ := hcovers.views info hinfo
        rw [hw] at hv
        cases hv
  | some w =>
      obtain ⟨hmembers, hne⟩ := hcovers.members n w hw
      have hex : ∃ info ∈ infos, info.name = n := by
        obtain ⟨m, hm⟩ := hmembers ▸ hne
        obtain ⟨info, hinfo, hname, -⟩ := hm
        exact ⟨info, hinfo, hname⟩
      rw [h.taken n w hex hw, ← hmembers]
      cases start n with
      | none => exact congrArg some (View.fresh_take w)
      | some v => exact congrArg some (View.take_members hne)

/-- Messages that cover a table are taken: the table is merged. -/
theorem Gathering.take (h : Gathering site sessions own groups) (hmy : site.my.id ∉ procIds)
    (hapart : ∀ procId ∈ own, procId ∉ procIds) (hcovers : Covers site.conf t procIds infos) :
    Gathering site sessions (own ++ procIds) (infos.foldl (addGroupInfo site) groups) ∧
    tableOf (infos.foldl (addGroupInfo site) groups) = (tableOf groups).merge t := by
  have hadding := (h.adding (t := t)).addAll hmy hapart hcovers.toSays
  rw [List.nil_append] at hadding
  have htable := hadding.table_eq hcovers
  refine ⟨⟨hadding.ordered, fun g hg => ⟨hadding.formed g hg, ?_, hadding.here g hg⟩,
    hadding.whole, ?_⟩, htable⟩
  · have hview : tableOf (infos.foldl (addGroupInfo site) groups) g.name = some g.view := by
      rw [tableOf, hadding.ordered.find_of_mem strncmp_total hg]
      rfl
    have hne : g.view.members.Nonempty := by
      rw [htable, Table.merge] at hview
      split at hview
      · rename_i v w hv hw
        rw [← Option.some.inj hview]
        exact (h.nonempty hv).inl
      · rename_i v hv hw
        rw [← Option.some.inj hview]
        exact h.nonempty hv
      · exact (hcovers.members _ _ hview).2
    intro hnil
    obtain ⟨m, hm⟩ := hne
    simp [Group.view, Group.members, hnil] at hm
  · intro g hg dmn hdmn
    rcases hadding.daemons g hg dmn hdmn with hown | hkey
    · exact List.mem_append_left _ hown
    · obtain ⟨info, hinfo, hmem⟩ := List.mem_flatMap.mp hkey
      obtain ⟨y, hy, heq⟩ := List.mem_map.mp hmem
      rw [← (Prod.mk.inj heq).2]
      exact List.mem_append_right _ (hcovers.daemons info hinfo y hy).2.2

end Netbroker.Groups
