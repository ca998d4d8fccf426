import Mathlib.Data.Set.Lattice
import Netbroker.Groups.Basic

/-!
# What is known of groups

A table says what a daemon knows: for each group its members, its identifier, and whether it
has changed since its last regular membership. Where a group has changed its identifier will
be replaced, so that tables that differ only there are alike.

The tables of daemons that have been apart are merged. When no two of them hold an unchanged
group under one membership the order of the merge does not matter.

A view is one group of a table. Merging two views and settling one are functions, and so they
are on tables, group by group; `Alike` and `Apart` are the relations that merging respects and
needs.
-/

namespace Netbroker.Groups

open Spread

@[ext]
structure View where
  members : Set Str
  grpId : GroupId
  changed : Prop

abbrev Table := Str → Option View

namespace View

variable {v w : View} {here : Set Str}

def next (id : GroupId) : GroupId := { id with index := id.index + 1 }

/-- The first identifier in a membership. -/
def first (membId : MembershipId) : GroupId := { membId, index := 1 }

def add (v : View) (m : Str) (changes : Prop) : View :=
  { members := insert m v.members, grpId := next v.grpId, changed := v.changed ∨ changes }

open Classical in
/-- The group without a member; it goes away with its last one. -/
noncomputable def without (m : Str) (v : View) : Option View :=
  if m ∉ v.members then some v
  else if v.members \ {m} = ∅ then none
  else some { v with members := v.members \ {m}, grpId := next v.grpId }

open Classical in
/-- A group with members that have been cut off gets an identifier of its own. -/
noncomputable def cut (here : Set Str) (membId : MembershipId) (v : View) : View :=
  if v.members ⊆ here then v else { v with grpId := first membId, changed := True }

open Classical in
/-- The members that are here stay. -/
noncomputable def stay (here : Set Str) (v : View) : Option View :=
  if v.members ∩ here = ∅ then none else some { v with members := v.members ∩ here }

open Classical in
/-- A group that has changed gets an identifier of the new membership. -/
noncomputable def settle (membId : MembershipId) (v : View) : View :=
  if v.changed then { v with grpId := first membId, changed := False } else v

@[simp]
theorem settle_members (membId : MembershipId) (v : View) :
    (v.settle membId).members = v.members := by
  rw [settle]
  split
  · rfl
  · rfl

def merge (v w : View) : View :=
  { members := v.members ∪ w.members
    grpId := v.grpId
    changed := v.changed ∨ w.changed ∨ v.grpId.membId ≠ w.grpId.membId }

/-- The identifiers of groups that have changed do not matter. -/
structure Alike (v w : View) : Prop where
  members : v.members = w.members
  changed : v.changed ↔ w.changed
  grpId : ¬ v.changed → v.grpId = w.grpId

theorem Alike.refl (v : View) : Alike v v := ⟨rfl, Iff.rfl, fun _ => rfl⟩

theorem Alike.trans {u : View} (h : Alike u v) (h' : Alike v w) : Alike u w :=
  ⟨h.members.trans h'.members, h.changed.trans h'.changed,
    fun hu => (h.grpId hu).trans (h'.grpId (mt h.changed.mpr hu))⟩

theorem Alike.merge (h : Alike v w) (u : View) : Alike (v.merge u) (w.merge u) where
  members := congrArg (· ∪ u.members) h.members
  changed := by
    simp only [View.merge]
    by_cases hv : v.changed
    · simp [hv, h.changed.mp hv]
    · rw [h.grpId hv, h.changed]
  grpId := fun hu => h.grpId fun hv => hu (.inl hv)

/-- Groups that are alike settle the same. -/
theorem Alike.settle (h : Alike v w) (membId : MembershipId) :
    v.settle membId = w.settle membId := by
  rw [View.settle, View.settle]
  by_cases hv : v.changed
  · rw [if_pos hv, if_pos (h.changed.mp hv), h.members]
  · rw [if_neg hv, if_neg (mt h.changed.mpr hv)]
    exact View.ext h.members (h.grpId hv) (propext h.changed)

/-- Two groups that are not unchanged under one membership. -/
def Apart (v w : View) : Prop := ¬ v.changed → ¬ w.changed → v.grpId.membId ≠ w.grpId.membId

theorem Apart.symm (h : Apart v w) : Apart w v := fun hw hv => (h hv hw).symm

theorem Apart.merge_changed (h : Apart v w) : (v.merge w).changed := by
  simp only [View.merge]
  by_cases hv : v.changed
  · exact .inl hv
  · by_cases hw : w.changed
    · exact .inr (.inl hw)
    · exact .inr (.inr (h hv hw))

theorem Apart.merge_comm (h : Apart v w) : Alike (v.merge w) (w.merge v) where
  members := Set.union_comm ..
  changed := iff_of_true h.merge_changed h.symm.merge_changed
  grpId := fun hvw => absurd h.merge_changed hvw

theorem merge_right_comm (u v w : View) : (u.merge v).merge w = (u.merge w).merge v := by
  ext m
  · simp only [merge, Set.mem_union]
    tauto
  · rfl
  · simp only [merge]
    tauto

end View

namespace Table

/-- The groups change one by one. -/
def bind (t : Table) (f : View → Option View) : Table := fun n => (t n).bind f

def map (t : Table) (f : View → View) : Table := fun n => (t n).map f

/-- A member joins a group, or a new one. -/
noncomputable def join (t : Table) (current : MembershipId) (m n : Str) (changes : Prop) : Table :=
  open Classical in
  let v := (t n).getD { members := ∅, grpId := { membId := current, index := 0 }, changed := False }
  if m ∈ v.members then t else Function.update t n (some (v.add m changes))

noncomputable def leave (t : Table) (m n : Str) : Table :=
  Function.update t n ((t n).bind (View.without m))

noncomputable def kill (t : Table) (m : Str) : Table := t.bind (View.without m)

def merge (t u : Table) : Table := fun n =>
  match t n, u n with
  | some v, some w => some (v.merge w)
  | some v, none => some v
  | none, w => w

def Alike (t u : Table) : Prop := ∀ n, Option.Rel View.Alike (t n) (u n)

def Apart (t u : Table) : Prop := ∀ n, ∀ v ∈ t n, ∀ w ∈ u n, v.Apart w

variable {t u : Table}

theorem Alike.refl (t : Table) : Alike t t := by
  intro n
  cases t n with
  | none => exact .none
  | some v => exact .some (.refl v)

theorem Alike.trans {s : Table} (h : Alike s t) (h' : Alike t u) : Alike s u := by
  intro n
  have hn := h n
  have hn' := h' n
  generalize s n = a at hn
  generalize t n = b at hn hn'
  generalize u n = c at hn'
  cases hn with
  | none => cases hn'; exact .none
  | some hvw => cases hn' with | some hwx => exact .some (hvw.trans hwx)

theorem Alike.merge (h : Alike t u) (s : Table) : Alike (t.merge s) (u.merge s) := by
  intro n
  have hn := h n
  simp only [Table.merge]
  generalize t n = a at hn ⊢
  generalize u n = b at hn ⊢
  cases hn with
  | none => exact Alike.refl s n
  | some hvw =>
      cases s n with
      | none => exact .some hvw
      | some w => exact .some (hvw.merge w)

theorem Apart.symm (h : Apart t u) : Apart u t := fun n v hv w hw => (h n w hw v hv).symm

theorem merge_right_comm {s : Table} (h : Apart t u) :
    Alike ((s.merge t).merge u) ((s.merge u).merge t) := by
  intro n
  have hn := h n
  simp only [merge]
  cases s n with
  | none =>
      cases ht : t n with
      | none => cases u n <;> exact Alike.refl (fun _ => _) n
      | some v =>
          cases hu : u n with
          | none => exact .some (.refl v)
          | some w => exact .some (View.Apart.merge_comm (hn v ht w hu))
  | some v =>
      cases t n with
      | none => cases u n <;> exact .some (.refl _)
      | some w =>
          cases u n with
          | none => exact .some (.refl _)
          | some x =>
              simp only [View.merge_right_comm v w x]
              exact .some (.refl _)

/-- All tables are merged, from the left. -/
def mergeAll (l : List Table) : Table := l.foldl merge fun _ => none

theorem Alike.foldl (h : Alike t u) (l : List Table) :
    Alike (l.foldl Table.merge t) (l.foldl Table.merge u) := by
  induction l generalizing t u with
  | nil => exact h
  | cons s rest ih => exact ih (h.merge s)

/-- Tables that are apart are merged in any order. -/
theorem mergeAll_perm {l l' : List Table} (hl : l.Pairwise Apart) (hperm : l.Perm l') :
    Alike (mergeAll l) (mergeAll l') := by
  have hfold : ∀ t, Alike (l.foldl merge t) (l'.foldl merge t) := by
    induction hperm with
    | nil => exact .refl
    | cons s _ ih => exact fun t => ih hl.of_cons (t.merge s)
    | swap s s' rest =>
        intro t
        have happart : Apart s' s := List.rel_of_pairwise_cons hl List.mem_cons_self
        exact (merge_right_comm happart).foldl rest
    | trans hperm _ ih ih' =>
        have hmid := (hperm.pairwise_iff fun h => h.symm).mp hl
        exact fun t => (ih hl t).trans (ih' hmid t)
  exact hfold _

/-- Tables that are apart are merged in any order, but for what settles. -/
theorem mergeAll_settle {l l' : List Table} (hl : l.Pairwise Apart) (hperm : l.Perm l')
    (membId : MembershipId) :
    (mergeAll l).map (View.settle membId) = (mergeAll l').map (View.settle membId) := by
  funext n
  have halike := mergeAll_perm hl hperm n
  simp only [map]
  generalize mergeAll l n = a at halike ⊢
  generalize mergeAll l' n = b at halike ⊢
  cases halike with
  | none => rfl
  | some hvw => exact congrArg some (hvw.settle membId)

end Table

end Netbroker.Groups
