import Mathlib.Algebra.Order.BigOperators.Group.List
import Mathlib.Algebra.Order.Ring.Int
import Mathlib.Data.List.Pairwise

/-!
# Ordered lists over a comparison

A skip list holds elements in the order of a comparison of their keys, no two of them equal.
What its levels speed up is not part of the model: an insertion goes to the place that the
comparison gives and overwrites an element of the same key there.

What an operation makes of a list is said by its members, by what `find` answers, and by the
order. Lists in order that answer alike are equal. `Total` is all that is asked of the
comparison.
-/

namespace SkipList

universe u v

/-- The sign of a comparison orders the keys. -/
structure Total {κ : Type u} (cmp : κ → κ → Int) : Prop where
  eq_iff : ∀ a b, cmp a b = 0 ↔ a = b
  swap : ∀ a b, cmp a b < 0 ↔ 0 < cmp b a
  trans : ∀ a b c, cmp a b < 0 → cmp b c < 0 → cmp a c < 0

variable {κ : Type u} {α : Type v} {cmp : κ → κ → Int} {key : α → κ}

def find (cmp : κ → κ → Int) (key : α → κ) (k : κ) (l : List α) : Option α :=
  l.find? fun y => cmp (key y) k = 0

def put (cmp : κ → κ → Int) (key : α → κ) (x : α) : List α → List α
  | [] => [x]
  | y :: rest =>
      if cmp (key x) (key y) < 0 then x :: y :: rest
      else if cmp (key x) (key y) = 0 then x :: rest
      else y :: put cmp key x rest

def erase (cmp : κ → κ → Int) (key : α → κ) (k : κ) (l : List α) : List α :=
  l.filter fun y => cmp (key y) k ≠ 0

/-- No two elements have one key, and they stand in its order. -/
def Ordered (cmp : κ → κ → Int) (key : α → κ) (l : List α) : Prop :=
  l.Pairwise fun x y => cmp (key x) (key y) < 0

namespace Total

variable (h : Total cmp)
include h

theorem self (a : κ) : cmp a a = 0 := (h.eq_iff a a).mpr rfl

theorem ne_of_neg {a b : κ} (hab : cmp a b < 0) : a ≠ b := by
  rintro rfl
  rw [h.self] at hab
  omega

theorem neg_of_not {a b : κ} (hlt : ¬ cmp a b < 0) (hne : cmp a b ≠ 0) : cmp b a < 0 := by
  rw [h.swap]
  omega

end Total

section Members

variable (h : Total cmp) {l : List α} {x y : α} {k : κ}
include h

omit h in
theorem mem_put : y ∈ put cmp key x l → y = x ∨ y ∈ l := by
  induction l with
  | nil => exact fun hy => .inl (List.mem_singleton.mp hy)
  | cons z rest ih =>
      intro hy
      rw [put] at hy
      split at hy
      · exact List.mem_cons.mp hy
      · split at hy
        · exact (List.mem_cons.mp hy).imp_right (List.mem_cons_of_mem _)
        · rcases List.mem_cons.mp hy with rfl | hy
          · exact .inr List.mem_cons_self
          · exact (ih hy).imp_right (List.mem_cons_of_mem _)

theorem find_put_self : find cmp key (key x) (put cmp key x l) = some x := by
  induction l with
  | nil => simp [find, put, h.self]
  | cons z rest ih =>
      rw [put]
      split
      · simp [find, h.self]
      · split
        · simp [find, h.self]
        · rename_i hne
          have hne' : ¬ cmp (key z) (key x) = 0 := fun heq =>
            hne ((h.eq_iff _ _).mpr ((h.eq_iff _ _).mp heq).symm)
          rw [find, List.find?_cons_of_neg (by simpa using hne')]
          exact ih

theorem find_put_of_ne (hk : key x ≠ k) :
    find cmp key k (put cmp key x l) = find cmp key k l := by
  have hx : ¬ cmp (key x) k = 0 := fun heq => hk ((h.eq_iff _ _).mp heq)
  induction l with
  | nil => simp [find, put, hx]
  | cons z rest ih =>
      rw [put]
      split
      · rw [find, List.find?_cons_of_neg (by simpa using hx)]
        rfl
      · split
        · rename_i heq
          rw [(h.eq_iff _ _).mp heq] at hx
          rw [find, find, List.find?_cons_of_neg (by simpa [(h.eq_iff _ _).mp heq] using hx),
            List.find?_cons_of_neg (by simpa using hx)]
        · by_cases hz : cmp (key z) k = 0
          · rw [find, find, List.find?_cons_of_pos (by simpa using hz),
              List.find?_cons_of_pos (by simpa using hz)]
          · rw [find, find, List.find?_cons_of_neg (by simpa using hz),
              List.find?_cons_of_neg (by simpa using hz)]
            exact ih

theorem mem_of_find (hfind : find cmp key k l = some x) : x ∈ l ∧ key x = k := by
  have hkey := List.find?_some hfind
  exact ⟨List.mem_of_find?_eq_some hfind, (h.eq_iff _ _).mp (by simpa using hkey)⟩

theorem find_eq_none : find cmp key k l = none ↔ ∀ y ∈ l, key y ≠ k := by
  rw [find, List.find?_eq_none]
  simp [h.eq_iff]

end Members

section Map

variable {β : Type v} {key' : β → κ} {l : List α} {f : α → β}

/-- Elements are copied with their keys. -/
theorem find_map (hf : ∀ y, key' (f y) = key y) (k : κ) :
    find cmp key' k (l.map f) = (find cmp key k l).map f := by
  rw [find, find, List.find?_map]
  congr 2
  funext y
  simp [hf]

end Map

section Ordered

variable (h : Total cmp) {l : List α} {x y : α} {k : κ}

theorem Ordered.nil : Ordered cmp key ([] : List α) := List.Pairwise.nil

include h

theorem Ordered.put (hl : Ordered cmp key l) : Ordered cmp key (put cmp key x l) := by
  induction l with
  | nil => exact List.pairwise_singleton _ _
  | cons z rest ih =>
      obtain ⟨hz, hrest⟩ := List.pairwise_cons.mp hl
      rw [SkipList.put]
      split
      · rename_i hlt
        refine List.pairwise_cons.mpr ⟨fun y hy => ?_, hl⟩
        rcases List.mem_cons.mp hy with rfl | hy
        · exact hlt
        · exact h.trans _ _ _ hlt (hz y hy)
      · rename_i hnlt
        split
        · rename_i heq
          have hkey := (h.eq_iff _ _).mp heq
          refine List.pairwise_cons.mpr ⟨fun y hy => ?_, hrest⟩
          rw [hkey]
          exact hz y hy
        · rename_i hne
          have hgt := h.neg_of_not hnlt hne
          refine List.pairwise_cons.mpr ⟨fun y hy => ?_, ih hrest⟩
          rcases mem_put hy with rfl | hy
          · exact hgt
          · exact hz y hy

omit h in
theorem Ordered.erase (hl : Ordered cmp key l) : Ordered cmp key (erase cmp key k l) :=
  List.Pairwise.filter _ hl

omit h in
theorem Ordered.filter (hl : Ordered cmp key l) (p : α → Bool) : Ordered cmp key (l.filter p) :=
  List.Pairwise.filter _ hl

omit h in
/-- Elements change, their keys do not. -/
theorem Ordered.map (hl : Ordered cmp key l) {f : α → α} (hf : ∀ y, key (f y) = key y) :
    Ordered cmp key (l.map f) := by
  rw [Ordered, List.pairwise_map]
  refine List.Pairwise.imp (fun {a b} hab => ?_) hl
  rw [hf, hf]
  exact hab

/-- The element of a key is found. -/
theorem Ordered.find_of_mem (hl : Ordered cmp key l) (hx : x ∈ l) :
    find cmp key (key x) l = some x := by
  induction l with
  | nil => exact absurd hx List.not_mem_nil
  | cons z rest ih =>
      obtain ⟨hz, hrest⟩ := List.pairwise_cons.mp hl
      rcases List.mem_cons.mp hx with rfl | hx
      · rw [find, List.find?_cons_of_pos (by simp [h.self])]
      · have hne := h.ne_of_neg (hz x hx)
        have hneg : ¬ cmp (key z) (key x) = 0 := fun heq => hne ((h.eq_iff _ _).mp heq)
        rw [find, List.find?_cons_of_neg (by simpa using hneg)]
        exact ih hrest hx

theorem Ordered.unique (hl : Ordered cmp key l) (hx : x ∈ l) (hy : y ∈ l) (hkey : key x = key y) :
    x = y := by
  have hfound := hl.find_of_mem h hx
  rw [hkey, hl.find_of_mem h hy] at hfound
  exact (Option.some.inj hfound).symm

/-- Ordered lists with the same elements are the same. -/
theorem Ordered.ext {l' : List α} (hl : Ordered cmp key l) (hl' : Ordered cmp key l')
    (hmem : ∀ y, y ∈ l ↔ y ∈ l') : l = l' := by
  have hnodup : ∀ {m : List α}, Ordered cmp key m → m.Nodup := fun hm =>
    List.Pairwise.imp (fun {a b} hab heq => h.ne_of_neg hab (congrArg key heq)) hm
  refine List.Perm.eq_of_pairwise (fun a b _ _ hab hba => ?_) hl hl'
    ((List.perm_ext_iff_of_nodup (hnodup hl) (hnodup hl')).mpr hmem)
  have hgt := (h.swap _ _).mp hab
  omega

theorem Ordered.ext_find {l' : List α} (hl : Ordered cmp key l) (hl' : Ordered cmp key l')
    (hfind : ∀ k, find cmp key k l = find cmp key k l') : l = l' := by
  refine hl.ext h hl' fun y => ⟨fun hy => ?_, fun hy => ?_⟩
  · have hfound := hl.find_of_mem h hy
    rw [hfind] at hfound
    exact (mem_of_find h hfound).1
  · have hfound := hl'.find_of_mem h hy
    rw [← hfind] at hfound
    exact (mem_of_find h hfound).1

theorem find_erase_self : find cmp key k (erase cmp key k l) = none := by
  rw [find_eq_none h]
  intro y hy heq
  simp [erase, heq, h.self] at hy

theorem find_erase_of_ne {k' : κ} (hk : k' ≠ k) :
    find cmp key k' (erase cmp key k l) = find cmp key k' l := by
  induction l with
  | nil => rfl
  | cons z rest ih =>
      by_cases hz : cmp (key z) k = 0
      · have hzk := (h.eq_iff _ _).mp hz
        have hne : ¬ cmp (key z) k' = 0 := fun heq => hk (((h.eq_iff _ _).mp heq).symm.trans hzk)
        rw [erase, List.filter_cons_of_neg (by simpa using hz), find, find,
          List.find?_cons_of_neg (by simpa using hne)]
        exact ih
      · rw [erase, List.filter_cons_of_pos (by simpa using hz)]
        by_cases hz' : cmp (key z) k' = 0
        · rw [find, find, List.find?_cons_of_pos (by simpa using hz'),
            List.find?_cons_of_pos (by simpa using hz')]
        · rw [find, find, List.find?_cons_of_neg (by simpa using hz'),
            List.find?_cons_of_neg (by simpa using hz')]
          exact ih

/-- What is put in is erased with what it has replaced. -/
theorem erase_put : erase cmp key (key x) (SkipList.put cmp key x l) = erase cmp key (key x) l := by
  have hself : ¬ cmp (key x) (key x) ≠ 0 := fun hne => hne (h.self _)
  induction l with
  | nil => simp [SkipList.put, SkipList.erase, h.self]
  | cons z rest ih =>
      rw [SkipList.put]
      split
      · rw [SkipList.erase, List.filter_cons_of_neg (by simpa using hself)]
        rfl
      · split
        · rename_i heq
          rw [(h.eq_iff _ _).mp heq]
          simp [SkipList.erase, h.self, heq]
        · by_cases hz : cmp (key z) (key x) = 0
          · rw [SkipList.erase, SkipList.erase, List.filter_cons_of_neg (by simpa using hz),
              List.filter_cons_of_neg (by simpa using hz)]
            exact ih
          · rw [SkipList.erase, SkipList.erase, List.filter_cons_of_pos (by simpa using hz),
              List.filter_cons_of_pos (by simpa using hz)]
            exact congrArg (z :: ·) ih

/-- An inserted element takes the place of the one with its key. -/
theorem Ordered.sum_put (hl : Ordered cmp key l) (f : α → Int) :
    ((SkipList.put cmp key x l).map f).sum + ((find cmp key (key x) l).map f).getD 0 =
      (l.map f).sum + f x := by
  induction l with
  | nil => simp [SkipList.put, find]
  | cons z rest ih =>
      obtain ⟨hz, hrest⟩ := List.pairwise_cons.mp hl
      rw [SkipList.put]
      split
      · rename_i hlt
        have hnone : find cmp key (key x) (z :: rest) = none := by
          rw [find_eq_none h]
          intro y hy heq
          rcases List.mem_cons.mp hy with rfl | hy
          · exact h.ne_of_neg hlt heq.symm
          · exact h.ne_of_neg (h.trans _ _ _ hlt (hz y hy)) heq.symm
        simp [hnone]
        omega
      · split
        · rename_i heq
          have hkey := (h.eq_iff _ _).mp heq
          have hfound : find cmp key (key x) (z :: rest) = some z := by
            simp [find, hkey, h.self]
          simp [hfound]
          omega
        · rename_i hne
          have hne' : ¬ cmp (key z) (key x) = 0 := fun heq =>
            hne ((h.eq_iff _ _).mpr ((h.eq_iff _ _).mp heq).symm)
          have hskip : find cmp key (key x) (z :: rest) = find cmp key (key x) rest := by
            simp [find, hne']
          have hsum := ih hrest
          rw [hskip]
          simp only [List.map_cons, List.sum_cons]
          omega

theorem Ordered.sum_erase (hl : Ordered cmp key l) (f : α → Int) :
    ((SkipList.erase cmp key k l).map f).sum + ((find cmp key k l).map f).getD 0 =
      (l.map f).sum := by
  induction l with
  | nil => simp [SkipList.erase, find]
  | cons z rest ih =>
      obtain ⟨hz, hrest⟩ := List.pairwise_cons.mp hl
      by_cases hzk : cmp (key z) k = 0
      · have hkey := (h.eq_iff _ _).mp hzk
        have hkeep : SkipList.erase cmp key k rest = rest := by
          rw [SkipList.erase, List.filter_eq_self]
          intro y hy
          have hne := h.ne_of_neg (hz y hy)
          rw [hkey] at hne
          simpa [h.eq_iff] using fun heq => hne heq.symm
        have hfound : find cmp key k (z :: rest) = some z := by simp [find, hzk]
        rw [hfound, SkipList.erase, List.filter_cons_of_neg (by simpa using hzk)]
        rw [SkipList.erase] at hkeep
        rw [hkeep]
        simp
        omega
      · have hskip : find cmp key k (z :: rest) = find cmp key k rest := by simp [find, hzk]
        have hsum := ih hrest
        rw [hskip, SkipList.erase, List.filter_cons_of_pos (by simpa using hzk)]
        rw [SkipList.erase] at hsum
        simp only [List.map_cons, List.sum_cons]
        omega

omit h in
/-- A new key adds an element. -/
theorem perm_put (hnew : ∀ y ∈ l, cmp (key x) (key y) ≠ 0) :
    (SkipList.put cmp key x l).Perm (x :: l) := by
  induction l with
  | nil => exact List.Perm.refl _
  | cons z rest ih =>
      rw [SkipList.put]
      split
      · exact List.Perm.refl _
      · rw [if_neg (hnew z List.mem_cons_self)]
        have hrest := ih fun y hy => hnew y (List.mem_cons_of_mem _ hy)
        exact (hrest.cons z).trans (List.Perm.swap ..)

theorem Ordered.perm_erase (hl : Ordered cmp key l) (hfind : find cmp key k l = some x) :
    (x :: SkipList.erase cmp key k l).Perm l := by
  induction l with
  | nil => cases hfind
  | cons z rest ih =>
      obtain ⟨hz, hrest⟩ := List.pairwise_cons.mp hl
      by_cases hzk : cmp (key z) k = 0
      · have hkey := (h.eq_iff _ _).mp hzk
        have hfound : find cmp key k (z :: rest) = some z := by simp [find, hzk]
        obtain rfl := Option.some.inj (hfound.symm.trans hfind)
        have hkeep : SkipList.erase cmp key k rest = rest := by
          rw [SkipList.erase, List.filter_eq_self]
          intro y hy
          have hne := h.ne_of_neg (hz y hy)
          rw [hkey] at hne
          simpa [h.eq_iff] using fun heq => hne heq.symm
        rw [SkipList.erase, List.filter_cons_of_neg (by simpa using hzk)]
        rw [SkipList.erase] at hkeep
        rw [hkeep]
      · have hskip : find cmp key k (z :: rest) = find cmp key k rest := by simp [find, hzk]
        rw [hskip] at hfind
        rw [SkipList.erase, List.filter_cons_of_pos (by simpa using hzk)]
        exact (List.Perm.swap ..).trans ((ih hrest hfind).cons z)

end Ordered

end SkipList
