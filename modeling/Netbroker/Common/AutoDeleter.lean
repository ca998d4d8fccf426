import Mathlib.Data.Set.Card
import Mathlib.Tactic.Ring
import Netbroker.Transition.Machine

/-!
# Handles that delete

An `AutoDeleter` points to an object and to a counter of the handles that share it, and
deletes both when the counter comes down to 0. The default constructor leaves the pointer to
the counter as the memory had it.

Objects and counters are cells of an explicit heap, handed out once each. A use of a
pointer that is null, wild or to a deleted counter has no meaning; nothing is said about the
state behind it.

A call adds a handle without a counter, one with a counter of its own or one that shares, or
it takes a handle away. Each of these changes keeps `Paired`, the invariant under which
handles have a counter in common exactly when they have an object in common, and the calls are
put together from them.
-/

namespace Netbroker

open Transition

/-- The name of an object behind a handle; it is not used again. -/
abbrev OwnedId := Nat

/-- The address of a counter; it is not used again. -/
abbrev CounterId := Nat

/-- The memory of a handle. -/
abbrev HandleId := Nat

/-- What `pCnt` may hold; `wild` is an address at which there has never been a counter. -/
inductive CounterPointer where
  | null
  | cell (c : CounterId)
  | wild
  deriving DecidableEq, Repr

structure AutoDeleter where
  pObject : Option OwnedId
  pCnt : CounterPointer
  deriving DecidableEq, Repr

/-- The live handles, the counters and the objects. -/
structure AutoHeap where
  handles : HandleId → Option AutoDeleter
  counters : CounterId → Option Int
  nextCounter : CounterId
  /-- How often an object has been deleted. -/
  deletions : OwnedId → Nat
  nextObject : OwnedId

inductive AutoEvent where
  /-- `memory` is what the handle's `pCnt` held before. -/
  | default (h : HandleId) (memory : CounterPointer)
  | fresh (h : HandleId)
  | copy (h right : HandleId)
  | assignFresh (h : HandleId)
  | assign (h right : HandleId)
  | destroy (h : HandleId)
  deriving DecidableEq, Repr

inductive AutoResult where
  | done
  /-- The step has no meaning. -/
  | undefined
  deriving DecidableEq, Repr

namespace AutoHeap

def empty : AutoHeap :=
  { handles := fun _ => none, counters := fun _ => none, nextCounter := 0
    deletions := fun _ => 0, nextObject := 0 }

def setHandle (x : AutoHeap) (h : HandleId) (a : Option AutoDeleter) : AutoHeap :=
  { x with handles := Function.update x.handles h a }

def setCounter (x : AutoHeap) (c : CounterId) (n : Option Int) : AutoHeap :=
  { x with counters := Function.update x.counters c n }

def delete (x : AutoHeap) (o : OwnedId) : AutoHeap :=
  { x with deletions := Function.update x.deletions o (x.deletions o + 1) }

/-- The counter behind a pointer, if there is one. -/
def deref (x : AutoHeap) : CounterPointer → Option (CounterId × Int)
  | .cell c => (x.counters c).map fun n => (c, n)
  | .null | .wild => none

/-- The statement that the destructor and both assignments begin with. -/
def release (x : AutoHeap) (a : AutoDeleter) : Option (AutoHeap × AutoDeleter) :=
  match a.pObject with
  | none => some (x, a)
  | some o =>
      if a.pCnt = .null then some (x, a)
      else
        match x.deref a.pCnt with
        | none => none
        | some (c, n) =>
            if n - 1 ≤ 0 then
              some ((x.setCounter c none).delete o, { pObject := none, pCnt := .null })
            else some (x.setCounter c (some (n - 1)), a)

/-- `++(*pCnt)`. -/
def increment (x : AutoHeap) (pCnt : CounterPointer) : Option AutoHeap :=
  (x.deref pCnt).map fun (c, n) => x.setCounter c (some (n + 1))

/-- A handle gets a fresh object and a new counter. -/
def own (x : AutoHeap) (h : HandleId) : AutoHeap :=
  { (x.setHandle h (some { pObject := some x.nextObject, pCnt := .cell x.nextCounter })).setCounter
      x.nextCounter (some 1) with
    nextCounter := x.nextCounter + 1
    nextObject := x.nextObject + 1 }

/-- A handle gets a fresh object, and keeps its counter. -/
def ownUnder (x : AutoHeap) (h : HandleId) (pCnt : CounterPointer) : AutoHeap :=
  { x.setHandle h (some { pObject := some x.nextObject, pCnt }) with
    nextObject := x.nextObject + 1 }

/-- The copy constructor in the memory `h`. -/
def copyFrom (x : AutoHeap) (h : HandleId) (right : AutoDeleter) : Option AutoHeap :=
  (x.increment right.pCnt).map fun x => x.setHandle h (some right)

/-- The destructor. -/
def drop (x : AutoHeap) (h : HandleId) (a : AutoDeleter) : Option AutoHeap :=
  (x.release a).map fun (x, _) => x.setHandle h none

/-- `operator=` of a fresh object. -/
def assignFresh (x : AutoHeap) (h : HandleId) (a : AutoDeleter) : Option AutoHeap :=
  (x.release a).map fun (x, a) =>
    if a.pCnt = .null then x.own h else x.ownUnder h a.pCnt

/-- `operator=` of a handle, which may be `h` itself. -/
def assign (x : AutoHeap) (h right : HandleId) (a : AutoDeleter) : Option AutoHeap :=
  match x.release a with
  | none => none
  | some (x, a) =>
      let x := x.setHandle h (some a)
      match x.handles right with
      | none => none
      | some r => x.copyFrom h r

/-- The end of a step that may have no meaning. -/
def ending (x : AutoHeap) : Option AutoHeap → AutoHeap × AutoResult
  | none => (x, .undefined)
  | some x => (x, .done)

/-- A constructor needs memory without a handle, the other calls need a handle. -/
def step (x : AutoHeap) : AutoEvent → Option (AutoHeap × AutoResult)
  | .default h memory =>
      match x.handles h, memory with
      | some _, _ => none
      | none, .cell c =>
          if c < x.nextCounter then
            some (x.setHandle h (some { pObject := none, pCnt := .cell c }), .done)
          else none
      | none, pCnt => some (x.setHandle h (some { pObject := none, pCnt }), .done)
  | .fresh h =>
      match x.handles h with
      | some _ => none
      | none => some (x.own h, .done)
  | .copy h right =>
      match x.handles h, x.handles right with
      | none, some r => some (x.ending (x.copyFrom h r))
      | _, _ => none
  | .assignFresh h => (x.handles h).map fun a => x.ending (x.assignFresh h a)
  | .assign h right =>
      match x.handles h, x.handles right with
      | some a, some _ => some (x.ending (x.assign h right a))
      | _, _ => none
  | .destroy h => (x.handles h).map fun a => x.ending (x.drop h a)

def machine : Machine AutoHeap AutoEvent AutoResult where
  init x := x = empty
  step := step

/-- The live handles that point to a counter. -/
def sharers (x : AutoHeap) (c : CounterId) : Set HandleId :=
  {h | ∃ a, x.handles h = some a ∧ a.pCnt = .cell c}

/-- Some live handle points to the object. -/
def Owned (x : AutoHeap) (o : OwnedId) : Prop := ∃ h a, x.handles h = some a ∧ a.pObject = some o

/-- An object is there while it has a handle and has been deleted once when it has none, no
handle points to a deleted counter, and a counter counts its handles. -/
structure Counted (x : AutoHeap) : Prop where
  owned : ∀ o < x.nextObject, x.Owned o → x.deletions o = 0
  deleted : ∀ o < x.nextObject, ¬ x.Owned o → x.deletions o = 1
  live : ∀ h a c, x.handles h = some a → a.pCnt = .cell c → (x.counters c).isSome = true
  count : ∀ c n, x.counters c = some n → ∃ k : ℕ, n = k ∧ (x.sharers c).encard = k

/-- The handle points to a counter. -/
def hasCounter (x : AutoHeap) (h : HandleId) : Bool :=
  (x.handles h).any fun a => (x.deref a.pCnt).isSome

/-- The handle has an object under a wild pointer. -/
def isBlind (x : AutoHeap) (h : HandleId) : Bool :=
  (x.handles h).any fun a => a.pObject.isSome && a.pCnt = .wild

/-- The handle shares its counter with others. -/
def isShared (x : AutoHeap) (h : HandleId) : Bool :=
  (x.handles h).any fun a => (x.deref a.pCnt).any fun r => 1 < r.2

/-- No default handle finds the address of a counter, copies and assignments are of handles
with a counter, no shared handle is given a fresh object, no handle that shares with nobody is
assigned to itself, and one that was given an object under a wild pointer is left alone. -/
def Sharing (x : AutoHeap) : AutoEvent → Prop
  | .default _ memory => memory = .null ∨ memory = .wild
  | .fresh _ => True
  | .copy _ right => x.hasCounter right = true
  | .assignFresh h => x.isBlind h = false ∧ x.isShared h = false
  | .assign h right =>
      x.isBlind h = false ∧ x.hasCounter right = true ∧ (h = right → x.isShared h = true)
  | .destroy h => x.isBlind h = false

instance (x : AutoHeap) (e : AutoEvent) : Decidable (x.Sharing e) :=
  match e with
  | .default _ _ => inferInstanceAs (Decidable (_ ∨ _))
  | .fresh _ => inferInstanceAs (Decidable True)
  | .copy _ _ => inferInstanceAs (Decidable (_ = _))
  | .assignFresh _ => inferInstanceAs (Decidable (_ ∧ _))
  | .assign _ _ => inferInstanceAs (Decidable (_ ∧ _ ∧ (_ → _)))
  | .destroy _ => inferInstanceAs (Decidable (_ = _))

/-- What else is true of the heap while the handles keep their promise: handles have a counter
in common exactly when they have an object in common. -/
structure Paired (x : AutoHeap) : Prop extends Counted x where
  object : ∀ h a h' a' c, x.handles h = some a → x.handles h' = some a' → a.pCnt = .cell c →
    a'.pCnt = .cell c → a.pObject = a'.pObject
  counter : ∀ h a h' a' o, x.handles h = some a → x.handles h' = some a' → a.pObject = some o →
    a'.pObject = some o → h = h' ∨ ∃ c, a.pCnt = .cell c ∧ a'.pCnt = .cell c
  owner : ∀ h a c, x.handles h = some a → a.pCnt = .cell c → a.pObject.isSome = true
  notNull : ∀ h a, x.handles h = some a → a.pObject.isSome = true → a.pCnt ≠ .null
  objectBound : ∀ h a o, x.handles h = some a → a.pObject = some o → o < x.nextObject
  counterBound : ∀ c, (x.counters c).isSome = true → c < x.nextCounter
  undeleted : ∀ o, x.nextObject ≤ o → x.deletions o = 0

variable {x x' : AutoHeap} {h h' : HandleId} {a b : AutoDeleter} {c : CounterId}

theorem setHandle_of_ne (x : AutoHeap) (hh : h' ≠ h) (w : Option AutoDeleter) :
    (x.setHandle h w).handles h' = x.handles h' := Function.update_of_ne hh ..

@[simp] theorem setHandle_self (x : AutoHeap) (h : HandleId) (w : Option AutoDeleter) :
    (x.setHandle h w).handles h = w := Function.update_self ..

/-- A handle is what it was, unless it is the one that was written. -/
theorem setHandle_inv {w : Option AutoDeleter} (hb : (x.setHandle h w).handles h' = some b) :
    h' = h ∧ w = some b ∨ h' ≠ h ∧ x.handles h' = some b := by
  by_cases hh : h' = h
  · subst hh
    exact .inl ⟨rfl, (setHandle_self x h' w).symm.trans hb⟩
  · exact .inr ⟨hh, (setHandle_of_ne x hh w).symm.trans hb⟩

@[simp] theorem setHandle_setHandle (x : AutoHeap) (h : HandleId) (w w' : Option AutoDeleter) :
    (x.setHandle h w).setHandle h w' = x.setHandle h w' := by
  simp only [setHandle, Function.update_idem]

/-- Writing handles and counting do not meet. -/
theorem copyFrom_setHandle (x : AutoHeap) (h : HandleId) (w w' : Option AutoDeleter)
    (r : AutoDeleter) : (x.setHandle h w).copyFrom h r = (x.setHandle h w').copyFrom h r := by
  have hderef : ∀ w, (x.setHandle h w).deref r.pCnt = x.deref r.pCnt := by
    intro w
    cases r.pCnt <;> rfl
  simp only [copyFrom, increment, hderef, Option.map_map]
  congr 1
  funext ⟨c, n⟩
  simp only [Function.comp, setCounter, setHandle, Function.update_idem]

theorem sharers_setHandle_none (x : AutoHeap) (h : HandleId) (c : CounterId) :
    (x.setHandle h none).sharers c = x.sharers c \ {h} := by
  ext h'
  constructor
  · rintro ⟨a, ha, hc⟩
    obtain ⟨-, hnone⟩ | ⟨hh, ha⟩ := setHandle_inv ha
    · cases hnone
    · exact ⟨⟨a, ha, hc⟩, hh⟩
  · rintro ⟨⟨a, ha, hc⟩, hh⟩
    exact ⟨a, (setHandle_of_ne x hh _).trans ha, hc⟩

/-- A handle that goes is missed by its own counter only. -/
theorem sharers_removed_of_ne (ha : x.handles h = some a) (hc : a.pCnt ≠ .cell c) :
    (x.setHandle h none).sharers c = x.sharers c := by
  rw [sharers_setHandle_none, Set.sdiff_singleton_eq_self]
  rintro ⟨b, hb, hcell⟩
  obtain rfl := Option.some.inj (ha.symm.trans hb)
  exact hc hcell

theorem encard_sharers_removed (ha : x.handles h = some a) (hc : a.pCnt = .cell c) {k : ℕ}
    (hk : (x.sharers c).encard = (k + 1 : ℕ)) : ((x.setHandle h none).sharers c).encard = k := by
  have hmem : h ∈ x.sharers c := ⟨a, ha, hc⟩
  have hsum := Set.encard_sdiff_singleton_add_one hmem
  rw [hk, Nat.cast_add, Nat.cast_one] at hsum
  rw [sharers_setHandle_none]
  exact ENat.add_left_injective_of_ne_top ENat.one_ne_top hsum

theorem sharers_setHandle_of_ne (hfree : x.handles h = none) (hc : a.pCnt ≠ .cell c) :
    (x.setHandle h (some a)).sharers c = x.sharers c := by
  ext h'
  constructor
  · rintro ⟨b, hb, hcell⟩
    obtain ⟨-, hsome⟩ | ⟨-, hb⟩ := setHandle_inv hb
    · obtain rfl := Option.some.inj hsome
      exact absurd hcell hc
    · exact ⟨b, hb, hcell⟩
  · rintro ⟨b, hb, hcell⟩
    have hh : h' ≠ h := by
      rintro rfl
      rw [hfree] at hb
      cases hb
    exact ⟨b, (setHandle_of_ne x hh _).trans hb, hcell⟩

theorem sharers_setHandle_cell (hfree : x.handles h = none) (hc : a.pCnt = .cell c) :
    (x.setHandle h (some a)).sharers c = insert h (x.sharers c) := by
  ext h'
  constructor
  · rintro ⟨b, hb, hcell⟩
    obtain ⟨rfl, -⟩ | ⟨-, hb⟩ := setHandle_inv hb
    · exact Set.mem_insert ..
    · exact Set.mem_insert_of_mem _ ⟨b, hb, hcell⟩
  · rintro (rfl | ⟨b, hb, hcell⟩)
    · exact ⟨a, setHandle_self .., hc⟩
    · have hh : h' ≠ h := by
        rintro rfl
        rw [hfree] at hb
        cases hb
      exact ⟨b, (setHandle_of_ne x hh _).trans hb, hcell⟩

theorem not_mem_sharers (hfree : x.handles h = none) : h ∉ x.sharers c := by
  rintro ⟨a, ha, -⟩
  rw [hfree] at ha
  cases ha

/-- The counter behind a handle. -/
theorem Paired.counter_of (hx : Paired x) (ha : x.handles h = some a) (hc : a.pCnt = .cell c) :
    ∃ k : ℕ, x.counters c = some ((k + 1 : ℕ) : Int) ∧ (x.sharers c).encard = (k + 1 : ℕ) := by
  obtain ⟨n, hn⟩ := Option.isSome_iff_exists.mp (hx.live h a c ha hc)
  obtain ⟨k, rfl, hk⟩ := hx.count c n hn
  cases k with
  | zero =>
      have hempty := Set.encard_eq_zero.mp hk
      have hmem : h ∈ x.sharers c := ⟨a, ha, hc⟩
      rw [hempty] at hmem
      cases hmem
  | succ k => exact ⟨k, hn, hk⟩

/-- A handle with a counter or an object is an old one or the new one. -/
theorem setHandle_some_inv {w : AutoDeleter} (hb : (x.setHandle h (some w)).handles h' = some b) :
    h' = h ∧ b = w ∨ x.handles h' = some b := by
  obtain ⟨hh, hw⟩ | ⟨-, hb⟩ := setHandle_inv hb
  · exact .inl ⟨hh, (Option.some.inj hw).symm⟩
  · exact .inr hb

theorem owned_setHandle_some (hfree : x.handles h = none) (w : AutoDeleter) (o : OwnedId) :
    (x.setHandle h (some w)).Owned o ↔ w.pObject = some o ∨ x.Owned o := by
  constructor
  · rintro ⟨h', b, hb, ho⟩
    obtain ⟨-, rfl⟩ | hb := setHandle_some_inv hb
    · exact .inl ho
    · exact .inr ⟨h', b, hb, ho⟩
  · rintro (ho | ⟨h', b, hb, ho⟩)
    · exact ⟨h, w, setHandle_self .., ho⟩
    · have hh : h' ≠ h := by
        rintro rfl
        rw [hfree] at hb
        cases hb
      exact ⟨h', b, (setHandle_of_ne x hh _).trans hb, ho⟩

theorem Paired.not_owned (hx : Paired x) {o : OwnedId} (ho : x.nextObject ≤ o) : ¬ x.Owned o := by
  rintro ⟨h, a, ha, ho'⟩
  exact absurd (hx.objectBound h a o ha ho') (Nat.not_lt.mpr ho)

section Fresh

variable {w : AutoDeleter} {y : AutoHeap}

/-- Nobody else has the fresh object, so no counter is missing. -/
theorem Paired.counter_fresh (hx : Paired x)
    (hinv : ∀ h' b, y.handles h' = some b → h' = h ∧ b = w ∨ x.handles h' = some b)
    (hfresh : ∀ o, w.pObject = some o → x.nextObject ≤ o) {h₁ h₂ : HandleId} {b b' : AutoDeleter}
    {o : OwnedId} (hb : y.handles h₁ = some b) (hb' : y.handles h₂ = some b')
    (ho : b.pObject = some o) (ho' : b'.pObject = some o) :
    h₁ = h₂ ∨ ∃ c, b.pCnt = .cell c ∧ b'.pCnt = .cell c := by
  have halone : ∀ h' a, x.handles h' = some a → a.pObject = some o → w.pObject ≠ some o := by
    intro h' a ha hao hw
    exact Nat.lt_irrefl _ (Nat.lt_of_lt_of_le (hx.objectBound h' a o ha hao) (hfresh o hw))
  obtain ⟨hh, hw⟩ | hold := hinv h₁ b hb
  · obtain ⟨hh', -⟩ | hold' := hinv h₂ b' hb'
    · exact .inl (hh.trans hh'.symm)
    · exact absurd (hw ▸ ho) (halone h₂ b' hold' ho')
  · obtain ⟨-, hw⟩ | hold' := hinv h₂ b' hb'
    · exact absurd (hw ▸ ho') (halone h₁ b hold ho)
    · exact hx.counter h₁ b h₂ b' o hold hold' ho ho'

theorem Paired.owned_fresh (hx : Paired x) {pObject : Option OwnedId}
    (howned : ∀ o, y.Owned o ↔ pObject = some o ∨ x.Owned o)
    (hfresh : ∀ o, pObject = some o → x.nextObject ≤ o) {o : OwnedId} (ho : y.Owned o) :
    x.deletions o = 0 := by
  obtain hw | hold := (howned o).mp ho
  · exact hx.undeleted o (hfresh o hw)
  · by_cases hlt : o < x.nextObject
    · exact hx.owned o hlt hold
    · exact absurd hold (hx.not_owned (Nat.not_lt.mp hlt))

theorem Paired.deleted_fresh (hx : Paired x) {pObject : Option OwnedId}
    (howned : ∀ o, y.Owned o ↔ pObject = some o ∨ x.Owned o) {o : OwnedId}
    (ho : o < x.nextObject ∨ pObject = some o) (hnot : ¬ y.Owned o) : x.deletions o = 1 := by
  rw [howned, not_or] at hnot
  apply hx.deleted o _ hnot.2
  exact ho.resolve_right hnot.1

end Fresh

/-- A new handle without a counter has no object, or a fresh one. -/
theorem Paired.uncounted (hx : Paired x) (hfree : x.handles h = none) {w : AutoDeleter}
    (hcell : ∀ c, w.pCnt ≠ .cell c)
    (hobject : w.pObject = none ∨ w.pObject = some x.nextObject ∧ w.pCnt = .wild) {n : OwnedId}
    (hnext : n = if w.pObject = none then x.nextObject else x.nextObject + 1) :
    Paired { x.setHandle h (some w) with nextObject := n } := by
  have hle : x.nextObject ≤ n := by
    rw [hnext]
    split
    · exact Nat.le_refl _
    · exact Nat.le_succ _
  have hfresh : ∀ o, w.pObject = some o → x.nextObject ≤ o ∧ o < n := by
    intro o ho
    obtain hnone | ⟨hsome, -⟩ := hobject
    · rw [hnone] at ho
      cases ho
    · obtain rfl := Option.some.inj (hsome.symm.trans ho)
      rw [hnext, if_neg (by simp [hsome])]
      exact ⟨Nat.le_refl _, Nat.lt_succ_self _⟩
  have hbelow : ∀ o < n, o < x.nextObject ∨ w.pObject = some o := by
    intro o ho
    obtain hnone | ⟨hsome, -⟩ := hobject
    · rw [hnext, if_pos hnone] at ho
      exact .inl ho
    · rw [hnext, if_neg (by simp [hsome])] at ho
      obtain hlt | heq := Nat.lt_succ_iff_lt_or_eq.mp ho
      · exact .inl hlt
      · exact .inr (heq ▸ hsome)
  have hold : ∀ h' b c, (x.setHandle h (some w)).handles h' = some b → b.pCnt = .cell c →
      x.handles h' = some b := by
    intro h' b c hb hc
    obtain ⟨-, rfl⟩ | hb := setHandle_some_inv hb
    · exact absurd hc (hcell c)
    · exact hb
  have howned := owned_setHandle_some hfree w
  exact
    { owned := fun o _ ho => hx.owned_fresh howned (fun o ho => (hfresh o ho).1) ho
      deleted := fun o ho hnot => hx.deleted_fresh howned (hbelow o ho) hnot
      live := fun h' b c hb hc => hx.live h' b c (hold h' b c hb hc) hc
      count := fun c k hk => by
        obtain ⟨m, hm, hshare⟩ := hx.count c k hk
        exact ⟨m, hm, (congrArg Set.encard (sharers_setHandle_of_ne hfree (hcell c))).trans hshare⟩
      object := fun h₁ b h₂ b' c hb hb' hc hc' =>
        hx.object h₁ b h₂ b' c (hold h₁ b c hb hc) (hold h₂ b' c hb' hc') hc hc'
      counter := fun h₁ b h₂ b' o hb hb' ho ho' =>
        hx.counter_fresh (fun _ _ => setHandle_some_inv) (fun o ho => (hfresh o ho).1) hb hb' ho ho'
      owner := fun h' b c hb hc => hx.owner h' b c (hold h' b c hb hc) hc
      notNull := fun h' b hb ho => by
        obtain ⟨-, rfl⟩ | hb := setHandle_some_inv hb
        · obtain hnone | ⟨-, hwild⟩ := hobject
          · rw [hnone] at ho
            cases ho
          · rw [hwild]
            simp
        · exact hx.notNull h' b hb ho
      objectBound := fun h' b o hb ho => by
        obtain ⟨-, rfl⟩ | hb := setHandle_some_inv hb
        · exact (hfresh o ho).2
        · exact Nat.lt_of_lt_of_le (hx.objectBound h' b o hb ho) hle
      counterBound := hx.counterBound
      undeleted := fun o ho => hx.undeleted o (Nat.le_trans hle ho) }

/-- A new handle with a fresh object and a new counter. -/
theorem Paired.own (hx : Paired x) (hfree : x.handles h = none) : Paired (x.own h) := by
  have hunused : x.counters x.nextCounter = none := by
    by_contra hused
    exact Nat.lt_irrefl _ (hx.counterBound _ (Option.isSome_iff_ne_none.mpr hused))
  have hnew : ∀ h' b, x.handles h' = some b → b.pCnt ≠ .cell x.nextCounter := by
    intro h' b hb hc
    have hlive := hx.live h' b _ hb hc
    rw [hunused] at hlive
    cases hlive
  have hcounters : ∀ c, c ≠ x.nextCounter → (x.own h).counters c = x.counters c :=
    fun c hc => Function.update_of_ne hc ..
  have hcounter : (x.own h).counters x.nextCounter = some 1 := Function.update_self ..
  have howned : ∀ o, (x.own h).Owned o ↔ some x.nextObject = some o ∨ x.Owned o :=
    owned_setHandle_some hfree _
  have hinv : ∀ h' b, (x.own h).handles h' = some b →
      h' = h ∧ b = { pObject := some x.nextObject, pCnt := .cell x.nextCounter } ∨
        x.handles h' = some b := fun h' b hb => setHandle_some_inv hb
  have hfresh : ∀ o, some x.nextObject = some o → x.nextObject ≤ o :=
    fun o ho => (Option.some.inj ho).le
  have hbelow : ∀ o < x.nextObject + 1, o < x.nextObject ∨ some x.nextObject = some o := by
    intro o ho
    obtain hlt | heq := Nat.lt_succ_iff_lt_or_eq.mp ho
    · exact .inl hlt
    · exact .inr (heq ▸ rfl)
  exact
    { owned := fun o _ ho => hx.owned_fresh howned hfresh ho
      deleted := fun o ho hnot => hx.deleted_fresh howned (hbelow o ho) hnot
      live := fun h' b c hb hc => by
        obtain ⟨-, rfl⟩ | hb := hinv h' b hb
        · obtain rfl := CounterPointer.cell.inj hc
          rw [hcounter]
          rfl
        · rw [hcounters c fun heq => hnew h' b hb (heq ▸ hc)]
          exact hx.live h' b c hb hc
      count := fun c n hn => by
        by_cases hc : c = x.nextCounter
        · subst hc
          have hshare : (x.own h).sharers x.nextCounter = {h} := by
            refine (sharers_setHandle_cell hfree rfl).trans ?_
            have hempty : x.sharers x.nextCounter = ∅ := by
              apply Set.eq_empty_of_forall_notMem
              rintro h' ⟨b, hb, hc⟩
              exact hnew h' b hb hc
            rw [hempty, insert_empty_eq]
          rw [hcounter] at hn
          obtain rfl := Option.some.inj hn
          exact ⟨1, rfl, by rw [hshare, Set.encard_singleton]; rfl⟩
        · rw [hcounters c hc] at hn
          obtain ⟨k, hk, hshare⟩ := hx.count c n hn
          refine ⟨k, hk, (congrArg Set.encard (sharers_setHandle_of_ne hfree ?_)).trans hshare⟩
          intro heq
          exact hc (CounterPointer.cell.inj heq).symm
      object := fun h₁ b h₂ b' c hb hb' hc hc' => by
        obtain ⟨-, rfl⟩ | hb := hinv h₁ b hb
        · obtain ⟨-, rfl⟩ | hb' := hinv h₂ b' hb'
          · rfl
          · obtain rfl := CounterPointer.cell.inj hc
            exact absurd hc' (hnew h₂ b' hb')
        · obtain ⟨-, rfl⟩ | hb' := hinv h₂ b' hb'
          · obtain rfl := CounterPointer.cell.inj hc'
            exact absurd hc (hnew h₁ b hb)
          · exact hx.object h₁ b h₂ b' c hb hb' hc hc'
      counter := fun h₁ b h₂ b' o hb hb' ho ho' => hx.counter_fresh hinv hfresh hb hb' ho ho'
      owner := fun h' b c hb hc => by
        obtain ⟨-, rfl⟩ | hb := hinv h' b hb
        · rfl
        · exact hx.owner h' b c hb hc
      notNull := fun h' b hb ho => by
        obtain ⟨-, rfl⟩ | hb := hinv h' b hb
        · simp
        · exact hx.notNull h' b hb ho
      objectBound := fun h' b o hb ho => by
        obtain ⟨-, rfl⟩ | hb := hinv h' b hb
        · obtain rfl := Option.some.inj ho
          exact Nat.lt_succ_self _
        · exact Nat.lt_succ_of_lt (hx.objectBound h' b o hb ho)
      counterBound := fun c hc => by
        by_cases heq : c = x.nextCounter
        · exact heq ▸ Nat.lt_succ_self _
        · rw [hcounters c heq] at hc
          exact Nat.lt_succ_of_lt (hx.counterBound c hc)
      undeleted := fun o ho => hx.undeleted o (Nat.le_of_succ_le ho) }

/-- All handles of an object have its counter. -/
theorem Paired.shares (hx : Paired x) (ha : x.handles h = some a) (hc : a.pCnt = .cell c)
    (hb : x.handles h' = some b) {o : OwnedId} (ho : a.pObject = some o)
    (ho' : b.pObject = some o) : b.pCnt = .cell c := by
  obtain rfl | ⟨c', hc₁, hc₂⟩ := hx.counter h a h' b o ha hb ho ho'
  · obtain rfl := Option.some.inj (ha.symm.trans hb)
    exact hc
  · obtain rfl := CounterPointer.cell.inj (hc.symm.trans hc₁)
    exact hc₂

/-- Where every handle is like an old one, it is left to look at the counting, and at who has
an object in common. -/
theorem Paired.of_like (hx : Paired x) {y : AutoHeap}
    (hlike : ∀ h' b, y.handles h' = some b → ∃ h'', x.handles h'' = some b)
    (hnextObject : y.nextObject = x.nextObject) (counted : Counted y)
    (counter : ∀ h a h' a' o, y.handles h = some a → y.handles h' = some a' →
      a.pObject = some o → a'.pObject = some o → h = h' ∨ ∃ c, a.pCnt = .cell c ∧ a'.pCnt = .cell c)
    (counterBound : ∀ c, (y.counters c).isSome = true → c < y.nextCounter)
    (undeleted : ∀ o, y.nextObject ≤ o → y.deletions o = 0) : Paired y where
  toCounted := counted
  object h₁ b h₂ b' c hb hb' hc hc' := by
    obtain ⟨h₁', hb⟩ := hlike h₁ b hb
    obtain ⟨h₂', hb'⟩ := hlike h₂ b' hb'
    exact hx.object h₁' b h₂' b' c hb hb' hc hc'
  counter := counter
  owner h' b c hb hc := by
    obtain ⟨h'', hb⟩ := hlike h' b hb
    exact hx.owner h'' b c hb hc
  notNull h' b hb ho := by
    obtain ⟨h'', hb⟩ := hlike h' b hb
    exact hx.notNull h'' b hb ho
  objectBound h' b o hb ho := by
    obtain ⟨h'', hb⟩ := hlike h' b hb
    rw [hnextObject]
    exact hx.objectBound h'' b o hb ho
  counterBound := counterBound
  undeleted := undeleted

/-- A new handle on the object of another, whose counter counts one more. -/
theorem Paired.added (hx : Paired x) (hfree : x.handles h = none) {right : HandleId}
    {r : AutoDeleter} (hr : x.handles right = some r) (hc : r.pCnt = .cell c) {k : ℕ}
    (hk : x.counters c = some ((k + 1 : ℕ) : Int)) (hshare : (x.sharers c).encard = (k + 1 : ℕ))
    {y : AutoHeap} (hhandles : y.handles = (x.setHandle h (some r)).handles)
    (hwritten : y.counters = Function.update x.counters c (some (((k + 1 : ℕ) : Int) + 1)))
    (hnextObject : y.nextObject = x.nextObject) (hnextCounter : y.nextCounter = x.nextCounter)
    (hdeletions : y.deletions = x.deletions) : Paired y := by
  have hinv : ∀ h' b, y.handles h' = some b → h' = h ∧ b = r ∨ x.handles h' = some b := by
    intro h' b hb
    rw [hhandles] at hb
    exact setHandle_some_inv hb
  -- as far as objects and counters go, the new handle is the old one
  have hlike : ∀ h' b, y.handles h' = some b → ∃ h'', x.handles h'' = some b := by
    intro h' b hb
    obtain ⟨-, rfl⟩ | hb := hinv h' b hb
    · exact ⟨right, hr⟩
    · exact ⟨h', hb⟩
  have howned : ∀ o', y.Owned o' ↔ x.Owned o' := by
    intro o'
    have hsame : y.Owned o' ↔ (x.setHandle h (some r)).Owned o' := by
      simp only [Owned, hhandles]
    rw [hsame, owned_setHandle_some hfree]
    apply or_iff_right_of_imp
    intro ho'
    exact ⟨right, r, hr, ho'⟩
  have hcounters : ∀ c', c' ≠ c → y.counters c' = x.counters c' := by
    intro c' hcc
    rw [hwritten]
    exact Function.update_of_ne hcc ..
  have hcounter : y.counters c = some (((k + 1 : ℕ) : Int) + 1) := by
    rw [hwritten]
    exact Function.update_self ..
  have hsharers : ∀ c', y.sharers c' = (x.setHandle h (some r)).sharers c' := by
    intro c'
    simp only [sharers, hhandles]
  have hothers : ∀ c', c' ≠ c → r.pCnt ≠ .cell c' := by
    intro c' hcc heq
    exact hcc (CounterPointer.cell.inj (heq.symm.trans hc))
  have hsome : ∀ c', (y.counters c').isSome = true ↔ (x.counters c').isSome = true := by
    intro c'
    by_cases hcc : c' = c
    · subst hcc
      rw [hcounter, hk]
      simp
    · rw [hcounters c' hcc]
  refine hx.of_like hlike hnextObject ?_ ?_ ?_ ?_
  · exact
      { owned := fun o' ho' h => by
          rw [hnextObject] at ho'
          rw [hdeletions]
          exact hx.owned o' ho' ((howned o').mp h)
        deleted := fun o' ho' h => by
          rw [hnextObject] at ho'
          rw [hdeletions]
          exact hx.deleted o' ho' fun hold => h ((howned o').mpr hold)
        live := fun h' b c' hb hc' => by
          obtain ⟨h'', hb⟩ := hlike h' b hb
          exact (hsome c').mpr (hx.live h'' b c' hb hc')
        count := fun c' n hn => by
          by_cases hcc : c' = c
          · subst hcc
            obtain rfl := Option.some.inj (hcounter.symm.trans hn)
            refine ⟨k + 1 + 1, by push_cast; ring, ?_⟩
            rw [hsharers, sharers_setHandle_cell hfree hc,
              Set.encard_insert_of_notMem (not_mem_sharers hfree), hshare]
            rfl
          · rw [hcounters c' hcc] at hn
            rw [hsharers, sharers_setHandle_of_ne hfree (hothers c' hcc)]
            exact hx.count c' n hn }
  · intro h₁ b h₂ b' o' hb hb' ho₁ ho₂
    obtain ⟨hh, hw⟩ | hold₁ := hinv h₁ b hb
    · obtain ⟨hh', -⟩ | hold₂ := hinv h₂ b' hb'
      · exact .inl (hh.trans hh'.symm)
      · rw [hw] at ho₁ ⊢
        exact .inr ⟨c, hc, hx.shares hr hc hold₂ ho₁ ho₂⟩
    · obtain ⟨-, hw⟩ | hold₂ := hinv h₂ b' hb'
      · rw [hw] at ho₂ ⊢
        exact .inr ⟨c, hx.shares hr hc hold₁ ho₂ ho₁, hc⟩
      · exact hx.counter h₁ b h₂ b' o' hold₁ hold₂ ho₁ ho₂
  · intro c' hc'
    rw [hnextCounter]
    exact hx.counterBound c' ((hsome c').mp hc')
  · intro o' ho'
    rw [hnextObject] at ho'
    rw [hdeletions]
    exact hx.undeleted o' ho'

theorem Paired.copyFrom (hx : Paired x) (hfree : x.handles h = none) {right : HandleId}
    {r : AutoDeleter} (hr : x.handles right = some r) (hc : r.pCnt = .cell c) :
    ∃ y, x.copyFrom h r = some y ∧ Paired y := by
  obtain ⟨k, hk, hshare⟩ := hx.counter_of hr hc
  have hcopy : x.copyFrom h r =
      some ((x.setCounter c (some (((k + 1 : ℕ) : Int) + 1))).setHandle h (some r)) := by
    rw [AutoHeap.copyFrom, increment, hc, deref, hk]
    rfl
  exact ⟨_, hcopy, hx.added hfree hr hc hk hshare rfl rfl rfl rfl rfl⟩

/-- A handle that has gone took no counter along: it had none, or the counter counts one less. -/
theorem Paired.removed (hx : Paired x) (ha : x.handles h = some a) {y : AutoHeap}
    (hhandles : y.handles = (x.setHandle h none).handles)
    (hnextCounter : y.nextCounter = x.nextCounter) (hnextObject : y.nextObject = x.nextObject)
    (hothers : ∀ c, a.pCnt ≠ .cell c → y.counters c = x.counters c)
    (hown : ∀ c (k : ℕ), a.pCnt = .cell c → x.counters c = some ((k + 1 : ℕ) : Int) →
      y.counters c = if k = 0 then none else some (k : Int))
    (hspared : ∀ o, (a.pObject = some o → y.Owned o) → y.deletions o = x.deletions o)
    (hdeleted : ∀ o, a.pObject = some o → ¬ y.Owned o → y.deletions o = x.deletions o + 1) :
    Paired y := by
  have hold : ∀ h' b, y.handles h' = some b → h' ≠ h ∧ x.handles h' = some b := by
    intro h' b hb
    rw [hhandles] at hb
    obtain ⟨-, hnone⟩ | hkept := setHandle_inv hb
    · cases hnone
    · exact hkept
  have howned : ∀ o, y.Owned o → x.Owned o := by
    rintro o ⟨h', b, hb, ho⟩
    exact ⟨h', b, (hold h' b hb).2, ho⟩
  have hsharers : ∀ c, y.sharers c = (x.setHandle h none).sharers c := by
    intro c
    simp only [sharers, hhandles]
  have hsome : ∀ c, (y.counters c).isSome = true → (x.counters c).isSome = true := by
    intro c hc
    by_cases hcell : a.pCnt = .cell c
    · exact hx.live h a c ha hcell
    · rwa [hothers c hcell] at hc
  refine hx.of_like (fun h' b hb => ⟨h', (hold h' b hb).2⟩) hnextObject ?_ ?_ ?_ ?_
  · exact
      { owned := fun o ho hown' => by
          rw [hnextObject] at ho
          rw [hspared o fun _ => hown']
          exact hx.owned o ho (howned o hown')
        deleted := fun o ho hnot => by
          rw [hnextObject] at ho
          by_cases hobject : a.pObject = some o
          · rw [hdeleted o hobject hnot, hx.owned o ho ⟨h, a, ha, hobject⟩]
          · rw [hspared o fun hsame => absurd hsame hobject]
            apply hx.deleted o ho
            rintro ⟨h', b, hb, hbo⟩
            have hh : h' ≠ h := by
              rintro rfl
              obtain rfl := Option.some.inj (ha.symm.trans hb)
              exact hobject hbo
            exact hnot ⟨h', b, hhandles ▸ (setHandle_of_ne x hh none).trans hb, hbo⟩
        live := fun h' b c hb hc => by
          by_cases hcell : a.pCnt = .cell c
          · obtain ⟨k, hk, hencard⟩ := hx.counter_of ha hcell
            rw [hown c k hcell hk]
            split
            · rename_i hzero
              have hempty := encard_sharers_removed ha hcell hencard
              rw [← hsharers, hzero, Nat.cast_zero, Set.encard_eq_zero] at hempty
              have hmem : h' ∈ y.sharers c := ⟨b, hb, hc⟩
              rw [hempty] at hmem
              cases hmem
            · rfl
          · rw [hothers c hcell]
            exact hx.live h' b c (hold h' b hb).2 hc
        count := fun c n hn => by
          rw [hsharers]
          by_cases hcell : a.pCnt = .cell c
          · obtain ⟨k, hk, hencard⟩ := hx.counter_of ha hcell
            rw [hown c k hcell hk] at hn
            split at hn
            · cases hn
            · exact ⟨k, (Option.some.inj hn).symm, encard_sharers_removed ha hcell hencard⟩
          · rw [hothers c hcell] at hn
            rw [sharers_removed_of_ne ha hcell]
            exact hx.count c n hn }
  · intro h₁ b h₂ b' o hb hb' ho ho'
    exact hx.counter h₁ b h₂ b' o (hold h₁ b hb).2 (hold h₂ b' hb').2 ho ho'
  · intro c hc
    rw [hnextCounter]
    exact hx.counterBound c (hsome c hc)
  · intro o ho
    rw [hnextObject] at ho
    rw [hspared o fun hobject => absurd (hx.objectBound h a o ha hobject) (Nat.not_lt.mpr ho)]
    exact hx.undeleted o ho

/-- What the destructor's statement comes to. -/
theorem Paired.release_cases (hx : Paired x) (ha : x.handles h = some a) :
    (a.pObject = none ∧ (∀ c, a.pCnt ≠ .cell c) ∧ x.release a = some (x, a)) ∨
      (x.isBlind h = true ∧ x.release a = none) ∨
      ∃ o c, ∃ k : ℕ, a.pObject = some o ∧ a.pCnt = .cell c ∧
        x.counters c = some ((k + 1 : ℕ) : Int) ∧ (x.sharers c).encard = (k + 1 : ℕ) ∧
        x.release a =
          if k = 0 then some ((x.setCounter c none).delete o, { pObject := none, pCnt := .null })
          else some (x.setCounter c (some (k : Int)), a) := by
  cases ho : a.pObject with
  | none =>
      refine .inl ⟨rfl, fun c hc => ?_, ?_⟩
      · have hsome := hx.owner h a c ha hc
        rw [ho] at hsome
        cases hsome
      · rw [release, ho]
  | some o =>
      right
      have hnull := hx.notNull h a ha (by rw [ho]; rfl)
      cases hcnt : a.pCnt with
      | null => exact absurd hcnt hnull
      | wild =>
          left
          constructor
          · rw [isBlind, ha, Option.any_some, ho, hcnt]
            rfl
          · rw [release, ho, hcnt]
            rfl
      | cell c =>
          right
          obtain ⟨k, hk, hencard⟩ := hx.counter_of ha hcnt
          refine ⟨o, c, k, rfl, rfl, hk, hencard, ?_⟩
          have hpred : ((k + 1 : ℕ) : Int) - 1 = k := by
            push_cast
            ring
          simp only [release, ho, hcnt, deref, hk, Option.map_some, hpred]
          by_cases hzero : k = 0
          · simp [hzero]
          · simp [hzero]

theorem drop_eq {a' : AutoDeleter} (hrelease : x.release a = some (x', a')) :
    x.drop h a = some (x'.setHandle h none) := by
  rw [drop, hrelease]
  rfl

theorem assignFresh_eq {a' : AutoDeleter} (hrelease : x.release a = some (x', a')) :
    x.assignFresh h a =
      some (if a'.pCnt = .null then x'.own h else x'.ownUnder h a'.pCnt) := by
  rw [assignFresh, hrelease]
  rfl

/-- A handle that had a counter took one off it. -/
theorem Paired.uncount (hx : Paired x) (ha : x.handles h = some a) (hc : a.pCnt = .cell c) {k : ℕ}
    (hk : x.counters c = some ((k + 1 : ℕ) : Int)) {y : AutoHeap}
    (hhandles : y.handles = (x.setHandle h none).handles)
    (hcounters : y.counters =
      Function.update x.counters c (if k = 0 then none else some (k : Int)))
    (hnextCounter : y.nextCounter = x.nextCounter) (hnextObject : y.nextObject = x.nextObject)
    (hspared : ∀ o, (a.pObject = some o → y.Owned o) → y.deletions o = x.deletions o)
    (hdeleted : ∀ o, a.pObject = some o → ¬ y.Owned o → y.deletions o = x.deletions o + 1) :
    Paired y := by
  refine hx.removed ha hhandles hnextCounter hnextObject ?_ ?_ hspared hdeleted
  · intro c' hc'
    have hne : c' ≠ c := by
      rintro rfl
      exact hc' hc
    rw [hcounters]
    exact Function.update_of_ne hne ..
  · intro c' k' hc' hk'
    obtain rfl := CounterPointer.cell.inj (hc.symm.trans hc')
    have hsame : k = k' := by
      have heq := Option.some.inj (hk.symm.trans hk')
      omega
    rw [hcounters, ← hsame]
    exact Function.update_self ..

/-- The only handle of a counter is the only one of its object: the others would share the
counter. -/
theorem Paired.alone (hx : Paired x) (ha : x.handles h = some a) (hc : a.pCnt = .cell c)
    (hone : (x.sharers c).encard = 1) {o : OwnedId} (ho : a.pObject = some o) :
    ¬ (x.setHandle h none).Owned o := by
  rintro ⟨h', b, hb, hbo⟩
  obtain ⟨-, hnone⟩ | ⟨hne, hb⟩ := setHandle_inv hb
  · cases hnone
  · obtain ⟨only, honly⟩ := Set.encard_eq_one.mp hone
    have hmem : h' ∈ x.sharers c := ⟨b, hb, hx.shares ha hc hb ho hbo⟩
    have hmem' : h ∈ x.sharers c := ⟨a, ha, hc⟩
    rw [honly, Set.mem_singleton_iff] at hmem hmem'
    exact hne (hmem.trans hmem'.symm)

/-- A handle that shares its counter shares the object with it. -/
theorem Paired.accompanied (hx : Paired x) (ha : x.handles h = some a) (hc : a.pCnt = .cell c)
    (hmany : 1 < (x.sharers c).encard) {o : OwnedId} (ho : a.pObject = some o) :
    (x.setHandle h none).Owned o := by
  obtain ⟨h', ⟨b, hb, hbc⟩, hne⟩ := Set.exists_ne_of_one_lt_encard hmany h
  refine ⟨h', b, (setHandle_of_ne x hne none).trans hb, ?_⟩
  rw [hx.object h' b h a c hb ha hbc hc]
  exact ho

theorem Paired.drop (hx : Paired x) (ha : x.handles h = some a) (hsees : x.isBlind h = false) :
    ∃ y, x.drop h a = some y ∧ Paired y ∧ y.handles = (x.setHandle h none).handles := by
  obtain ⟨hnone, hcell, hrelease⟩ | ⟨hblind, -⟩ | ⟨o, c, k, ho, hc, hk, hencard, hrelease⟩ :=
    hx.release_cases ha
  · refine ⟨x.setHandle h none, drop_eq hrelease, ?_, rfl⟩
    refine hx.removed ha rfl rfl rfl (fun _ _ => rfl) (fun c _ hc => absurd hc (hcell c))
      (fun _ _ => rfl) (fun o ho => ?_)
    rw [hnone] at ho
    cases ho
  · rw [hsees] at hblind
    cases hblind
  · by_cases hzero : k = 0
    · rw [if_pos hzero] at hrelease
      refine ⟨((x.setCounter c none).delete o).setHandle h none, drop_eq hrelease, ?_, rfl⟩
      have hone : (x.sharers c).encard = 1 := by
        rw [hencard, hzero]
        rfl
      refine hx.uncount ha hc hk rfl (by rw [if_pos hzero]; rfl) rfl rfl ?_ ?_
      · intro o' hkept
        have hoo : o' ≠ o := by
          rintro rfl
          exact hx.alone ha hc hone ho (hkept ho)
        exact Function.update_of_ne hoo ..
      · intro o' ho' _
        obtain rfl := Option.some.inj (ho.symm.trans ho')
        exact Function.update_self ..
    · rw [if_neg hzero] at hrelease
      refine ⟨(x.setCounter c (some (k : Int))).setHandle h none, drop_eq hrelease, ?_, rfl⟩
      have hmany : 1 < (x.sharers c).encard := by
        rw [hencard]
        exact_mod_cast (by omega : 1 < k + 1)
      refine hx.uncount ha hc hk rfl (by rw [if_neg hzero]; rfl) rfl rfl ?_ ?_
      · intro o' _
        rfl
      · intro o' ho' hnot
        exact absurd (hx.accompanied ha hc hmany ho') hnot

end AutoHeap

end Netbroker
