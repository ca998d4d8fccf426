import Mathlib.Data.List.Nodup
import Mathlib.Data.List.Perm.Basic
import Netbroker.Common.Spq
import Netbroker.Transition.Machine

/-!
# The pool of items

`NoLockPool` allocates its items array by array as they are asked for. Items come back by two
ways: `recycle` puts them into the pool, `release` into a queue that `get` turns to when the
pool is empty. An item is thus always in one of three places, and the queue never fills up.

`Conserved` says that each allocated item is in one place and that there are no others.
Growing brings in items that were nowhere, and the calls move them; what a caller is told
follows from where the items are.
-/

namespace Netbroker

open Transition

universe u

/-- The address of an element: the array it is in, counted as `new` made them, and its index. -/
structure ItemAddress where
  array : ℕ
  index : ℕ
  deriving DecidableEq, Repr

/-- What `new T[n]` has made. -/
structure ItemArray where
  array : ℕ
  length : ℕ
  deriving DecidableEq, Repr

namespace ItemArray

def items (a : ItemArray) : List ItemAddress := (List.range a.length).map (⟨a.array, ·⟩)

@[simp] theorem length_items (a : ItemArray) : a.items.length = a.length := by
  simp [items]

@[simp] theorem mem_items {a : ItemArray} {x : ItemAddress} :
    x ∈ a.items ↔ x.array = a.array ∧ x.index < a.length := by
  obtain ⟨k, i⟩ := x
  simp only [items, List.mem_map, List.mem_range, ItemAddress.mk.injEq]
  constructor
  · rintro ⟨j, hj, rfl, rfl⟩
    exact ⟨rfl, hj⟩
  · rintro ⟨rfl, hi⟩
    exact ⟨i, hi, rfl, rfl⟩

theorem nodup_items (a : ItemArray) : a.items.Nodup := by
  apply List.Nodup.map _ List.nodup_range
  intro i j hij
  exact (ItemAddress.mk.inj hij).2

end ItemArray

/-- The members of the pool. `RelQueue` is a queue of `BDS::SPQ`. -/
structure NoLockPool (σ : Type u) where
  maxSize : Int
  trueSize : Int
  incr : Int
  pool : List ItemAddress
  allocation : List ItemArray
  relQueue : σ
  deriving DecidableEq, Repr

namespace NoLockPool

variable {σ : Type u}

def grow (p : NoLockPool σ) : Bool × NoLockPool σ :=
  let myIncr := p.maxSize - p.trueSize
  if myIncr ≤ 0 then (false, p)
  else
    let myIncr := if myIncr > p.incr then p.incr else myIncr
    let myPtr : ItemArray := ⟨p.allocation.length, myIncr.toNat⟩
    (true,
      { p with
        allocation := myPtr :: p.allocation
        pool := p.pool ++ myPtr.items
        trueSize := p.trueSize + myIncr })

/-- The constructor. It has no meaning when the least increment overflows. -/
def create (spq : Spq σ ItemAddress) (maxSize incr : Int) : Option (NoLockPool σ) :=
  let wished := if incr > maxSize then maxSize else incr
  (checkedInt (maxSize + 9)).map fun sum =>
    let minIncr := sum.tdiv 10
    (grow
      { maxSize := maxSize
        trueSize := 0
        incr := if wished > minIncr then wished else minIncr
        pool := []
        allocation := []
        relQueue := spq.create maxSize 1 }).2

/-- `front` and `pop_front` of the pool, which have no meaning on an empty one. -/
def takeFront (p : NoLockPool σ) : Option (Option ItemAddress × NoLockPool σ) :=
  match p.pool with
  | [] => none
  | x :: rest => some (some x, { p with pool := rest })

/-- What `get` returns, `none` being `NULL`. `myPtr` is what its variable holds before it is
written. -/
def get (spq : Spq σ ItemAddress) (p : NoLockPool σ) (myPtr : ItemAddress) :
    Option (Option ItemAddress × NoLockPool σ) :=
  if p.pool.isEmpty then
    let (ok, head, relQueue) := spq.getHead p.relQueue myPtr
    let p := { p with relQueue := relQueue }
    if ok then some (some head, p)
    else
      let (grown, p) := p.grow
      if grown then p.takeFront else some (none, p)
  else p.takeFront

/-- `release` and the result of `SPQ_PutTail`, which it does not look at. -/
def release (spq : Spq σ ItemAddress) (p : NoLockPool σ) (item : ItemAddress) :
    Bool × NoLockPool σ :=
  let (ok, relQueue) := spq.putTail p.relQueue item
  (ok, { p with relQueue := relQueue })

def recycle (p : NoLockPool σ) (item : ItemAddress) : NoLockPool σ :=
  { p with pool := p.pool ++ [item] }

/-- The items of all arrays. -/
def items (p : NoLockPool σ) : List ItemAddress := p.allocation.flatMap ItemArray.items

/-- The pool after a further array of `n` items. -/
def extend (p : NoLockPool σ) (n : ℕ) : NoLockPool σ :=
  { p with
    allocation := ⟨p.allocation.length, n⟩ :: p.allocation
    pool := p.pool ++ ItemArray.items ⟨p.allocation.length, n⟩
    trueSize := p.trueSize + n }

/-- Growth stops at the size asked for, and otherwise adds something without going past it. -/
theorem grow_cases {p : NoLockPool σ} (hincr : 1 ≤ p.incr) :
    (p.maxSize ≤ p.trueSize ∧ p.grow = (false, p)) ∨
      ∃ n : ℕ, 0 < n ∧ p.trueSize + n ≤ p.maxSize ∧ p.grow = (true, p.extend n) := by
  by_cases hfull : p.maxSize - p.trueSize ≤ 0
  · refine .inl ⟨by omega, ?_⟩
    rw [grow, if_pos hfull]
  · right
    have grown : ∀ k : Int, 0 < k → k ≤ p.maxSize - p.trueSize →
        (if p.maxSize - p.trueSize > p.incr then p.incr else p.maxSize - p.trueSize) = k →
        ∃ n : ℕ, 0 < n ∧ p.trueSize + n ≤ p.maxSize ∧ p.grow = (true, p.extend n) := by
      intro k hpos hle hk
      have hcast : (k.toNat : Int) = k := Int.toNat_of_nonneg (by omega)
      refine ⟨k.toNat, by omega, by omega, ?_⟩
      rw [grow, if_neg hfull, extend, hcast]
      simp only [hk]
    by_cases hclamp : p.maxSize - p.trueSize > p.incr
    · apply grown p.incr (by omega) (by omega)
      exact if_pos hclamp
    · apply grown (p.maxSize - p.trueSize) (by omega) (by omega)
      exact if_neg hclamp

/-- Whatever increment is asked for, the pool has one of at least one item. -/
theorem create_eq (spq : Spq σ ItemAddress) {maxSize : Int} (hpos : 1 ≤ maxSize)
    (hmax : maxSize ≤ intMax - 9) (incr : Int) :
    ∃ step, 1 ≤ step ∧ create spq maxSize incr = some (grow ⟨maxSize, 0, step, [], [],
      spq.create maxSize 1⟩).2 := by
  have hsum : checkedInt (maxSize + 9) = some (maxSize + 9) := if_pos (by omega)
  have hleast : 1 ≤ (maxSize + 9).tdiv 10 := by
    rw [Int.tdiv_eq_ediv_of_nonneg (by omega)]
    omega
  rw [create, hsum]
  refine ⟨_, ?_, rfl⟩
  split <;> omega

section Get

variable {spq : Spq σ ItemAddress} {contents : σ → List ItemAddress} {capacity : σ → Int}
  {p : NoLockPool σ}

theorem takeFront_eq {x : ItemAddress} {rest : List ItemAddress} (hp : p.pool = x :: rest) :
    p.takeFront = some (some x, { p with pool := rest }) := by
  rw [takeFront, hp]

theorem get_of_grow (hpool : p.pool = []) {myPtr head : ItemAddress} {q : σ}
    (hget : spq.getHead p.relQueue myPtr = (false, head, q)) :
    p.get spq myPtr =
      if (grow { p with relQueue := q }).1 then (grow { p with relQueue := q }).2.takeFront
      else some (none, (grow { p with relQueue := q }).2) := by
  have hempty : p.pool.isEmpty = true := List.isEmpty_iff.mpr hpool
  rw [get, if_pos hempty, hget]
  rfl

/-- Where `get` takes its item from. -/
theorem get_cases (fifo : spq.Fifo contents capacity) (hincr : 1 ≤ p.incr)
    (myPtr : ItemAddress) :
    (∃ x rest, p.pool = x :: rest ∧ p.get spq myPtr = some (some x, { p with pool := rest })) ∨
    (p.pool = [] ∧ ∃ x q, contents p.relQueue = x :: contents q ∧
      capacity q = capacity p.relQueue ∧
      p.get spq myPtr = some (some x, { p with relQueue := q })) ∨
    (p.pool = [] ∧ contents p.relQueue = [] ∧ ∃ q, contents q = [] ∧
      capacity q = capacity p.relQueue ∧
      ((p.maxSize ≤ p.trueSize ∧ p.get spq myPtr = some (none, { p with relQueue := q })) ∨
        ∃ n : ℕ, 0 < n ∧ p.trueSize + n ≤ p.maxSize ∧
          p.get spq myPtr = (extend { p with relQueue := q } n).takeFront)) := by
  cases hpool : p.pool with
  | cons x rest =>
      refine .inl ⟨x, rest, rfl, ?_⟩
      rw [get, hpool]
      exact takeFront_eq hpool
  | nil =>
      right
      rcases hget : spq.getHead p.relQueue myPtr with ⟨ok, head, q⟩
      cases hqueue : contents p.relQueue with
      | cons x rest =>
          have hlaw := fifo.getHead _ _ _ myPtr hqueue
          rw [hget] at hlaw
          obtain ⟨rfl, rfl, rfl, hcap⟩ := hlaw
          refine .inl ⟨rfl, head, q, rfl, hcap, ?_⟩
          rw [get, hpool, hget]
          rfl
      | nil =>
          have hlaw := fifo.getHead_empty _ myPtr hqueue
          rw [hget] at hlaw
          obtain ⟨rfl, hrest, hcap⟩ := hlaw
          refine .inr ⟨rfl, rfl, q, hrest, hcap, ?_⟩
          rw [get_of_grow hpool hget]
          obtain ⟨hfull, hgrow⟩ | ⟨n, hn, hle, hgrow⟩ :=
            grow_cases (p := { p with relQueue := q }) hincr
          · refine .inl ⟨hfull, ?_⟩
            rw [hgrow, hpool]
            rfl
          · refine .inr ⟨n, hn, hle, ?_⟩
            rw [hgrow, hpool]
            rfl

end Get

end NoLockPool

/-- A pool and the items that its callers hold. -/
structure PoolUse (σ : Type u) where
  pool : NoLockPool σ
  held : List ItemAddress
  deriving DecidableEq, Repr

inductive PoolCall where
  | get (myPtr : ItemAddress)
  | release (item : ItemAddress)
  | recycle (item : ItemAddress)
  deriving DecidableEq, Repr

inductive PoolAnswer where
  | item (x : ItemAddress)
  | null
  /-- Whether the queue had room for the item. -/
  | released (stored : Bool)
  | recycled
  /-- The call had no meaning. -/
  | undefined
  deriving DecidableEq, Repr

namespace PoolUse

variable {σ : Type u}

def call (spq : Spq σ ItemAddress) (s : PoolUse σ) : PoolCall → PoolUse σ × PoolAnswer
  | .get myPtr =>
      match s.pool.get spq myPtr with
      | none => (s, .undefined)
      | some (none, p) => ({ s with pool := p }, .null)
      | some (some x, p) => ({ pool := p, held := x :: s.held }, .item x)
  | .release x =>
      let (stored, p) := s.pool.release spq x
      ({ pool := p, held := s.held.erase x }, .released stored)
  | .recycle x => ({ pool := s.pool.recycle x, held := s.held.erase x }, .recycled)

/-- Calls on a pool from its construction on. -/
def machine (spq : Spq σ ItemAddress) (maxSize incr : Int) :
    Machine (PoolUse σ) PoolCall PoolAnswer where
  init s := NoLockPool.create spq maxSize incr = some s.pool ∧ s.held = []
  step s e := some (s.call spq e)

/-- An item is given back by a caller that holds it. -/
def GivesHeld (s : PoolUse σ) : PoolCall → Prop
  | .get _ => True
  | .release x | .recycle x => x ∈ s.held

instance (s : PoolUse σ) : ∀ e, Decidable (s.GivesHeld e)
  | .get _ => inferInstanceAs (Decidable True)
  | .release x | .recycle x => inferInstanceAs (Decidable (x ∈ s.held))

section Conservation

variable {spq : Spq σ ItemAddress} {contents : σ → List ItemAddress} {capacity : σ → Int}
  {maxSize incr : Int} {s : PoolUse σ} {x : ItemAddress}

/-- Where the items are: in the pool, in the queue, with the callers. -/
def places (contents : σ → List ItemAddress) (s : PoolUse σ) : List ItemAddress :=
  s.pool.pool ++ contents s.pool.relQueue ++ s.held

/-- Each allocated item is in one place, and there are no others. -/
structure Conserved (contents : σ → List ItemAddress) (maxSize : Int) (s : PoolUse σ) :
    Prop where
  places : (s.places contents).Perm s.pool.items
  distinct : s.pool.items.Nodup
  allocated : (s.pool.items.length : Int) = s.pool.trueSize
  bound : s.pool.trueSize ≤ maxSize

/-- With what growth and the queue rely on. -/
structure Ready (contents : σ → List ItemAddress) (capacity : σ → Int) (maxSize : Int)
    (s : PoolUse σ) : Prop extends Conserved contents maxSize s where
  arrays : ∀ a ∈ s.pool.allocation, a.array < s.pool.allocation.length
  limit : s.pool.maxSize = maxSize
  step : 1 ≤ s.pool.incr
  room : capacity s.pool.relQueue = maxSize

/-- What the caller of a pool is told: `get` hands out an item that nobody holds, and `NULL` only
when all are held; the queue has room for what is released. -/
def Answers (maxSize : Int) (s : PoolUse σ) : PoolAnswer → Prop
  | .item x => x ∉ s.held
  | .null => (s.held.length : Int) = maxSize
  | .released stored => stored = true
  | .recycled => True
  | .undefined => False

theorem Conserved.nodup (hs : Conserved contents maxSize s) : (s.places contents).Nodup :=
  hs.places.nodup_iff.mpr hs.distinct

theorem Conserved.length (hs : Conserved contents maxSize s) :
    ((s.pool.pool.length + (contents s.pool.relQueue).length + s.held.length : ℕ) : Int) =
      s.pool.trueSize := by
  rw [← hs.allocated, ← hs.places.length_eq, PoolUse.places, List.length_append, List.length_append]

/-- An item that moves between places stays the only one at its address. -/
theorem Conserved.move {s' : PoolUse σ} (hs : Conserved contents maxSize s)
    (hmove : (s'.places contents).Perm (s.places contents))
    (hallocation : s'.pool.allocation = s.pool.allocation)
    (hsize : s'.pool.trueSize = s.pool.trueSize) : Conserved contents maxSize s' := by
  have hitems : s'.pool.items = s.pool.items := by
    rw [NoLockPool.items, hallocation, NoLockPool.items]
  exact
    { places := hitems ▸ hmove.trans hs.places
      distinct := hitems ▸ hs.distinct
      allocated := by rw [hitems, hsize, hs.allocated]
      bound := hsize ▸ hs.bound }

/-- A further array brings in items that were nowhere. -/
theorem Ready.extend (hs : Ready contents capacity maxSize s) {n : ℕ}
    (hle : s.pool.trueSize + n ≤ s.pool.maxSize) :
    Ready contents capacity maxSize { s with pool := s.pool.extend n } := by
  have hitems : (s.pool.extend n).items =
      ItemArray.items ⟨s.pool.allocation.length, n⟩ ++ s.pool.items := by
    rw [NoLockPool.items, NoLockPool.extend, List.flatMap_cons]
    rfl
  have hnew : ∀ x ∈ ItemArray.items ⟨s.pool.allocation.length, n⟩, x ∉ s.pool.items := by
    intro x hx hmem
    obtain ⟨hx, -⟩ := ItemArray.mem_items.mp hx
    obtain ⟨a, ha, hxa⟩ := List.mem_flatMap.mp hmem
    obtain ⟨hxa, -⟩ := ItemArray.mem_items.mp hxa
    have hlt := hs.arrays a ha
    rw [← hxa, hx] at hlt
    exact absurd hlt (Nat.lt_irrefl _)
  refine { places := ?_, distinct := ?_, allocated := ?_, bound := ?_, arrays := ?_,
           limit := hs.limit, step := hs.step, room := hs.room }
  · show (s.pool.pool ++ ItemArray.items ⟨s.pool.allocation.length, n⟩ ++
      contents s.pool.relQueue ++ s.held).Perm (s.pool.extend n).items
    rw [hitems, List.append_assoc, List.append_assoc]
    apply (List.perm_append_comm_assoc _ _ _).trans
    apply List.Perm.append_left
    rw [← List.append_assoc]
    exact hs.places
  · show (s.pool.extend n).items.Nodup
    rw [hitems]
    apply List.Nodup.append (ItemArray.nodup_items _) hs.distinct
    intro x hx hmem
    exact hnew x hx hmem
  · show ((s.pool.extend n).items.length : Int) = s.pool.trueSize + n
    rw [hitems, List.length_append, ItemArray.length_items, ← hs.allocated]
    push_cast
    omega
  · show s.pool.trueSize + n ≤ maxSize
    rw [← hs.limit]
    exact hle
  · intro a ha
    obtain rfl | ha := List.mem_cons.mp ha
    · exact Nat.lt_succ_self _
    · exact Nat.lt_succ_of_lt (hs.arrays a ha)

theorem Ready.takeFront (hs : Ready contents capacity maxSize s) {rest : List ItemAddress}
    (hpool : s.pool.pool = x :: rest) :
    Ready contents capacity maxSize
        { pool := { s.pool with pool := rest }, held := x :: s.held } ∧ x ∉ s.held := by
  have hmove : (rest ++ contents s.pool.relQueue ++ x :: s.held).Perm (s.places contents) := by
    rw [PoolUse.places, hpool]
    exact List.perm_middle
  refine ⟨{ hs with toConserved := hs.move hmove rfl rfl }, ?_⟩
  have hnodup := hmove.nodup_iff.mpr hs.nodup
  exact (List.nodup_cons.mp (List.nodup_append.mp hnodup).2.1).1

theorem Ready.takeQueued (hs : Ready contents capacity maxSize s) {q : σ}
    (hqueue : contents s.pool.relQueue = x :: contents q)
    (hroom : capacity q = capacity s.pool.relQueue) :
    Ready contents capacity maxSize
        { pool := { s.pool with relQueue := q }, held := x :: s.held } ∧ x ∉ s.held := by
  have hmove : (s.pool.pool ++ contents q ++ x :: s.held).Perm (s.places contents) := by
    rw [PoolUse.places, hqueue]
    apply List.perm_middle.trans
    rw [List.append_assoc, List.append_assoc]
    exact List.perm_middle.symm
  refine ⟨{ hs with toConserved := hs.move hmove rfl rfl, room := hroom.trans hs.room }, ?_⟩
  have hnodup := hmove.nodup_iff.mpr hs.nodup
  exact (List.nodup_cons.mp (List.nodup_append.mp hnodup).2.1).1

/-- A held item and the queue together fit into the pool. -/
theorem Ready.queue_lt (hs : Ready contents capacity maxSize s) (hx : x ∈ s.held) :
    ((contents s.pool.relQueue).length : Int) < capacity s.pool.relQueue := by
  have hlength := hs.length
  have hbound := hs.bound
  have hheld := List.length_pos_of_mem hx
  rw [hs.room]
  omega

theorem Ready.release (fifo : spq.Fifo contents capacity)
    (hs : Ready contents capacity maxSize s) (hx : x ∈ s.held) :
    (s.pool.release spq x).1 = true ∧
      Ready contents capacity maxSize
        { pool := (s.pool.release spq x).2, held := s.held.erase x } := by
  obtain ⟨hok, hcontents, hcap⟩ := fifo.putTail s.pool.relQueue x (hs.queue_lt hx)
  refine ⟨hok, { hs with toConserved := hs.move ?_ rfl rfl, room := hcap.trans hs.room }⟩
  show (s.pool.pool ++ contents (spq.putTail s.pool.relQueue x).2 ++ s.held.erase x).Perm
    (s.places contents)
  rw [hcontents, PoolUse.places, ← List.append_assoc, List.append_assoc _ [x]]
  apply List.Perm.append_left
  exact (List.perm_cons_erase hx).symm

theorem Ready.recycle (hs : Ready contents capacity maxSize s) (hx : x ∈ s.held) :
    Ready contents capacity maxSize
      { pool := s.pool.recycle x, held := s.held.erase x } := by
  refine { hs with toConserved := hs.move ?_ rfl rfl }
  show (s.pool.pool ++ [x] ++ contents s.pool.relQueue ++ s.held.erase x).Perm
    (s.places contents)
  have hmiddle : (x :: (contents s.pool.relQueue ++ s.held.erase x)).Perm
      (contents s.pool.relQueue ++ x :: s.held.erase x) := List.perm_middle.symm
  rw [PoolUse.places, List.append_assoc, List.append_assoc, List.append_assoc]
  apply List.Perm.append_left
  apply hmiddle.trans
  apply List.Perm.append_left
  exact (List.perm_cons_erase hx).symm

/-- A constructed pool has its first array, and nobody holds anything. -/
theorem ready_of_init (fifo : spq.Fifo contents capacity) (hpos : 1 ≤ maxSize)
    (hmax : maxSize ≤ intMax - 9) (h : (machine spq maxSize incr).init s) :
    Ready contents capacity maxSize s := by
  obtain ⟨hcreate, hheld⟩ := h
  obtain ⟨step, hstep, heq⟩ := NoLockPool.create_eq spq hpos hmax incr
  obtain ⟨hcontents, hcap⟩ := fifo.create maxSize 1
  have hbare : Ready contents capacity maxSize
      ⟨⟨maxSize, 0, step, [], [], spq.create maxSize 1⟩, []⟩ :=
    { places := by
        rw [PoolUse.places, hcontents]
        exact .nil
      distinct := .nil
      allocated := rfl
      bound := by
        show (0 : Int) ≤ maxSize
        omega
      arrays := by
        intro a ha
        cases ha
      limit := rfl
      step := hstep
      room := hcap }
  obtain ⟨p, held⟩ := s
  obtain rfl : held = [] := hheld
  obtain rfl := Option.some.inj (heq.symm.trans hcreate)
  obtain ⟨-, hgrow⟩ | ⟨n, -, hle, hgrow⟩ :=
    NoLockPool.grow_cases (p := ⟨maxSize, 0, step, [], [], spq.create maxSize 1⟩) hstep
  · rw [hgrow]
    exact hbare
  · rw [hgrow]
    exact hbare.extend hle

/-- One call. -/
theorem Ready.call (fifo : spq.Fifo contents capacity) (hs : Ready contents capacity maxSize s)
    {e : PoolCall} (hgives : s.GivesHeld e) :
    Ready contents capacity maxSize (s.call spq e).1 ∧ Answers maxSize s (s.call spq e).2 := by
  cases e with
  | get myPtr =>
      obtain ⟨x, rest, hpool, hget⟩ | ⟨-, x, q, hqueue, hroom, hget⟩ |
        ⟨hpool, hqueue, q, hempty, hroom, ⟨hfull, hget⟩ | ⟨n, hn, hle, hget⟩⟩ :=
        NoLockPool.get_cases fifo hs.step myPtr
      · simp only [PoolUse.call, hget]
        exact hs.takeFront hpool
      · simp only [PoolUse.call, hget]
        exact hs.takeQueued hqueue hroom
      · have hlength := hs.length
        have hbound := hs.bound
        rw [hs.limit] at hfull
        rw [hpool, hqueue, List.length_nil] at hlength
        simp only [PoolUse.call, hget]
        refine ⟨{ hs with toConserved := hs.move ?_ rfl rfl, room := hroom.trans hs.room }, ?_⟩
        · rw [PoolUse.places, PoolUse.places, hqueue, hempty]
        · show (s.held.length : Int) = maxSize
          omega
      · have hmoved : Ready contents capacity maxSize
            { s with pool := { s.pool with relQueue := q } } :=
          { hs with
            toConserved := hs.move (by rw [PoolUse.places, PoolUse.places, hqueue, hempty]) rfl rfl
            room := hroom.trans hs.room }
        have hextended := hmoved.extend hle
        cases hfront : (NoLockPool.extend { s.pool with relQueue := q } n).pool with
        | nil =>
            have hlength := congrArg List.length hfront
            rw [NoLockPool.extend, List.length_append, ItemArray.length_items] at hlength
            simp only [List.length_nil] at hlength
            omega
        | cons x rest =>
            rw [NoLockPool.takeFront_eq hfront] at hget
            simp only [PoolUse.call, hget]
            exact hextended.takeFront hfront
  | release x => exact (hs.release fifo hgives).symm
  | recycle x => exact ⟨hs.recycle hgives, trivial⟩

/-- **The pool never hands out an item twice.** -/
theorem conserved_reachable (fifo : spq.Fifo contents capacity) (hpos : 1 ≤ maxSize)
    (hmax : maxSize ≤ intMax - 9) :
    (NoLockPool.create spq maxSize incr).isSome ∧
    ∀ s, (machine spq maxSize incr).Reachable GivesHeld s →
      Conserved contents maxSize s ∧ (s.places contents).Nodup ∧
      ∀ e, s.GivesHeld e → Answers maxSize s (s.call spq e).2 := by
  constructor
  · obtain ⟨step, -, heq⟩ := NoLockPool.create_eq spq hpos hmax incr
    rw [heq]
    rfl
  · intro s hreach
    have hs : Ready contents capacity maxSize s := by
      apply hreach.invariant (I := Ready contents capacity maxSize)
      · intro s hinit
        exact ready_of_init fifo hpos hmax hinit
      · intro a e b o ha hgives move
        obtain ⟨rfl, -⟩ := Prod.mk.inj (Option.some.inj move)
        exact (ha.call fifo hgives).1
    refine ⟨hs.toConserved, hs.nodup, ?_⟩
    intro e hgives
    exact (hs.call fifo hgives).2

/-- A pool of three, of which one item came back through the queue and one into the pool. -/
theorem conserved_of_three :
    ∃ s, (machine (Spq.ofList ItemAddress) 3 0).Reachable GivesHeld s ∧
      (s.held = [⟨2, 0⟩, ⟨1, 0⟩, ⟨0, 0⟩] ∧
        (s.call (Spq.ofList ItemAddress) (.get ⟨9, 9⟩)).2 = .null) ∧
      Conserved Prod.snd 3 s ∧ (s.places Prod.snd).Nodup := by
  obtain ⟨s, hreach, hs⟩ := Machine.Reachable.exists_of_exec
    (M := machine (Spq.ofList ItemAddress) 3 0) GivesHeld
    (s := ⟨⟨3, 1, 1, [⟨0, 0⟩], [⟨0, 1⟩], (3, [])⟩, []⟩) ⟨rfl, rfl⟩
    [.get ⟨9, 9⟩, .get ⟨9, 9⟩, .release ⟨0, 0⟩, .get ⟨9, 9⟩, .recycle ⟨1, 0⟩, .get ⟨9, 9⟩,
      .get ⟨9, 9⟩]
    (fun s => s.held = [⟨2, 0⟩, ⟨1, 0⟩, ⟨0, 0⟩] ∧
      (s.call (Spq.ofList ItemAddress) (.get ⟨9, 9⟩)).2 = .null) (by decide)
  obtain ⟨hconserved, hnodup, -⟩ :=
    (conserved_reachable (Spq.ofList_bounded ItemAddress).toFifo
      (show (1 : Int) ≤ 3 by decide) (by decide)).2 s hreach
  exact ⟨s, hreach, hs, hconserved, hnodup⟩

end Conservation

end PoolUse

end Netbroker
