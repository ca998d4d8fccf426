import Mathlib.Data.List.Nodup
import Netbroker.Common.Spq
import Netbroker.Container.FreeList
import Netbroker.Transition.Machine

/-!
# The queue with its own items

`SynchQueue` owns an array of items. A client takes one from the free list, fills it, puts it
into the queue; the client that gets it there returns it to the free list. `Empty` builds
the free list anew, whoever holds items at that moment, and an exhausted free list shows
only in a result that `GetFreeItem` does not look at.

The free list is the one of `FreeList`, so each call is one change of place in the tally. The
head of the list is handed out; it belongs to somebody exactly if it is stale, and with an
empty list the caller gets back what was in its variable.
-/

namespace Netbroker

open Transition FreeList

universe u v

/-- A `T*`: null, an element of the array `Item`, or anything else. -/
inductive ItemPointer where
  | null
  | item (index : ℕ)
  | other (address : ℕ)
  deriving DecidableEq, Repr

/-- The calls of `QUEUE::SynchQueue`, whose source is not in the repository. -/
structure ItemQueue (τ : Type v) where
  create : Int → τ
  put : τ → ItemPointer → Bool × τ
  get : τ → ItemPointer → Bool × ItemPointer × τ
  empty : τ → τ
  forceTrap : τ → τ
  resetTrap : τ → τ

/-- First in, first out; a call that fails, for whatever reason, leaves the contents alone. -/
structure ItemQueue.Fifo {τ : Type v} (queue : ItemQueue τ) (contents : τ → List ItemPointer) :
    Prop where
  create : ∀ n, contents (queue.create n) = []
  put : ∀ q x, (queue.put q x).1 = true ∧ contents (queue.put q x).2 = contents q ++ [x] ∨
    (queue.put q x).1 = false ∧ contents (queue.put q x).2 = contents q
  get : ∀ q dest,
    (queue.get q dest).1 = true ∧
        contents q = (queue.get q dest).2.1 :: contents (queue.get q dest).2.2 ∨
      (queue.get q dest).1 = false ∧ contents (queue.get q dest).2.2 = contents q
  empty : ∀ q, contents (queue.empty q) = []
  forceTrap : ∀ q, contents (queue.forceTrap q) = contents q
  resetTrap : ∀ q, contents (queue.resetTrap q) = contents q

/-- A queue that is a list beside its capacity. -/
def ItemQueue.ofList : ItemQueue (Int × List ItemPointer) where
  create n := (n, [])
  put q x := if (q.2.length : Int) < q.1 then (true, (q.1, q.2 ++ [x])) else (false, q)
  get q dest :=
    match q.2 with
    | [] => (false, dest, q)
    | x :: rest => (true, x, (q.1, rest))
  empty q := (q.1, [])
  forceTrap q := q
  resetTrap q := q

/-- The laws can be met. -/
theorem ItemQueue.ofList_fifo : ItemQueue.ofList.Fifo Prod.snd where
  create _ := rfl
  put q x := by
    by_cases hroom : (q.2.length : Int) < q.1
    · simp only [ofList, if_pos hroom, true_and, true_or]
    · simp only [ofList, if_neg hroom, true_and, or_true]
  get q dest := by
    rcases q with ⟨n, _ | ⟨x, rest⟩⟩
    · exact .inr ⟨rfl, rfl⟩
    · exact .inl ⟨rfl, rfl⟩
  empty _ := rfl
  forceTrap _ := rfl
  resetTrap _ := rfl

/-- The members of the queue. The element `Item[i]` is at `.item i`. -/
structure SynchQueue (σ : Type u) (τ : Type v) where
  maxSize : Int
  itemQueue : τ
  freeItem : σ
  spareItems : Int
  deriving DecidableEq, Repr

namespace SynchQueue

variable {σ : Type u} {τ : Type v}

/-- `MIN_SPARE_ITEMS`. -/
def minSpareItems : Int := 3

/-- The addresses of the elements of `Item`. -/
def items (q : SynchQueue σ τ) : List ItemPointer :=
  (List.range (q.maxSize + q.spareItems).toNat).map .item

/-- The loop of `Empty` that reads `FreeItem` until a read fails. -/
def drain (spq : Spq σ ItemPointer) : ℕ → σ → ItemPointer → Option σ
  | 0, _, _ => none
  | fuel + 1, freeItem, dummyPtr =>
      let (ok, dummyPtr, freeItem) := spq.getHead freeItem dummyPtr
      if ok then drain spq fuel freeItem dummyPtr else some freeItem

/-- The free list holds the items at most, so its loop takes one step more than there are items.
`flush` of an item does not move it. -/
def empty (spq : Spq σ ItemPointer) (queue : ItemQueue τ) (q : SynchQueue σ τ)
    (dummyPtr : ItemPointer) : Option (SynchQueue σ τ) :=
  let itemQueue := queue.empty q.itemQueue
  (drain spq (q.items.length + 1) q.freeItem dummyPtr).map fun freeItem =>
    { q with
      itemQueue := itemQueue
      freeItem := q.items.foldl (fun freeItem x => (spq.putTail freeItem x).2) freeItem }

/-- What the two constructors share. An array of negative length has no meaning. -/
def create (spq : Spq σ ItemPointer) (queue : ItemQueue τ) (maxSize spareItems : Int)
    (dummyPtr : ItemPointer) : Option (SynchQueue σ τ) :=
  (checkedInt (maxSize + spareItems)).bind fun size =>
    if size < 0 then none
    else
      (empty spq queue
        { maxSize := maxSize
          itemQueue := queue.forceTrap (queue.create maxSize)
          freeItem := spq.create size 1
          spareItems := spareItems } dummyPtr).map fun q =>
        { q with itemQueue := queue.resetTrap q.itemQueue }

/-- `SynchQueue(MaxSize, Lock)`. -/
def ofSize (spq : Spq σ ItemPointer) (queue : ItemQueue τ) (maxSize : Int)
    (dummyPtr : ItemPointer) : Option (SynchQueue σ τ) :=
  create spq queue maxSize minSpareItems dummyPtr

/-- `SynchQueue(MaxSize, Spare, Lock)`. -/
def ofSpare (spq : Spq σ ItemPointer) (queue : ItemQueue τ) (maxSize spare : Int)
    (dummyPtr : ItemPointer) : Option (SynchQueue σ τ) :=
  create spq queue maxSize (if minSpareItems < spare then spare else minSpareItems) dummyPtr

/-- The result of `SPQ_GetHead` is not looked at: `myPtr` is what the variable holds before, and
returned as it is where nothing was read. -/
def getFreeItem (spq : Spq σ ItemPointer) (q : SynchQueue σ τ) (myPtr : ItemPointer) :
    ItemPointer × SynchQueue σ τ :=
  let (_, myPtr, freeItem) := spq.getHead q.freeItem myPtr
  (myPtr, { q with freeItem := freeItem })

/-- `ReleaseFreeItem` and the result of `SPQ_PutTail`, which it does not look at. -/
def releaseFreeItem (spq : Spq σ ItemPointer) (q : SynchQueue σ τ) (item : ItemPointer) :
    Bool × SynchQueue σ τ :=
  let (stored, freeItem) := spq.putTail q.freeItem item
  (stored, { q with freeItem := freeItem })

def get (queue : ItemQueue τ) (q : SynchQueue σ τ) (item : ItemPointer) :
    Bool × ItemPointer × SynchQueue σ τ :=
  let (ok, item, itemQueue) := queue.get q.itemQueue item
  (ok, item, { q with itemQueue := itemQueue })

def put (queue : ItemQueue τ) (q : SynchQueue σ τ) (item : ItemPointer) :
    Bool × SynchQueue σ τ :=
  let (ok, itemQueue) := queue.put q.itemQueue item
  (ok, { q with itemQueue := itemQueue })

section FreeList

variable {spq : Spq σ ItemPointer} {free : σ → List ItemPointer} {capacity : σ → Int}

theorem nodup_items (q : SynchQueue σ τ) : q.items.Nodup := by
  apply List.Nodup.map _ List.nodup_range
  intro i j hij
  exact ItemPointer.item.inj hij

theorem null_notMem_items (q : SynchQueue σ τ) : ItemPointer.null ∉ q.items := by
  simp [items]

/-- The loop empties a list that is shorter than the fuel. -/
theorem drain_eq (fifo : spq.Fifo free capacity) {fuel : ℕ} {f : σ}
    (hfuel : (free f).length < fuel) (dummyPtr : ItemPointer) :
    ∃ f', drain spq fuel f dummyPtr = some f' ∧ free f' = [] ∧ capacity f' = capacity f := by
  induction fuel generalizing f dummyPtr with
  | zero => omega
  | succ fuel ih =>
      rcases hget : spq.getHead f dummyPtr with ⟨ok, head, f'⟩
      cases hf : free f with
      | nil =>
          have hlaw := fifo.getHead_empty f dummyPtr hf
          rw [hget] at hlaw
          obtain ⟨rfl, hempty, hcap⟩ := hlaw
          refine ⟨f', ?_, hempty, hcap⟩
          rw [drain, hget]
          rfl
      | cons x rest =>
          have hlaw := fifo.getHead f x rest dummyPtr hf
          rw [hget] at hlaw
          obtain ⟨rfl, -, hrest, hcap⟩ := hlaw
          have hshort : (free f').length < fuel := by
            rw [hf, List.length_cons] at hfuel
            rw [hrest]
            omega
          obtain ⟨last, hdrain, hempty, hcap'⟩ := ih hshort head
          refine ⟨last, ?_, hempty, hcap'.trans hcap⟩
          rw [drain, hget]
          exact hdrain

/-- Where there is room for all of them, puts append. -/
theorem putAll_eq (fifo : spq.Fifo free capacity) (xs : List ItemPointer) {f : σ}
    (hroom : (((free f).length + xs.length : ℕ) : Int) ≤ capacity f) :
    free (xs.foldl (fun f x => (spq.putTail f x).2) f) = free f ++ xs ∧
      capacity (xs.foldl (fun f x => (spq.putTail f x).2) f) = capacity f := by
  induction xs generalizing f with
  | nil => exact ⟨(List.append_nil _).symm, rfl⟩
  | cons x xs ih =>
      rw [List.length_cons] at hroom
      obtain ⟨-, hput, hcap⟩ := fifo.putTail f x (by omega)
      have hroom' : (((free (spq.putTail f x).2).length + xs.length : ℕ) : Int) ≤
          capacity (spq.putTail f x).2 := by
        rw [hput, hcap, List.length_append, List.length_singleton]
        omega
      obtain ⟨hrest, hcap'⟩ := ih hroom'
      rw [List.foldl_cons, hrest, hput, List.append_assoc, hcap', hcap]
      exact ⟨rfl, rfl⟩

/-- `Empty` comes to an end, with all items in the free list and none in the queue. -/
theorem empty_eq {queue : ItemQueue τ} {queued : τ → List ItemPointer}
    (fifo : spq.Fifo free capacity) (fifo' : queue.Fifo queued) {q : SynchQueue σ τ}
    (hcap : capacity q.freeItem = q.items.length)
    (hlength : (free q.freeItem).length ≤ q.items.length) (dummyPtr : ItemPointer) :
    ∃ q', q.empty spq queue dummyPtr = some q' ∧ q'.maxSize = q.maxSize ∧
      q'.spareItems = q.spareItems ∧ free q'.freeItem = q.items ∧
      capacity q'.freeItem = q.items.length ∧ queued q'.itemQueue = [] := by
  obtain ⟨f, hdrain, hempty, hcap'⟩ := drain_eq fifo (Nat.lt_succ_of_le hlength) dummyPtr
  have hroom : (((free f).length + q.items.length : ℕ) : Int) ≤ capacity f := by
    rw [hempty, hcap', hcap, List.length_nil]
    omega
  obtain ⟨hall, hcap''⟩ := putAll_eq fifo q.items hroom
  rw [hempty, List.nil_append] at hall
  refine ⟨{ q with
    itemQueue := queue.empty q.itemQueue
    freeItem := q.items.foldl (fun freeItem x => (spq.putTail freeItem x).2) f }, ?_, rfl, rfl,
    hall, hcap''.trans (hcap'.trans hcap), fifo'.empty _⟩
  rw [empty, hdrain]
  rfl

/-- A constructed queue has all its items in the free list. -/
theorem create_inv {queue : ItemQueue τ} {queued : τ → List ItemPointer}
    (fifo : spq.Fifo free capacity) (fifo' : queue.Fifo queued) {maxSize spareItems : Int}
    {dummyPtr : ItemPointer} {q : SynchQueue σ τ}
    (h : create spq queue maxSize spareItems dummyPtr = some q) :
    free q.freeItem = q.items ∧ capacity q.freeItem = q.items.length ∧
      queued q.itemQueue = [] := by
  obtain ⟨size, hsize, h⟩ := Option.bind_eq_some_iff.mp h
  obtain rfl : maxSize + spareItems = size := by
    rw [checkedInt] at hsize
    split at hsize
    · exact Option.some.inj hsize
    · cases hsize
  split at h
  · cases h
  · obtain ⟨q', hempty, rfl⟩ := Option.map_eq_some_iff.mp h
    obtain ⟨hnone, hcap⟩ := fifo.create (maxSize + spareItems) 1
    let bare : SynchQueue σ τ := ⟨maxSize, queue.forceTrap (queue.create maxSize),
      spq.create (maxSize + spareItems) 1, spareItems⟩
    have hsize : bare.items.length = (maxSize + spareItems).toNat := by
      simp only [items, bare, List.length_map, List.length_range]
    have hbare : capacity bare.freeItem = bare.items.length := by
      show capacity (spq.create (maxSize + spareItems) 1) = _
      rw [hcap, hsize]
      omega
    have hshort : (free bare.freeItem).length ≤ bare.items.length := by
      show (free (spq.create (maxSize + spareItems) 1)).length ≤ _
      rw [hnone]
      exact Nat.zero_le _
    obtain ⟨q'', hempty', hmax, hspare, hfree, hcap', hqueued⟩ :=
      empty_eq fifo fifo' hbare hshort dummyPtr
    obtain rfl := Option.some.inj (hempty'.symm.trans hempty)
    have hitems : items { q'' with itemQueue := queue.resetTrap q''.itemQueue } = bare.items := by
      simp only [items, hmax, hspare]
    refine ⟨hfree.trans hitems.symm, ?_, (fifo'.resetTrap _).trans hqueued⟩
    rw [hitems]
    exact hcap'

end FreeList

end SynchQueue

/-- A queue and what its clients hold. Beside them, the items that clients held when `Empty` last
ran, without those they have since released in vain to a full free list. -/
structure QueueUse (σ : Type u) (τ : Type v) where
  queue : SynchQueue σ τ
  held : List ItemPointer
  stale : List ItemPointer
  deriving DecidableEq, Repr

inductive QueueCall where
  | getFreeItem (myPtr : ItemPointer)
  | put (item : ItemPointer)
  | get (dest : ItemPointer)
  | releaseFreeItem (item : ItemPointer)
  | empty (dummyPtr : ItemPointer)
  deriving DecidableEq, Repr

inductive QueueAnswer where
  | free (item : ItemPointer)
  | put (ok : Bool)
  | got (ok : Bool) (item : ItemPointer)
  | released
  | emptied
  deriving DecidableEq, Repr

namespace QueueUse

variable {σ : Type u} {τ : Type v}

/-- Clients pass only items they hold. -/
def call (spq : Spq σ ItemPointer) (queue : ItemQueue τ) (s : QueueUse σ τ) :
    QueueCall → Option (QueueUse σ τ × QueueAnswer)
  | .getFreeItem myPtr =>
      let (x, q) := s.queue.getFreeItem spq myPtr
      let held := if x = .null then s.held else x :: s.held
      some ({ s with queue := q, held := held }, .free x)
  | .put x =>
      if x ∈ s.held then
        let (ok, q) := s.queue.put queue x
        some ({ s with queue := q, held := if ok then s.held.erase x else s.held }, .put ok)
      else none
  | .get dest =>
      let (ok, x, q) := s.queue.get queue dest
      some ({ s with queue := q, held := if ok then x :: s.held else s.held }, .got ok x)
  | .releaseFreeItem x =>
      if x ∈ s.held then
        let (stored, q) := s.queue.releaseFreeItem spq x
        let stale := if stored then s.stale else s.stale.erase x
        some ({ queue := q, held := s.held.erase x, stale := stale }, .released)
      else none
  | .empty dummyPtr =>
      (s.queue.empty spq queue dummyPtr).map fun q =>
        ({ s with queue := q, stale := s.held }, .emptied)

/-- Calls on a queue from its construction on, by either constructor. -/
def machine (spq : Spq σ ItemPointer) (queue : ItemQueue τ) (maxSize spare : Int) :
    Machine (QueueUse σ τ) QueueCall QueueAnswer where
  init s :=
    (∃ dummyPtr, SynchQueue.ofSize spq queue maxSize dummyPtr = some s.queue ∨
      SynchQueue.ofSpare spq queue maxSize spare dummyPtr = some s.queue) ∧
    s.held = [] ∧ s.stale = []
  step s e := s.call spq queue e

section Ownership

variable (free : σ → List ItemPointer) (queued : τ → List ItemPointer)

/-- A pointer from `GetFreeItem` is null or to an item that no client holds, that is not in the
queue and not once more in the free list. -/
def Unowned (s : QueueUse σ τ) (_ : QueueCall) (s' : QueueUse σ τ) (answer : QueueAnswer) : Prop :=
  ∀ x, answer = .free x → x = .null ∨
    x ∈ s.queue.items ∧ x ∉ s.held ∧ x ∉ queued s.queue.itemQueue ∧ x ∉ free s'.queue.freeItem

/-- `GetFreeItem` finds an item at the head of the free list that is not a stale one, or no item
and a null in its variable. -/
def Supplied (s : QueueUse σ τ) : QueueCall → Prop
  | .getFreeItem myPtr =>
      (free s.queue.freeItem = [] → myPtr = .null) ∧
        ∀ x ∈ (free s.queue.freeItem).head?, x ∉ s.stale
  | _ => True

instance (s : QueueUse σ τ) : ∀ e, Decidable (Supplied free s e)
  | .getFreeItem _ => inferInstanceAs (Decidable (_ ∧ _))
  | .put _ | .get _ | .releaseFreeItem _ | .empty _ => inferInstanceAs (Decidable True)

/-- The places of the items agree, and the free list has room for all of them. -/
def Balanced (capacity : σ → Int) (s : QueueUse σ τ) : Prop :=
  capacity s.queue.freeItem = s.queue.items.length ∧
    ∃ lost, Tally s.queue.items (free s.queue.freeItem) (queued s.queue.itemQueue) s.held s.stale
      lost

variable {free queued} {capacity : σ → Int} {spq : Spq σ ItemPointer} {queue : ItemQueue τ}
  {s s' : QueueUse σ τ} {answer : QueueAnswer}

theorem balanced_of_init {maxSize spare : Int} (fifo : spq.Fifo free capacity)
    (fifo' : queue.Fifo queued) (h : (machine spq queue maxSize spare).init s) :
    Balanced free queued capacity s := by
  obtain ⟨⟨dummyPtr, hcreate⟩, hheld, hstale⟩ := h
  have hqueue : free s.queue.freeItem = s.queue.items ∧
      capacity s.queue.freeItem = s.queue.items.length ∧ queued s.queue.itemQueue = [] := by
    obtain hcreate | hcreate := hcreate
    · exact SynchQueue.create_inv fifo fifo' hcreate
    · exact SynchQueue.create_inv fifo fifo' hcreate
  obtain ⟨hfree, hcap, hqueued⟩ := hqueue
  refine ⟨hcap, [], ?_⟩
  rw [hfree, hqueued, hheld, hstale]
  exact .start s.queue.nodup_items

/-- An exhausted free list gives out what the variable held before. -/
theorem getFreeItem_of_empty (bounded : spq.Bounded free capacity) {q : SynchQueue σ τ}
    (hfree : free q.freeItem = []) (myPtr : ItemPointer) :
    ∃ f, q.getFreeItem spq myPtr = (myPtr, { q with freeItem := f }) ∧ free f = [] ∧
      capacity f = capacity q.freeItem := by
  rcases hget : spq.getHead q.freeItem myPtr with ⟨ok, x, f⟩
  obtain ⟨-, hempty, hcap⟩ := bounded.getHead_empty q.freeItem myPtr hfree
  have hsame := bounded.getHead_untouched q.freeItem myPtr hfree
  rw [hget] at hempty hcap hsame
  refine ⟨f, ?_, hempty, hcap⟩
  rw [SynchQueue.getFreeItem, hget]
  exact congrArg (fun x => (x, _)) hsame

theorem getFreeItem_of_head (fifo : spq.Fifo free capacity) {q : SynchQueue σ τ}
    {x : ItemPointer} {rest : List ItemPointer} (hfree : free q.freeItem = x :: rest)
    (myPtr : ItemPointer) :
    ∃ f, q.getFreeItem spq myPtr = (x, { q with freeItem := f }) ∧ free f = rest ∧
      capacity f = capacity q.freeItem := by
  rcases hget : spq.getHead q.freeItem myPtr with ⟨ok, y, f⟩
  obtain ⟨-, hhead, hrest, hcap⟩ := fifo.getHead q.freeItem x rest myPtr hfree
  rw [hget] at hhead hrest hcap
  refine ⟨f, ?_, hrest, hcap⟩
  rw [SynchQueue.getFreeItem, hget]
  exact congrArg (fun x => (x, _)) hhead

/-- With no item left, the answer is as good as what the variable held. -/
theorem getFreeItem_exhausted (bounded : spq.Bounded free capacity)
    (hs : Balanced free queued capacity s) {myPtr : ItemPointer}
    (hfree : free s.queue.freeItem = [])
    (move : s.call spq queue (.getFreeItem myPtr) = some (s', answer)) :
    (Unowned free queued s (.getFreeItem myPtr) s' answer → Balanced free queued capacity s') ∧
      (Unowned free queued s (.getFreeItem myPtr) s' answer ↔
        Supplied free s (.getFreeItem myPtr)) := by
  obtain ⟨hroom, lost, htally⟩ := hs
  obtain ⟨f, hget, hempty, hcap⟩ := getFreeItem_of_empty bounded hfree myPtr
  rw [call, hget] at move
  obtain ⟨rfl, rfl⟩ := Prod.mk.inj (Option.some.inj move)
  rw [hfree] at htally
  have hiff : Unowned free queued s (.getFreeItem myPtr)
      { s with
        queue := { s.queue with freeItem := f }
        held := if myPtr = .null then s.held else myPtr :: s.held } (.free myPtr) ↔
      myPtr = .null := by
    constructor
    · intro hunowned
      obtain hnull | ⟨hitem, hheld, hqueued, -⟩ := hunowned myPtr rfl
      · exact hnull
      · obtain hmem | hmem := htally.owned_of_empty hitem
        · exact absurd hmem hheld
        · exact absurd hmem hqueued
    · rintro hnull x hx
      exact .inl ((QueueAnswer.free.inj hx).symm.trans hnull)
  refine ⟨fun hunowned => ?_, hiff.trans ?_⟩
  · refine ⟨hcap.trans hroom, lost, ?_⟩
    show Tally s.queue.items (free f) _ (if myPtr = .null then s.held else _) _ _
    rw [if_pos (hiff.mp hunowned), hempty]
    exact htally
  · rw [Supplied, hfree]
    constructor
    · intro hnull
      refine ⟨fun _ => hnull, ?_⟩
      intro x hx
      cases hx
    · intro hsupplied
      exact hsupplied.1 rfl

/-- The head of the free list is elsewhere exactly if it is stale. -/
theorem getFreeItem_head (fifo : spq.Fifo free capacity)
    (hs : Balanced free queued capacity s) {myPtr x : ItemPointer} {rest : List ItemPointer}
    (hfree : free s.queue.freeItem = x :: rest)
    (move : s.call spq queue (.getFreeItem myPtr) = some (s', answer)) :
    (Unowned free queued s (.getFreeItem myPtr) s' answer → Balanced free queued capacity s') ∧
      (Unowned free queued s (.getFreeItem myPtr) s' answer ↔
        Supplied free s (.getFreeItem myPtr)) := by
  obtain ⟨hroom, lost, htally⟩ := hs
  obtain ⟨f, hget, hrest, hcap⟩ := getFreeItem_of_head fifo hfree myPtr
  rw [call, hget] at move
  obtain ⟨rfl, rfl⟩ := Prod.mk.inj (Option.some.inj move)
  rw [hfree] at htally
  have hitem : x ∈ s.queue.items := by
    apply htally.mem_items
    rw [List.count_cons_self]
    omega
  have hnull : x ≠ .null := by
    rintro rfl
    exact s.queue.null_notMem_items hitem
  have hiff : Unowned free queued s (.getFreeItem myPtr)
      { s with
        queue := { s.queue with freeItem := f }
        held := if x = .null then s.held else x :: s.held } (.free x) ↔ x ∉ s.stale := by
    rw [← htally.head_iff]
    constructor
    · intro hunowned
      obtain hx | ⟨-, hheld, hqueued, hmem⟩ := hunowned x rfl
      · exact absurd hx hnull
      · exact ⟨hheld, hqueued, hrest ▸ hmem⟩
    · rintro ⟨hheld, hqueued, hmem⟩ y hy
      obtain rfl := QueueAnswer.free.inj hy
      refine .inr ⟨hitem, hheld, hqueued, ?_⟩
      show x ∉ free f
      rw [hrest]
      exact hmem
  refine ⟨fun hunowned => ?_, hiff.trans ?_⟩
  · refine ⟨hcap.trans hroom, lost, ?_⟩
    show Tally s.queue.items (free f) _ (if x = .null then s.held else _) _ _
    rw [if_neg hnull, hrest]
    exact htally.take (hiff.mp hunowned)
  · rw [Supplied, hfree]
    constructor
    · intro hx
      refine ⟨fun h => absurd h (List.cons_ne_nil x rest), ?_⟩
      intro y hy
      obtain rfl := Option.some.inj hy
      exact hx
    · intro hsupplied
      exact hsupplied.2 x rfl

theorem getFreeItem_unowned (bounded : spq.Bounded free capacity)
    (hs : Balanced free queued capacity s) {myPtr : ItemPointer}
    (move : s.call spq queue (.getFreeItem myPtr) = some (s', answer)) :
    (Unowned free queued s (.getFreeItem myPtr) s' answer → Balanced free queued capacity s') ∧
      (Unowned free queued s (.getFreeItem myPtr) s' answer ↔
        Supplied free s (.getFreeItem myPtr)) := by
  cases hfree : free s.queue.freeItem with
  | nil => exact getFreeItem_exhausted bounded hs hfree move
  | cons x rest => exact getFreeItem_head bounded.toFifo hs hfree move

theorem put_balanced (fifo' : queue.Fifo queued) (hs : Balanced free queued capacity s)
    {x : ItemPointer} (move : s.call spq queue (.put x) = some (s', answer)) :
    Balanced free queued capacity s' ∧ ∃ ok, answer = .put ok := by
  obtain ⟨hroom, lost, htally⟩ := hs
  rw [call] at move
  split at move
  · rename_i hx
    obtain ⟨rfl, rfl⟩ := Prod.mk.inj (Option.some.inj move)
    refine ⟨⟨hroom, lost, ?_⟩, _, rfl⟩
    show Tally s.queue.items (free s.queue.freeItem)
      (queued (queue.put s.queue.itemQueue x).2)
      (if (queue.put s.queue.itemQueue x).1 then s.held.erase x else s.held) _ _
    obtain ⟨hok, hput⟩ | ⟨hok, hput⟩ := fifo'.put s.queue.itemQueue x
    · rw [hput, if_pos hok]
      exact htally.enqueue hx
    · rw [hput, if_neg (by rw [hok]; decide)]
      exact htally
  · cases move

theorem get_balanced (fifo' : queue.Fifo queued) (hs : Balanced free queued capacity s)
    {dest : ItemPointer} (move : s.call spq queue (.get dest) = some (s', answer)) :
    Balanced free queued capacity s' ∧ ∃ ok x, answer = .got ok x := by
  obtain ⟨hroom, lost, htally⟩ := hs
  obtain ⟨rfl, rfl⟩ := Prod.mk.inj (Option.some.inj move)
  refine ⟨⟨hroom, lost, ?_⟩, _, _, rfl⟩
  show Tally s.queue.items (free s.queue.freeItem)
    (queued (queue.get s.queue.itemQueue dest).2.2)
    (if (queue.get s.queue.itemQueue dest).1 then
      (queue.get s.queue.itemQueue dest).2.1 :: s.held else s.held) _ _
  obtain ⟨hok, hget⟩ | ⟨hok, hget⟩ := fifo'.get s.queue.itemQueue dest
  · rw [hget] at htally
    rw [if_pos hok]
    exact htally.dequeue
  · rw [hget, if_neg (by rw [hok]; decide)]
    exact htally

theorem releaseFreeItem_balanced (bounded : spq.Bounded free capacity)
    (hs : Balanced free queued capacity s) {x : ItemPointer}
    (move : s.call spq queue (.releaseFreeItem x) = some (s', answer)) :
    Balanced free queued capacity s' ∧ answer = .released := by
  obtain ⟨hroom, lost, htally⟩ := hs
  rw [call] at move
  split at move
  · rename_i hx
    obtain ⟨rfl, rfl⟩ := Prod.mk.inj (Option.some.inj move)
    refine ⟨?_, rfl⟩
    by_cases hfull : s.queue.items.length ≤ (free s.queue.freeItem).length
    · obtain ⟨hok, hput, hcap⟩ := bounded.putTail_full s.queue.freeItem x (by omega)
      obtain ⟨lost', htally'⟩ := htally.giveInVain hx hfull
      refine ⟨hcap.trans hroom, lost', ?_⟩
      show Tally s.queue.items (free (spq.putTail s.queue.freeItem x).2) _ _
        (if (spq.putTail s.queue.freeItem x).1 then s.stale else s.stale.erase x) _
      rw [hput, if_neg (by rw [hok]; decide)]
      exact htally'
    · obtain ⟨hok, hput, hcap⟩ := bounded.putTail s.queue.freeItem x (by omega)
      refine ⟨hcap.trans hroom, lost, ?_⟩
      show Tally s.queue.items (free (spq.putTail s.queue.freeItem x).2) _ _
        (if (spq.putTail s.queue.freeItem x).1 then s.stale else s.stale.erase x) _
      rw [hput, if_pos hok]
      exact htally.giveBack hx (by omega)
  · cases move

theorem empty_balanced (fifo : spq.Fifo free capacity) (fifo' : queue.Fifo queued)
    (hs : Balanced free queued capacity s) {dummyPtr : ItemPointer}
    (move : s.call spq queue (.empty dummyPtr) = some (s', answer)) :
    Balanced free queued capacity s' ∧ answer = .emptied := by
  obtain ⟨hroom, lost, htally⟩ := hs
  obtain ⟨q, hempty, hlast⟩ := Option.map_eq_some_iff.mp move
  obtain ⟨rfl, rfl⟩ := Prod.mk.inj hlast
  obtain ⟨q', hempty', hmax, hspare, hfree, hcap, hqueued⟩ :=
    SynchQueue.empty_eq fifo fifo' hroom htally.fits dummyPtr
  obtain rfl := Option.some.inj (hempty'.symm.trans hempty)
  have hitems : q'.items = s.queue.items := by
    simp only [SynchQueue.items, hmax, hspare]
  refine ⟨⟨?_, [], ?_⟩, rfl⟩
  · show capacity q'.freeItem = q'.items.length
    rw [hitems, hcap]
  · show Tally q'.items (free q'.freeItem) (queued q'.itemQueue) s.held s.held []
    rw [hitems, hfree, hqueued]
    exact htally.rebuild

/-- A call that returns nothing from the free list hands out nothing. -/
theorem unowned_of_ne {e : QueueCall} (h : ∀ x, answer ≠ .free x) :
    Unowned free queued s e s' answer :=
  fun x hx => absurd hx (h x)

/-- One call. -/
theorem call_unowned (bounded : spq.Bounded free capacity) (fifo' : queue.Fifo queued)
    (hs : Balanced free queued capacity s) {e : QueueCall}
    (move : s.call spq queue e = some (s', answer)) :
    (Unowned free queued s e s' answer → Balanced free queued capacity s') ∧
      (Unowned free queued s e s' answer ↔ Supplied free s e) := by
  cases e with
  | getFreeItem myPtr => exact getFreeItem_unowned bounded hs move
  | put x =>
      obtain ⟨hs', ok, rfl⟩ := put_balanced fifo' hs move
      exact ⟨fun _ => hs', iff_of_true (unowned_of_ne nofun) trivial⟩
  | get dest =>
      obtain ⟨hs', ok, x, rfl⟩ := get_balanced fifo' hs move
      exact ⟨fun _ => hs', iff_of_true (unowned_of_ne nofun) trivial⟩
  | releaseFreeItem x =>
      obtain ⟨hs', rfl⟩ := releaseFreeItem_balanced bounded hs move
      exact ⟨fun _ => hs', iff_of_true (unowned_of_ne nofun) trivial⟩
  | empty dummyPtr =>
      obtain ⟨hs', rfl⟩ := empty_balanced bounded.toFifo fifo' hs move
      exact ⟨fun _ => hs', iff_of_true (unowned_of_ne nofun) trivial⟩

/-- **Item ownership.** Over a run, `GetFreeItem` has handed out nothing that is owned exactly if
it was always supplied. -/
theorem unowned_iff_supplied (bounded : spq.Bounded free capacity) (fifo' : queue.Fifo queued)
    {maxSize spare : Int} {s₀ : QueueUse σ τ} (start : (machine spq queue maxSize spare).init s₀)
    {trace : List (QueueCall × QueueAnswer)}
    (run : (machine spq queue maxSize spare).Run (fun _ _ => True) s₀ trace s) :
    (machine spq queue maxSize spare).EveryStep s₀ trace (Unowned free queued) ↔
      (machine spq queue maxSize spare).Run (Supplied free) s₀ trace s := by
  apply run.everyStep_iff (I := Balanced free queued capacity)
  · exact balanced_of_init bounded.toFifo fifo' start
  · intro a e b answer ha move hunowned
    exact (call_unowned bounded fifo' ha move).1 hunowned
  · intro a e b answer ha move
    exact (call_unowned bounded fifo' ha move).2

end Ownership

def oneItem : Machine (QueueUse (Int × List ItemPointer) (Int × List ItemPointer)) QueueCall
    QueueAnswer :=
  machine (Spq.ofList ItemPointer) ItemQueue.ofList 1 0

/-- The queue after its construction. -/
def ofOne : QueueUse (Int × List ItemPointer) (Int × List ItemPointer) :=
  ⟨⟨1, (1, []), (4, [.item 0, .item 1, .item 2, .item 3]), 3⟩, [], []⟩

theorem init_ofOne : oneItem.init ofOne :=
  ⟨⟨.null, .inl rfl⟩, rfl, rfl⟩

/-- An item goes around, and `Empty` runs while nobody holds one. -/
theorem unowned_of_supplied : ∃ trace s,
    oneItem.Run (fun _ _ => True) ofOne trace s ∧
    trace.map Prod.snd = [.free (.item 0), .put true, .got true (.item 0), .released, .emptied,
      .free (.item 0), .free (.item 1), .free (.item 2), .free (.item 3), .free .null] ∧
    oneItem.EveryStep ofOne trace (Unowned Prod.snd Prod.snd) := by
  obtain ⟨trace, s, run, hanswers⟩ := Machine.Run.exists_of_exec oneItem (Supplied Prod.snd) ofOne
    [.getFreeItem (.other 7), .put (.item 0), .get .null, .releaseFreeItem (.item 0),
      .empty .null, .getFreeItem (.other 7), .getFreeItem (.item 0), .getFreeItem (.item 1),
      .getFreeItem (.item 2), .getFreeItem .null]
    (fun trace _ => trace.map Prod.snd = [.free (.item 0), .put true, .got true (.item 0),
      .released, .emptied, .free (.item 0), .free (.item 1), .free (.item 2), .free (.item 3),
      .free .null]) (by decide)
  have free : oneItem.Run (fun _ _ => True) ofOne trace s := run.mono fun _ _ _ => trivial
  exact ⟨trace, s, free, hanswers, (unowned_iff_supplied (Spq.ofList_bounded ItemPointer)
    ItemQueue.ofList_fifo init_ofOne free).mpr run⟩

/-- An item that a client holds is handed out. -/
theorem not_unowned {trace : List (QueueCall × QueueAnswer)}
    {s s' : QueueUse (Int × List ItemPointer) (Int × List ItemPointer)} {i : ℕ}
    {myPtr : ItemPointer} (run : oneItem.Run (fun _ _ => True) ofOne trace s)
    (hheld : .item i ∈ s.held)
    (move : oneItem.step s (.getFreeItem myPtr) = some (s', .free (.item i))) :
    ¬ oneItem.EveryStep ofOne (trace ++ [(.getFreeItem myPtr, .free (.item i))])
      (Unowned Prod.snd Prod.snd) := by
  intro h
  obtain hnull | ⟨-, hnot, -⟩ := h trace _ _ [] s s' rfl run move (.item i) rfl
  · cases hnull
  · exact hnot hheld

/-- `Empty` runs while a client holds an item; or a fifth item is asked for, and the variable
still holds the fourth. -/
theorem owned_handed_out :
    (∃ trace s, oneItem.Run (fun _ _ => True) ofOne trace s ∧
      trace.map Prod.fst = [.getFreeItem .null, .empty .null, .getFreeItem .null] ∧
      ¬ oneItem.EveryStep ofOne trace (Unowned Prod.snd Prod.snd)) ∧
    (∃ trace s, oneItem.Run (fun _ _ => True) ofOne trace s ∧
      trace.map Prod.fst = [.getFreeItem .null, .getFreeItem .null, .getFreeItem .null,
        .getFreeItem .null, .getFreeItem (.item 3)] ∧
      ¬ oneItem.EveryStep ofOne trace (Unowned Prod.snd Prod.snd)) := by
  constructor
  · obtain ⟨trace, s, run, hcalls, hheld, hnext⟩ := Machine.Run.exists_of_exec
      oneItem (fun _ _ => True) ofOne [.getFreeItem .null, .empty .null]
      (fun trace s => trace.map Prod.fst = [.getFreeItem .null, .empty .null] ∧
        .item 0 ∈ s.held ∧
        (oneItem.step s (.getFreeItem .null)).map Prod.snd = some (.free (.item 0))) (by decide)
    obtain ⟨⟨s', answer⟩, move, rfl⟩ := Option.map_eq_some_iff.mp hnext
    refine ⟨_, s', run.snoc trivial move, ?_, not_unowned run hheld move⟩
    rw [List.map_append, hcalls]
    rfl
  · obtain ⟨trace, s, run, hcalls, hheld, hnext⟩ := Machine.Run.exists_of_exec
      oneItem (fun _ _ => True) ofOne
      [.getFreeItem .null, .getFreeItem .null, .getFreeItem .null, .getFreeItem .null]
      (fun trace s => trace.map Prod.fst = [.getFreeItem .null, .getFreeItem .null,
          .getFreeItem .null, .getFreeItem .null] ∧
        .item 3 ∈ s.held ∧
        (oneItem.step s (.getFreeItem (.item 3))).map Prod.snd = some (.free (.item 3)))
      (by decide)
    obtain ⟨⟨s', answer⟩, move, rfl⟩ := Option.map_eq_some_iff.mp hnext
    refine ⟨_, s', run.snoc trivial move, ?_, not_unowned run hheld move⟩
    rw [List.map_append, hcalls]
    rfl

end QueueUse

end Netbroker
