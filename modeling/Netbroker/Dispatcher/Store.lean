import Netbroker.Dispatcher.Steps

/-!
# The registry and the queues

Each registration makes a queue of its own, and only `unregisterGroup` takes one
away. Without it the registry grows by single groups, and a group keeps its queue.

`Owns` is the entry of a name with its queue. `Extends` and `Shrinks` are the two ways in
which an operation changes entries and queues, and each operation of the dispatcher goes one
of them, or leaves both alone.
-/

namespace Netbroker

open Spread

namespace Dispatcher

/-- The queue is the group's. -/
def Owns (d : Dispatcher) (name : Str) (q : QueueId) : Prop :=
  ∃ r, d.groups.lookup name = some r ∧ r.queue = q

/-- Every group has a queue of its own, and all queues are in order. -/
structure Store (d : Dispatcher) : Prop where
  fresh : ∀ name q, d.Owns name q → q < d.nextQueue
  distinct : ∀ name name' q, d.Owns name q → d.Owns name' q → name = name'
  wellFormed : ∀ q, (d.queues q).WellFormed
  unkilled : ∀ q, (d.queues q).sigKill = false

/-- The registry and the queues are the same. -/
structure SameQueues (d d' : Dispatcher) : Prop where
  groups : d'.groups = d.groups
  queues : d'.queues = d.queues
  nextQueue : d'.nextQueue = d.nextQueue

/-- The registry has at most a new group more. -/
def Extends (d d' : Dispatcher) : Prop :=
  SameQueues d d' ∨ ∃ g n, g.name ∉ d.groups ∧ SameQueues (d.insertGroup g n) d'

/-- The registry has at most lost entries. -/
structure Shrinks (d d' : Dispatcher) : Prop where
  owns : ∀ name q, d'.Owns name q → d.Owns name q
  queues : d'.queues = d.queues
  nextQueue : d'.nextQueue = d.nextQueue

variable {d d' : Dispatcher}

theorem SameQueues.refl (d : Dispatcher) : SameQueues d d := ⟨rfl, rfl, rfl⟩

theorem SameQueues.owns (same : SameQueues d d') (name : Str) (q : QueueId) :
    d'.Owns name q ↔ d.Owns name q := by
  rw [Owns, Owns, same.groups]

theorem SameQueues.shrinks (same : SameQueues d d') : Shrinks d d' :=
  ⟨fun name q => (same.owns name q).mp, same.queues, same.nextQueue⟩

theorem Store.shrinks (h : d.Store) (shrinks : Shrinks d d') : d'.Store := by
  refine ⟨fun name q howns => ?_, fun name name' q howns howns' => ?_, ?_, ?_⟩
  · rw [shrinks.nextQueue]
    exact h.fresh name q (shrinks.owns name q howns)
  · exact h.distinct name name' q (shrinks.owns name q howns) (shrinks.owns name' q howns')
  · rw [shrinks.queues]
    exact h.wellFormed
  · rw [shrinks.queues]
    exact h.unkilled

theorem Store.same (h : d.Store) (same : SameQueues d d') : d'.Store := h.shrinks same.shrinks

section Insert

variable {g : Group} {n : Nat}

theorem insertGroup_lookup (d : Dispatcher) (g : Group) (n : Nat) (name : Str) :
    (d.insertGroup g n).groups.lookup name =
      if name = g.name then some { group := g, queue := d.nextQueue }
      else d.groups.lookup name := by
  by_cases hname : name = g.name
  · subst hname
    simp [insertGroup]
  · simp [insertGroup, hname, AList.lookup_insert_ne]

/-- The new group owns the new queue; a group that was there keeps its own. -/
theorem insertGroup_owns (new : g.name ∉ d.groups) (name : Str) (q : QueueId) :
    (d.insertGroup g n).Owns name q ↔ d.Owns name q ∨ name = g.name ∧ q = d.nextQueue := by
  unfold Owns
  rw [insertGroup_lookup]
  by_cases hname : name = g.name
  · subst hname
    simp [AList.lookup_eq_none.mpr new, eq_comm]
  · simp [hname]

theorem insertGroup_queues_of_ne {q : QueueId} (hq : q ≠ d.nextQueue) :
    (d.insertGroup g n).queues q = d.queues q := Function.update_of_ne hq ..

@[simp] theorem insertGroup_queues_self :
    (d.insertGroup g n).queues d.nextQueue = .new n := Function.update_self ..

theorem Store.insertGroup (h : d.Store) (new : g.name ∉ d.groups) :
    (d.insertGroup g n).Store := by
  refine ⟨fun name q howns => ?_, fun name name' q howns howns' => ?_, fun q => ?_, fun q => ?_⟩
  · rcases (insertGroup_owns new name q).mp howns with howns | ⟨-, rfl⟩
    · exact Nat.lt_succ_of_lt (h.fresh name q howns)
    · exact Nat.lt_succ_self _
  · rcases (insertGroup_owns new name q).mp howns with howns | ⟨rfl, rfl⟩ <;>
      rcases (insertGroup_owns new name' _).mp howns' with howns' | ⟨rfl, hq⟩
    · exact h.distinct name name' q howns howns'
    · subst hq
      exact absurd (h.fresh name _ howns) (Nat.lt_irrefl _)
    · exact absurd (h.fresh name' _ howns') (Nat.lt_irrefl _)
    · rfl
  · by_cases hq : q = d.nextQueue
    · subst hq
      rw [insertGroup_queues_self]
      exact SyncFifoQueue.new_wellFormed n
    · rw [insertGroup_queues_of_ne hq]
      exact h.wellFormed q
  · by_cases hq : q = d.nextQueue
    · subst hq
      rw [insertGroup_queues_self]
      rfl
    · rw [insertGroup_queues_of_ne hq]
      exact h.unkilled q

end Insert

@[simp] theorem setQueue_queues_self (d : Dispatcher) (q : QueueId)
    (queue : SyncFifoQueue Buffer) : (d.setQueue q queue).queues q = queue :=
  Function.update_self ..

theorem setQueue_queues_of_ne (d : Dispatcher) {q q' : QueueId} (hq : q' ≠ q)
    (queue : SyncFifoQueue Buffer) : (d.setQueue q queue).queues q' = d.queues q' :=
  Function.update_of_ne hq ..

/-- What holds of the new queue and of the others holds of all. -/
theorem setQueue_forall {P : QueueId → SyncFifoQueue Buffer → Prop} {q : QueueId}
    {queue : SyncFifoQueue Buffer} (hqueue : P q queue) (hothers : ∀ q', P q' (d.queues q'))
    (q' : QueueId) : P q' ((d.setQueue q queue).queues q') := by
  by_cases hq : q' = q
  · subst hq
    rw [setQueue_queues_self]
    exact hqueue
  · rw [setQueue_queues_of_ne d hq]
    exact hothers q'

/-- A queue that gets no longer keeps its room, and so do the others. -/
theorem setQueue_room {q q' : QueueId} {queue : SyncFifoQueue Buffer}
    (hmax : queue.maxSize = (d.queues q).maxSize) (hsize : queue.currSize ≤ (d.queues q).currSize)
    (hroom : (d.queues q').currSize < (d.queues q').maxSize) :
    ((d.setQueue q queue).queues q').currSize < ((d.setQueue q queue).queues q').maxSize := by
  refine setQueue_forall (P := fun q' queue => (d.queues q').currSize < (d.queues q').maxSize →
    queue.currSize < queue.maxSize) ?_ (fun _ h => h) q' hroom
  intro h
  rw [hmax]
  exact Nat.lt_of_le_of_lt hsize h

theorem Store.setQueue (h : d.Store) {q : QueueId} {queue : SyncFifoQueue Buffer}
    (wf : queue.WellFormed) (unkilled : queue.sigKill = false) : (d.setQueue q queue).Store := by
  refine ⟨h.fresh, h.distinct, ?_, ?_⟩
  · apply setQueue_forall (P := fun _ queue => queue.WellFormed) wf
    exact h.wellFormed
  · apply setQueue_forall (P := fun _ queue => queue.sigKill = false) unkilled
    exact h.unkilled

theorem registerGroup_extends (d : Dispatcher) (groupName : Str) (bufferSize : Int)
    (queueSize : Nat) (sendOnly sent : Bool) :
    Extends d (d.registerGroup groupName bufferSize queueSize sendOnly sent).2 := by
  obtain ⟨e, h⟩ | ⟨-, h⟩ | ⟨-, -, -, hnew, ⟨-, h⟩ | ⟨-, h⟩⟩ :=
    d.registerGroup_cases groupName bufferSize queueSize sendOnly sent
  · rw [h]
    exact .inl (.refl d)
  · rw [h]
    exact .inl ⟨rfl, rfl, rfl⟩
  · rw [h]
    exact .inr ⟨Group.new groupName bufferSize queueSize, queueSize, hnew, rfl, rfl, rfl⟩
  · rw [h]
    exact .inr ⟨Group.new groupName bufferSize queueSize, queueSize, hnew, .refl _⟩

theorem connect_extends (d : Dispatcher) (answer : Answer) (sent : Bool) :
    Extends d (d.connect answer sent).2 := by
  obtain ⟨e, h⟩ | ⟨code, -, h⟩ | ⟨privateGroup, -, -, -, h⟩ := d.connect_cases answer sent
  · rw [h]
    exact .inl (.refl d)
  · rw [h]
    exact .inl (.refl d)
  · rw [h]
    obtain hsame | ⟨g, n, hnew, hsame⟩ :=
      (d.connected privateGroup).registerGroup_extends d.controlGroup 1 1 false sent
    · exact .inl ⟨hsame.groups, hsame.queues, hsame.nextQueue⟩
    · exact .inr ⟨g, n, hnew, hsame.groups, hsame.queues, hsame.nextQueue⟩

theorem unregisterGroup_shrinks (d : Dispatcher) (groupName : Str) (sent : Bool) :
    Shrinks d (d.unregisterGroup groupName sent).2 := by
  obtain ⟨e, h⟩ | ⟨first, rest, -, -, h⟩ | ⟨-, -, -, -, h⟩ := d.unregisterGroup_cases groupName sent
  · rw [h]
    exact (SameQueues.refl d).shrinks
  · rw [h]
    dsimp only
    split
    · exact ⟨fun _ _ howns => howns, rfl, rfl⟩
    · exact (SameQueues.refl d).shrinks
  · rw [h]
    refine ⟨?_, rfl, rfl⟩
    rintro name q ⟨r, hlookup, hq⟩
    refine ⟨r, ?_, hq⟩
    dsimp only at hlookup
    by_cases hname : name = groupName
    · subst hname
      rw [AList.lookup_erase] at hlookup
      cases hlookup
    · rwa [AList.lookup_erase_ne hname] at hlookup

theorem disconnect_shrinks (d : Dispatcher) (sent : Bool) : Shrinks d (d.disconnect sent).2 := by
  obtain ⟨e, h⟩ | ⟨-, -, h⟩ | ⟨-, -, d', hunregister, h⟩ := d.disconnect_cases sent
  · rw [h]
    exact (SameQueues.refl d).shrinks
  · rw [h]
    exact (SameQueues.refl d).shrinks
  · have hshrinks := d.unregisterGroup_shrinks d.controlGroup sent
    rw [hunregister] at hshrinks
    rw [h]
    exact ⟨hshrinks.owns, hshrinks.queues, hshrinks.nextQueue⟩

end Dispatcher

theorem Traffic.sameQueues {d d' : Dispatcher} (h : Traffic d d') : d.SameQueues d' :=
  ⟨h.groups, h.queues, h.nextQueue⟩

/-- A user's operation adds a group to the registry or takes some off it. -/
theorem Dispatcher.perform_registry (d : Dispatcher) (sent : Bool) (op : Operation) :
    d.Extends (World.perform d sent op).2 ∨ d.Shrinks (World.perform d sent op).2 := by
  cases op with
  | registerGroup => exact .inl (d.registerGroup_extends ..)
  | unregisterGroup => exact .inr (d.unregisterGroup_shrinks ..)
  | sendMessageToGroup b => exact .inl (.inl (sendMessageToGroup_traffic d b sent).sameQueues)
  | connect => exact .inl (d.connect_extends ..)
  | disconnect => exact .inr (d.disconnect_shrinks sent)

end Netbroker
