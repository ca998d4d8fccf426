import Netbroker.Dispatcher.ClientNames
import Netbroker.Dispatcher.Activity

/-!
# Dispatchers that are assigned to

All dispatchers of the process with their threads. The heap knows the connectors, counters
and parents, and each object has a world of its own. An assignment may wait for a worker in
`stop`, then tears the target down, its connector included, and only then reads the source; the
target's mutex is held all along, which keeps out every step of its world that needs it but
not the worker that an earlier `stop` has given up on.

A step in which a dispatcher's null `m_connector` would be dereferenced is observed as such, and
the process is left as it was.

`uses` marks the operations of a dispatcher and the steps of a worker that come to the
connector, from the state they find. `Spared` is what a process must not do with a dispatcher
that is torn down.
-/

namespace Netbroker

open Spread Transition

namespace Dispatcher

/-- `stop` asks the connector for its client name. -/
def stopUses (d : Dispatcher) : Bool :=
  decide (d.connStatus = .online) && decide (d.activity = .started)

/-- So does `disconnect`. -/
def disconnectUses (d : Dispatcher) : Bool :=
  decide (d.activity = .stopped) && decide (d.connStatus = .online)

/-- The public operations that get as far as their use of the connector. -/
def uses (d : Dispatcher) : Operation → Bool
  | .registerGroup groupName bufferSize _ sendOnly =>
      !sendOnly && decide (bufferSize ≤ 92160) && decide (groupName.length < maxGroupName) &&
        decide (groupName ∉ d.groups) && decide (d.connStatus = .online)
  | .unregisterGroup groupName =>
      decide (groupName.length < maxGroupName) && d.sendOnlyGroups.isEmpty &&
        decide (groupName ∈ d.groups) && decide (d.connStatus = .online)
  | .sendMessageToGroup _ => true
  | .connect _ => decide (d.connStatus = .offline) && decide (d.activity = .stopped)
  | .disconnect => d.disconnectUses

end Dispatcher

/-- `job()` has received a message with the halt code, and asks whose it is. -/
def Observation.isHalt : Observation → Bool
  | .received _ _ b => decide (b.opCode = sigHaltMsg)
  | _ => false

namespace World

/-- The step uses the connector. `entering` are the workers that are past `isOnline()` and have not
entered `receiveFromGroup` yet. -/
def uses (s : World) (entering : WorkerId → Bool) (e : Event) (o : Observation) : Bool :=
  match e with
  | .perform _ op _ => s.dispatcher.uses op
  | .stop _ _ => s.dispatcher.stopUses
  -- the wait of `stop` is over, and the network is disconnected
  | .timeOut => true
  | .job w _ =>
      entering w || o.isHalt || decide (s.workers w = some .stopping) && s.dispatcher.stopUses ||
        decide (s.workers w = some .disconnecting) && s.dispatcher.disconnectUses
  | _ => false

/-- The workers past `isOnline()` after a step. -/
def pass (s : World) (entering : WorkerId → Bool) (e : Event) (s' : World) : WorkerId → Bool :=
  match e with
  | .job w _ =>
      Function.update entering w
        (decide (s.workers w = some .loop) && (s'.workers w).any (·.isReading))
  | _ => entering

end World

/-- The end of a wait in `timed_join`. -/
def Event.endsStop : Event → Bool
  | .join | .timeOut => true
  | _ => false

/-- What a dispatcher is torn down for. -/
inductive Purpose where
  | assign (ref : ObjectId)
  | destroy
  deriving DecidableEq, Repr

/-- Where a thread stands in `operator=` or in the destructor of a dispatcher. -/
inductive Teardown where
  /-- In the `timed_join` of `stop`. -/
  | stopping (t : ThreadId) (purpose : Purpose) (sent : Bool)
  /-- The old connector is deleted, the new one has no name yet. -/
  | naming (t : ThreadId) (ref : ObjectId)
  deriving DecidableEq, Repr

structure Fleet where
  heap : Heap
  worlds : ObjectId → World
  phase : ObjectId → Option Teardown
  entering : ObjectId → WorkerId → Bool
  /-- Beside the state: an assignment has torn the dispatcher down, and neither it nor a later one
  has come to its end. -/
  torn : ObjectId → Bool

inductive FleetEvent where
  | construct (clientName address : Str) (dropEcho dropMembership : Bool) (mbox : Mailbox)
  | copy (ref : ObjectId) (memory : BitVec 32) (mbox : Mailbox)
  /-- `operator=` up to its wait for a worker, or to the reading of the source. -/
  | assign (t : ThreadId) (id ref : ObjectId) (sent : Bool)
  /-- The rest of `operator=`. -/
  | name (id : ObjectId) (mbox : Mailbox)
  | destroy (t : ThreadId) (id : ObjectId) (sent : Bool)
  /-- Any step of a dispatcher's own world. -/
  | inner (id : ObjectId) (e : Event)

inductive FleetObservation where
  | silent
  | copied (result : CopyResult)
  | threw (e : DispatcherException)
  | inner (o : Observation)
  | nullPointer

namespace Fleet

def empty : Fleet :=
  { heap := .empty
    worlds := fun _ => .initial (.initial [] [] false false 0)
    phase := fun _ => none
    entering := fun _ _ => false
    torn := fun _ => false }

/-- The connector pointer of a live dispatcher is not null. -/
def hasConnector (f : Fleet) (id : ObjectId) : Bool :=
  (f.heap.objects id).any (·.connector.isSome)

def setWorld (f : Fleet) (id : ObjectId) (s : World) : Fleet :=
  { f with worlds := Function.update f.worlds id s }

def setPhase (f : Fleet) (id : ObjectId) (phase : Option Teardown) : Fleet :=
  { f with phase := Function.update f.phase id phase }

def setTorn (f : Fleet) (id : ObjectId) (torn : Bool) : Fleet :=
  { f with torn := Function.update f.torn id torn }

/-- A new dispatcher, under the next name. -/
def enroll (f : Fleet) (h : Heap) (s : World) : Fleet :=
  let id := f.heap.next
  { (((f.setWorld id s).setPhase id none).setTorn id false) with
    heap := h, entering := Function.update f.entering id fun _ => false }

/-- An exception leaves `operator=`, or the destructor, and then the object is gone all the
same. -/
def abandon (f : Fleet) (id : ObjectId) : Purpose → Fleet
  | .assign _ => f.setPhase id none
  | .destroy => { f.setPhase id none with heap := f.heap.set id none }

/-- Past `disconnect`. The address is read from the source ahead of the connector. -/
def finish (stack : Nat) (f : Fleet) (id : ObjectId) (t : ThreadId) :
    Purpose → Option (Fleet × FleetObservation)
  | .assign ref =>
      match f.heap.objects id, f.heap.objects ref with
      | some o, some r =>
          let s := f.worlds id
          let s : World :=
            { s with
              dispatcher := { s.dispatcher with
                connStatus := .offline, activity := .stopped, address := r.address }
              holder := some (.user t) }
          let h := f.heap.set id (some { o with
            connector := none, address := r.address, parentCpy := some ref })
          some ({ ((f.setWorld id s).setPhase id (some (.naming t ref))).setTorn id true with
            heap := h }, .silent)
      | _, _ => none
  | .destroy =>
      (f.heap.destroy stack id).map fun h =>
        ({ (f.setPhase id none).setTorn id false with heap := h }, .copied .done)

/-- Past `stop`. -/
def tearDown (stack : Nat) (f : Fleet) (id : ObjectId) (t : ThreadId) (purpose : Purpose)
    (sent : Bool) : Option (Fleet × FleetObservation) :=
  let s := f.worlds id
  if s.dispatcher.connStatus = .online then
    if s.dispatcher.disconnectUses && !f.hasConnector id then some (f, .nullPointer)
    else
      match s.dispatcher.disconnect sent with
      | (.error e, d) => some ((f.setWorld id (s.setDispatcher d)).abandon id purpose, .threw e)
      | (.ok _, d) => (f.setWorld id (s.setDispatcher d)).finish stack id t purpose
  else f.finish stack id t purpose

/-- `operator=` and the destructor begin alike. The mutex is free, and nobody else is in one of
the two. -/
def leave (stack : Nat) (f : Fleet) (id : ObjectId) (t : ThreadId) (purpose : Purpose)
    (sent : Bool) : Option (Fleet × FleetObservation) :=
  let s := f.worlds id
  if (f.heap.objects id).isSome && (f.phase id).isNone && s.enters t then
    if s.dispatcher.activity = .started then
      if s.dispatcher.stopUses && !f.hasConnector id then some (f, .nullPointer)
      else
        match s.requestStop (.user t) sent with
        | .error e => some (f.abandon id purpose, .threw e)
        | .ok s =>
            some ((f.setWorld id s).setPhase id (some (.stopping t purpose sent)), .silent)
    else f.tearDown stack id t purpose sent
  else none

/-- The end of `operator=`, with a new connector unless its name is too long. The mutex is
released. -/
def named (f : Fleet) (id : ObjectId) (h : Heap) (mbox : Mailbox) (result : CopyResult) : Fleet :=
  let s := f.worlds id
  match result with
  | .threw _ => { (f.setWorld id { s with holder := none }).setPhase id none with heap := h }
  | .done =>
      let connection := { Connection.initial ((h.clientName id).getD []) mbox with
        spread := s.dispatcher.connection.spread }
      let s := { s with dispatcher := { s.dispatcher with connection }, holder := none }
      { ((f.setWorld id s).setPhase id none).setTorn id false with heap := h }

/-- A step of the dispatcher's own world. -/
def moved (f : Fleet) (id : ObjectId) (e : Event) (s : World) : Fleet :=
  { f.setWorld id s with
    entering := Function.update f.entering id ((f.worlds id).pass (f.entering id) e s) }

/-- The step is taken unless it would use a null connector. -/
def advance (f : Fleet) (id : ObjectId) (e : Event) (s : World) (o : Observation)
    (next : Fleet → Option (Fleet × FleetObservation)) : Option (Fleet × FleetObservation) :=
  if !f.hasConnector id && (f.worlds id).uses (f.entering id) e o then some (f, .nullPointer)
  else next (f.moved id e s)

/-- The end of a wait in `stop` that was called by `operator=` or the destructor takes the thread
on there. -/
def inside (stack : Nat) (f : Fleet) (id : ObjectId) (e : Event) :
    Option (Fleet × FleetObservation) :=
  if (f.heap.objects id).isNone then none
  else
    match (f.worlds id).step e with
    | none => none
    | some (s, o) =>
        if e.endsStop then
          match f.phase id with
          | some (.stopping t purpose sent) =>
              f.advance id e s o fun f => f.tearDown stack id t purpose sent
          | some (.naming _ _) => none
          | none => f.advance id e s o fun f => some (f, .inner o)
        else f.advance id e s o fun f => some (f, .inner o)

def step (stack : Nat) (f : Fleet) : FleetEvent → Option (Fleet × FleetObservation)
  | .construct clientName address dropEcho dropMembership mbox =>
      (f.heap.step stack (.construct clientName address dropEcho dropMembership)).map
        fun (h, result) =>
          let s := World.initial (.initial clientName address dropEcho dropMembership mbox)
          (f.enroll h s, .copied result)
  | .copy ref memory mbox =>
      match f.heap.objects ref with
      | none => none
      | some r =>
          if r.connector.isNone then some (f, .nullPointer)
          else
            match f.heap.copyConstruct stack ref memory with
            | none => none
            | some (h, .threw message) => some ({ f with heap := h }, .copied (.threw message))
            | some (h, .done) =>
                let s := World.initial (.initial ((h.clientName f.heap.next).getD []) r.address
                  r.dropEchoMessages r.dropMembershipMessages mbox)
                some (f.enroll h s, .copied .done)
  | .assign t id ref sent =>
      if (f.heap.objects ref).isNone then none else f.leave stack id t (.assign ref) sent
  | .name id mbox =>
      match f.phase id with
      | some (.naming _ ref) =>
          match f.heap.objects ref with
          | none => none
          | some r =>
              match r.connector with
              | none => some (f, .nullPointer)
              | some clientName =>
                  (f.heap.finishCopy stack id clientName).map fun (h, result) =>
                    (f.named id h mbox result, .copied result)
      | _ => none
  | .destroy t id sent => f.leave stack id t .destroy sent
  | .inner id e => f.inside stack id e

/-- The process, with a stack of any size. -/
def machine (stack : Nat) : Machine Fleet FleetEvent FleetObservation where
  init f := f = empty
  step := step stack

/-- No null connector is dereferenced. -/
def NonNull (_ : Fleet) (_ : FleetEvent) (_ : Fleet) (o : FleetObservation) : Prop :=
  o ≠ .nullPointer

/-- The source that an assignment is about to read. -/
def source (f : Fleet) (id : ObjectId) : Option ObjectId :=
  match f.phase id with
  | some (.naming _ ref) => some ref
  | _ => none

/-- What must not be done with a dispatcher that is torn down. -/
def Spared (f : Fleet) : FleetEvent → Prop
  | .copy ref _ _ => f.torn ref = false
  | .name id _ => ∀ ref ∈ f.source id, f.torn ref = false
  | .inner id (.perform _ (.sendMessageToGroup _) _) => f.torn id = false
  | .inner id (.perform _ (.connect _) _) => f.torn id = false
  -- a worker that has outlived its `stop`
  | .inner id (.job w sent) =>
      f.torn id = true → f.entering id w = false ∧
        ∀ r ∈ (f.worlds id).step (.job w sent), r.2.isHalt = false
  | _ => True

instance (f : Fleet) (e : FleetEvent) : Decidable (Spared f e) :=
  match e with
  | .copy .. => inferInstanceAs (Decidable (_ = false))
  | .name .. => inferInstanceAs (Decidable (∀ ref ∈ _, _ = false))
  | .construct .. | .assign .. | .destroy .. => inferInstanceAs (Decidable True)
  | .inner _ e =>
      match e with
      | .perform _ op _ =>
          match op with
          | .sendMessageToGroup _ | .connect _ => inferInstanceAs (Decidable (_ = false))
          | .registerGroup .. | .unregisterGroup .. | .disconnect =>
              inferInstanceAs (Decidable True)
      | .job .. => inferInstanceAs (Decidable (_ = true → _ = false ∧ ∀ r ∈ _, _ = false))
      | .start .. | .stop .. | .join | .timeOut => inferInstanceAs (Decidable True)
      | .receive .. | .pop .. | .deliver .. | .order .. | .hangUp .. => inferInstanceAs (Decidable True)

end Fleet

end Netbroker
