import Netbroker.Connector.Receive
import Netbroker.Dispatcher.Basic
import Netbroker.Transition.Machine

/-!
# The dispatcher and its threads

User threads call the dispatcher, worker threads run `job()`, and the network
delivers frames. An operation under `m_dispatcherMutex` is one step; so is one call
of `SP_receive` with the code up to the next one, and one critical section of a
group's queue. Between steps the mutex is free, unless some thread waits in
`stop`'s `timed_join`: that thread keeps it, and every step that needs it is
disabled. A blocked thread is one whose next step is disabled.

`start` leaves the old worker alone, so a worker that outlived the time-out of a
`stop` runs beside the new one.

The daemon orders what the session has multicast at a time of its own, `order`, and may put
frames of others in front of it, `deliver`. The state, the steps of `job()` and the steps of
the world come in this order; the client at the end is for schedules.
-/

namespace Netbroker

open Spread Transition

/-- The ways out of `job()`: the loop condition, the halt message, a lost connection. -/
inductive Exit where
  | offline
  | halted
  | lost
  deriving DecidableEq, Repr

/-- Where a worker stands in `job()`. -/
inductive WorkerPc where
  /-- Ahead of `isOnline()`, which takes the mutex. -/
  | loop
  /-- In `receiveFromGroup`, ahead of a call of `SP_receive`. -/
  | call (r : Reading)
  /-- In `SP_receive` on an open session, at its `recv`. -/
  | inside (mbox : Mailbox) (r : Reading)
  /-- Ahead of the routing section, which takes the mutex. -/
  | route (b : Buffer)
  /-- Past the routing section, with the raw pointer to a queue. -/
  | push (q : QueueId) (b : Buffer)
  /-- In the connection-lost branch, ahead of `stop()` or in its `timed_join`. -/
  | stopping
  /-- In the connection-lost branch, ahead of `disconnect()`. -/
  | disconnecting
  | done (why : Exit)
  deriving DecidableEq, Repr

/-- In `receiveFromGroup`. -/
def WorkerPc.isReading : WorkerPc → Bool
  | .call _ | .inside _ _ => true
  | _ => false

/-- Where a user thread stands. -/
inductive UserPc where
  | idle
  /-- In `receiveMessageFromGroup`, with the raw pointer to a queue. -/
  | popping (q : QueueId) (isLocking : Bool)
  deriving DecidableEq, Repr

/-- A thread that may wait in `timed_join`. -/
inductive Holder where
  | user (t : ThreadId)
  | worker (w : WorkerId)
  deriving DecidableEq, Repr

structure World where
  dispatcher : Dispatcher
  /-- The thread in `stop`'s `timed_join`, which holds `m_dispatcherMutex`. -/
  holder : Option Holder
  users : ThreadId → UserPc
  /-- The workers created so far. -/
  workers : WorkerId → Option WorkerPc
  nextWorker : WorkerId

/-- The user's operations that are one critical section. -/
inductive Operation where
  | registerGroup (groupName : Str) (bufferSize : Int) (queueSize : Nat) (sendOnly : Bool)
  | unregisterGroup (groupName : Str)
  | sendMessageToGroup (b : Buffer)
  | connect (answer : Answer)
  | disconnect

inductive Event where
  | perform (t : ThreadId) (op : Operation) (sent : Bool)
  | start (t : ThreadId)
  | stop (t : ThreadId) (sent : Bool)
  /-- The joined thread has ended. -/
  | join
  | timeOut
  /-- The lookup of `receiveMessageFromGroup`. -/
  | receive (t : ThreadId) (groupName : Str) (isLocking : Bool)
  /-- Its pop. -/
  | pop (t : ThreadId)
  /-- The next step of a worker. -/
  | job (w : WorkerId) (sent : Bool)
  /-- The daemon orders a frame of somebody else's for the session. -/
  | deliver (mbox : Mailbox) (f : Frame)
  /-- It orders the oldest of the session's own. -/
  | order (mbox : Mailbox)
  | hangUp (mbox : Mailbox)

/-- What an observer of a step sees. -/
inductive Observation where
  | silent
  | threw (e : DispatcherException)
  | returned (answer : Bool)
  /-- `stop` has sent the halt message. -/
  | haltSent
  /-- `receiveFromGroup` has returned in a worker. -/
  | received (w : WorkerId) (ret : Int) (b : Buffer)
  | enqueued (q : QueueId) (b : Buffer)
  | obtained (t : ThreadId) (q : QueueId) (b : Buffer)

/-- A `push` that has returned. -/
def Observation.ofPush (q : QueueId) (b : Buffer) : SyncFifoQueue.Ret Buffer → Observation
  | .pushed => .enqueued q b
  | _ => .silent

/-- A `pop` or `async_pop` that has returned; only the latter reports a failure. -/
def Observation.ofPop (t : ThreadId) (q : QueueId) (isLocking : Bool) :
    SyncFifoQueue.Ret Buffer → Observation
  | .popped b => .obtained t q b.copy
  | _ => .returned isLocking

namespace Dispatcher

/-- The reader that `receiveFromGroup` is for the session. -/
def listener (d : Dispatcher) (privateGroup : Str) : Listener :=
  { privateGroup
    connectionName := d.connection.connector.connectionName
    dropEcho := d.dropEchoMessages
    dropMembership := d.dropMembershipMessages }

/-- `job()` from the return of `receiveFromGroup`. The halt test comes first and
does not look at the return value. -/
def afterReceive (d : Dispatcher) (retVal : Int) (retBuf : Buffer) : WorkerPc :=
  if retBuf.opCode = sigHaltMsg ∧ retBuf.groupName = d.controlGroup then .done .halted
  else if 0 ≤ retVal then .route retBuf
  else if retVal = connectionClosed ∨ retVal = netErrorOnSession then .stopping
  else .loop

/-- The routing section: the queue to push to, unless the group is unknown or its
queue is full. -/
def routeTo (d : Dispatcher) (retBuf : Buffer) : WorkerPc :=
  match d.groups.lookup retBuf.groupName with
  | none => .loop
  | some r =>
      match (d.queues r.queue).criticalSection .isFull with
      | .done _ (.full true) _ => .loop
      | _ => .push r.queue retBuf

/-- Change the session behind a mailbox. -/
def setSession (d : Dispatcher) (mbox : Mailbox) (session : Session) : Dispatcher :=
  { d with
    connection := { d.connection with spread := d.connection.spread.set mbox (some session) } }

def setQueue (d : Dispatcher) (q : QueueId) (queue : SyncFifoQueue Buffer) : Dispatcher :=
  { d with queues := Function.update d.queues q queue }

end Dispatcher

namespace World

def initial (d : Dispatcher) : World :=
  { dispatcher := d, holder := none, users := fun _ => .idle, workers := fun _ => none
    nextWorker := 0 }

def setDispatcher (s : World) (d : Dispatcher) : World := { s with dispatcher := d }

def setUser (s : World) (t : ThreadId) (pc : UserPc) : World :=
  { s with users := Function.update s.users t pc }

def setWorker (s : World) (w : WorkerId) (pc : WorkerPc) : World :=
  { s with workers := Function.update s.workers w (some pc) }

section Fields

variable (s : World) (d : Dispatcher) (t : ThreadId) (u : UserPc) (w : WorkerId) (pc : WorkerPc)

@[simp] theorem setDispatcher_dispatcher : (s.setDispatcher d).dispatcher = d := rfl
@[simp] theorem setDispatcher_holder : (s.setDispatcher d).holder = s.holder := rfl
@[simp] theorem setDispatcher_users : (s.setDispatcher d).users = s.users := rfl
@[simp] theorem setDispatcher_workers : (s.setDispatcher d).workers = s.workers := rfl
@[simp] theorem setDispatcher_nextWorker : (s.setDispatcher d).nextWorker = s.nextWorker := rfl

@[simp] theorem setUser_dispatcher : (s.setUser t u).dispatcher = s.dispatcher := rfl
@[simp] theorem setUser_holder : (s.setUser t u).holder = s.holder := rfl
@[simp] theorem setUser_users : (s.setUser t u).users = Function.update s.users t u := rfl
@[simp] theorem setUser_workers : (s.setUser t u).workers = s.workers := rfl
@[simp] theorem setUser_nextWorker : (s.setUser t u).nextWorker = s.nextWorker := rfl

@[simp] theorem setWorker_dispatcher : (s.setWorker w pc).dispatcher = s.dispatcher := rfl
@[simp] theorem setWorker_holder : (s.setWorker w pc).holder = s.holder := rfl
@[simp] theorem setWorker_users : (s.setWorker w pc).users = s.users := rfl
@[simp] theorem setWorker_workers :
    (s.setWorker w pc).workers = Function.update s.workers w (some pc) := rfl
@[simp] theorem setWorker_nextWorker : (s.setWorker w pc).nextWorker = s.nextWorker := rfl

end Fields

section Update

variable {s : World}

/-- A worker is where it was, unless it is the one that moved. -/
theorem setWorker_inv {w w' : WorkerId} {pc pc' : WorkerPc}
    (h : (s.setWorker w pc).workers w' = some pc') :
    w' = w ∧ pc' = pc ∨ w' ≠ w ∧ s.workers w' = some pc' := by
  by_cases hw : w' = w
  · subst hw
    exact .inl ⟨rfl, by simpa using h.symm⟩
  · rw [setWorker_workers, Function.update_of_ne hw] at h
    exact .inr ⟨hw, h⟩

theorem setWorker_at {w : WorkerId} {pc pc' : WorkerPc}
    (h : (s.setWorker w pc).workers w = some pc') : pc = pc' := by
  rw [setWorker_workers, Function.update_self] at h
  exact Option.some.inj h

/-- A user thread is where it was, unless it is the one that moved. -/
theorem setUser_inv {t t' : ThreadId} {pc pc' : UserPc}
    (h : (s.setUser t pc).users t' = pc') :
    t' = t ∧ pc' = pc ∨ t' ≠ t ∧ s.users t' = pc' := by
  by_cases ht : t' = t
  · subst ht
    rw [setUser_users, Function.update_self] at h
    exact .inl ⟨rfl, h.symm⟩
  · rw [setUser_users, Function.update_of_ne ht] at h
    exact .inr ⟨ht, h⟩

/-- The worker that waits in `stop` is not the one that moves. -/
theorem waiting_ne {w w' : WorkerId} {pc : WorkerPc} (at' : s.workers w = some pc)
    (hfree : s.holder = none ∨ pc ≠ .stopping) (held : s.holder = some (.worker w'))
    (waiting : s.workers w' = some .stopping) : w' ≠ w := by
  rintro rfl
  rcases hfree with hnone | hpc
  · rw [hnone] at held
    cases held
  · exact hpc (Option.some.inj (at'.symm.trans waiting))

end Update

/-- The worker's call of `SP_receive` returns. -/
def resume (s : World) (w : WorkerId) (privateGroup : Str) (r : Reading) (x : Reception) :
    World × Observation :=
  match r.resume (s.dispatcher.listener privateGroup) x with
  | .call r => (s.setWorker w (.call r), .silent)
  | .returned ret b => (s.setWorker w (s.dispatcher.afterReceive ret b), .received w ret b)

/-- The worker enters `SP_receive`, which looks the session up. -/
def enterReceive (s : World) (w : WorkerId) (r : Reading) : World × Observation :=
  match s.dispatcher.connection.session with
  | none => s.resume w [] r (r.failed illegalSession)
  | some session =>
      if session.active then
        (s.setWorker w (.inside s.dispatcher.connection.connector.spreadMbox r), .silent)
      else s.resume w session.privateGroup r (r.failed netErrorOnSession)

/-- The worker's `recv` ends: with a frame, with the end of the stream, or because
the session has been taken off the table. -/
def endReceive (s : World) (w : WorkerId) (mbox : Mailbox) (r : Reading) :
    Option (World × Observation) :=
  match s.dispatcher.connection.spread.sessions mbox with
  | none => some (s.resume w [] r (r.failed connectionClosed))
  | some session =>
      match session.pending with
      | f :: rest =>
          let x := r.receive session.privateGroup f
          let pending := if x.consumed then rest else f :: rest
          let d := s.dispatcher.setSession mbox { session with pending }
          some ((s.setDispatcher d).resume w session.privateGroup r x)
      | [] =>
          if session.closed then
            let d := s.dispatcher.setSession mbox { session with active := false }
            some ((s.setDispatcher d).resume w session.privateGroup r (r.failed connectionClosed))
          else none

/-- `stop` up to the wait for the thread, by a user or by a worker. -/
def requestStop (s : World) (h : Holder) (sent : Bool) : Except DispatcherException World :=
  match s.dispatcher.requestStop sent with
  | (.error e, _) => .error e
  | (.ok _, d) => .ok { s with dispatcher := d, holder := some h }

/-- `stop` is over: its caller goes on, in a worker to `disconnect`. -/
def release (s : World) (h : Holder) (d : Dispatcher) : World :=
  let s := { s with dispatcher := d, holder := none }
  match h with
  | .user _ => s
  | .worker w => s.setWorker w .disconnecting

@[simp] theorem release_holder (s : World) (h : Holder) (d : Dispatcher) :
    (s.release h d).holder = none := by
  cases h <;> rfl

/-- The next step of a worker at the given point. -/
def jobStep (s : World) (w : WorkerId) (sent : Bool) : WorkerPc → Option (World × Observation)
  | .loop =>
      if s.holder.isSome then none
      else
        let pc := if s.dispatcher.isOnline then .call .start else .done .offline
        some (s.setWorker w pc, .silent)
  | .call r => some (s.enterReceive w r)
  | .inside mbox r => s.endReceive w mbox r
  | .route b =>
      if s.holder.isSome then none else some (s.setWorker w (s.dispatcher.routeTo b), .silent)
  | .push q b =>
      match (s.dispatcher.queues q).criticalSection (.push b.copy) with
      | .wait => none
      | .done queue ret _ =>
          some ((s.setDispatcher (s.dispatcher.setQueue q queue)).setWorker w .loop,
            .ofPush q b.copy ret)
  | .stopping =>
      if s.holder.isSome then none
      else
        match s.requestStop (.worker w) sent with
        | .error e => some (s.setWorker w (.done .lost), .threw e)
        | .ok s => some (s, .haltSent)
  | .disconnecting =>
      if s.holder.isSome then none
      else
        let (result, d) := s.dispatcher.disconnect sent
        let s := (s.setDispatcher d).setWorker w (.done .lost)
        match result with
        | .error e => some (s, .threw e)
        | .ok _ => some (s, .silent)
  | .done _ => none

def perform (d : Dispatcher) (sent : Bool) :
    Operation → Except DispatcherException Bool × Dispatcher
  | .registerGroup groupName bufferSize queueSize sendOnly =>
      let (result, d) := d.registerGroup groupName bufferSize queueSize sendOnly sent
      (result.map fun _ => true, d)
  | .unregisterGroup groupName =>
      let (result, d) := d.unregisterGroup groupName sent
      (result.map fun _ => true, d)
  | .sendMessageToGroup b =>
      let (ret, d) := d.sendMessageToGroup b sent
      (.ok (0 ≤ ret), d)
  | .connect answer => d.connect answer sent
  | .disconnect =>
      let (result, d) := d.disconnect sent
      (result.map fun _ => true, d)

def observe : Except DispatcherException Bool → Observation
  | .error e => .threw e
  | .ok answer => .returned answer

/-- May the user thread enter the dispatcher? -/
def enters (s : World) (t : ThreadId) : Bool := s.holder = none && s.users t = .idle

def step (s : World) : Event → Option (World × Observation)
  | .perform t op sent =>
      if s.enters t then
        let (result, d) := perform s.dispatcher sent op
        some (s.setDispatcher d, observe result)
      else none
  | .start t =>
      if s.enters t then
        match s.dispatcher.start s.nextWorker with
        | (.error e, _) => some (s, .threw e)
        | (.ok _, d) =>
            some ({ (s.setDispatcher d).setWorker s.nextWorker .loop with
                    nextWorker := s.nextWorker + 1 }, .returned true)
      else none
  | .stop t sent =>
      if s.enters t then
        match s.requestStop (.user t) sent with
        | .error e => some (s, .threw e)
        | .ok s => some (s, .haltSent)
      else none
  | .join =>
      match s.holder, s.dispatcher.thread with
      | some h, none => some (s.release h s.dispatcher.joined, .returned true)
      | some h, some w =>
          match s.workers w with
          | some (.done _) => some (s.release h s.dispatcher.joined, .returned true)
          | _ => none
      | none, _ => none
  | .timeOut =>
      match s.holder, s.dispatcher.thread with
      | some h, some _ => some (s.release h s.dispatcher.timedOut, .returned false)
      | _, _ => none
  | .receive t groupName isLocking =>
      if s.enters t then
        match s.dispatcher.findQueue groupName with
        | .error e => some (s, .threw e)
        | .ok none => some (s, .returned false)
        | .ok (some q) => some (s.setUser t (.popping q isLocking), .silent)
      else none
  | .pop t =>
      match s.users t with
      | .idle => none
      | .popping q isLocking =>
          let op := if isLocking then .pop else .asyncPop
          match (s.dispatcher.queues q).criticalSection op with
          | .wait => none
          | .done queue ret _ =>
              some ((s.setDispatcher (s.dispatcher.setQueue q queue)).setUser t .idle,
                .ofPop t q isLocking ret)
  | .job w sent =>
      match s.workers w with
      | none => none
      | some pc => s.jobStep w sent pc
  | .deliver mbox f =>
      match Spread.deliver s.dispatcher.connection.spread mbox f with
      | none => none
      | some spread =>
          some (s.setDispatcher { s.dispatcher with
            connection := { s.dispatcher.connection with spread } }, .silent)
  | .order mbox =>
      match Spread.order s.dispatcher.connection.spread mbox with
      | none => none
      | some spread =>
          some (s.setDispatcher { s.dispatcher with
            connection := { s.dispatcher.connection with spread } }, .silent)
  | .hangUp mbox =>
      match Spread.hangUp s.dispatcher.connection.spread mbox with
      | none => none
      | some spread =>
          some (s.setDispatcher { s.dispatcher with
            connection := { s.dispatcher.connection with spread } }, .silent)

/-- A new dispatcher of the client, and nobody inside it. -/
def machine (clientName : Str) : Machine World Event Observation where
  init s := ∃ address dropEcho dropMembership mbox,
    s = initial (.initial clientName address dropEcho dropMembership mbox)
  step := step

/-- The client `ab`, keeping echoes and dropping membership messages. -/
def demoClient : Str := [97, 98]

def demo : World := initial (.initial demoClient [] false true 0)

theorem demo_init : (machine demoClient).init demo := ⟨[], false, true, 0, rfl⟩

/-- The group `g`. -/
def demoGroup : Str := [103]

/-- Connect as `#ab`. -/
def connects : Event := .perform 0 (.connect (.accepted [35, 97, 98])) true

/-- The state after the first connect. -/
def demoOnline : World :=
  demo.setDispatcher (demo.dispatcher.connect (.accepted [35, 97, 98]) true).2

theorem demo_connects :
    (machine demoClient).step demo connects = some (demoOnline, .returned true) := rfl

/-- Register the group `g`, with messages of up to 8 bytes and a queue of 2. -/
def registers : Event := .perform 0 (.registerGroup demoGroup 8 2 false) true

end World

end Netbroker
