import Mathlib.Data.List.AList
import Netbroker.Connector.Basic
import Netbroker.SyncQueue.Basic

/-!
# The dispatcher under its mutex

`Dispatcher` holds what `m_dispatcherMutex` guards. Each public operation runs
under that mutex from its first statement to its return, so it is one function
from state to result and state, also where it throws. Only `stop` lets other
threads move while it holds the mutex; it is split where it waits for the worker.

Operations that send something take `sent`, the fate of the message on the socket.
-/

namespace Netbroker

open Spread

/-- The name of a queue object; an erased queue's name is not used again. -/
abbrev QueueId := Nat

/-- The name of a worker thread. -/
abbrev WorkerId := Nat

/-- The values of `Status` that `m_connStatus` takes. -/
inductive ConnStatus where
  | offline
  | online
  deriving DecidableEq, Repr

/-- The values of `Status` that `m_activity` takes. -/
inductive Activity where
  | started
  | stopped
  deriving DecidableEq, Repr

theorem ConnStatus.online_or_offline (c : ConnStatus) : c = .online ∨ c = .offline := by
  cases c
  · exact .inr rfl
  · exact .inl rfl

theorem Activity.started_or_stopped (a : Activity) : a = .started ∨ a = .stopped := by
  cases a
  · exact .inl rfl
  · exact .inr rfl

/-- What the dispatcher throws, one constructor a message text. -/
inductive DispatcherException where
  | bufferSizeExceeded
  | groupNameExceeded
  | groupRegistered (name : Str)
  | sendOnlyGroupRegistered (name : Str)
  | networkNotConnected
  | unableToRemoveGroup
  | reservedOpCode
  | messageSizeRefused (name : Str)
  | groupNotRegistered
  | groupNotFound
  | stillConnected
  | stillRunning
  | dispatcherNotConnected
  | alreadyStarted
  | alreadyStopped
  | notYetStopped
  deriving DecidableEq, Repr

/-- The bytes of a literal. -/
def bytes (s : String) : Str := s.toUTF8.toList

/-- `m_message`. -/
def DispatcherException.message : DispatcherException → Str
  | .bufferSizeExceeded => bytes "Group's buffer size exceeds Spread specifications"
  | .groupNameExceeded => bytes "Group name size exceeded!"
  | .groupRegistered name => bytes "Group " ++ name ++ bytes " already registered"
  | .sendOnlyGroupRegistered name =>
      bytes "Send only group " ++ name ++ bytes " already registered"
  | .networkNotConnected => bytes "Network not connected"
  | .unableToRemoveGroup => bytes "Unable to remove group: group not found!"
  | .reservedOpCode => bytes "Reserved op code!"
  | .messageSizeRefused name =>
      bytes "ERROR: Message size did not pass group " ++ name ++ bytes " specification"
  | .groupNotRegistered => bytes "Group not registered"
  | .groupNotFound => bytes "Group not found!"
  | .stillConnected => bytes "Dispatcher is still connected. Disconnect first."
  | .stillRunning => bytes "Dispatcher is still running. Stop it first!"
  | .dispatcherNotConnected => bytes "Dispatcher is not connected!"
  | .alreadyStarted => bytes "Dispatcher is already started. Stop it first!"
  | .alreadyStopped => bytes "Dispatcher has already been stopped!"
  | .notYetStopped => bytes "Dispatcher has not yet been stopped. Stop it before disconnecting"

/-- A value of `m_group_buffer_map`: the registered group and its queue. -/
structure Registration where
  group : Group
  queue : QueueId
  deriving DecidableEq, Repr

/-- `Group::operator<` compares names only, so the map's key is the name. -/
abbrev GroupsBufferMap := AList fun _ : Str => Registration

structure Dispatcher where
  connection : Connection
  address : Str
  connStatus : ConnStatus
  activity : Activity
  /-- `m_pThread`. -/
  thread : Option WorkerId
  groups : GroupsBufferMap
  sendOnlyGroups : List Group
  /-- The queue objects on the heap. -/
  queues : QueueId → SyncFifoQueue Buffer
  nextQueue : QueueId
  dropEchoMessages : Bool
  dropMembershipMessages : Bool

namespace Dispatcher

/-- The constructor; the connector's mailbox is uninitialised. -/
def initial (clientName address : Str) (dropEcho dropMembership : Bool) (mbox : Mailbox) :
    Dispatcher :=
  { connection := .initial clientName mbox, address, connStatus := .offline
    activity := .stopped, thread := none, groups := ∅, sendOnlyGroups := []
    queues := fun _ => .new 0, nextQueue := 0
    dropEchoMessages := dropEcho, dropMembershipMessages := dropMembership }

/-- `getClientName() + DISPATCHER_CTRL_GRP`, the suffix being `_hltd`. -/
def controlGroup (d : Dispatcher) : Str :=
  d.connection.connector.clientName ++ [95, 104, 108, 116, 100]

/-- Insert a group with a new queue of its own. -/
def insertGroup (d : Dispatcher) (g : Group) (queueSize : Nat) : Dispatcher :=
  { d with
    groups := d.groups.insert g.name { group := g, queue := d.nextQueue }
    queues := Function.update d.queues d.nextQueue (.new queueSize)
    nextQueue := d.nextQueue + 1 }

def registerGroup (d : Dispatcher) (groupName : Str) (bufferSize : Int) (queueSize : Nat)
    (sendOnly sent : Bool) : Except DispatcherException Unit × Dispatcher :=
  if 92160 < bufferSize then (.error .bufferSizeExceeded, d)
  else if maxGroupName ≤ groupName.length then (.error .groupNameExceeded, d)
  else
    let newGroup := Group.new groupName bufferSize queueSize
    if groupName ∈ d.groups then (.error (.groupRegistered groupName), d)
    else if sendOnly then
      if d.sendOnlyGroups.any (·.name = groupName) then
        (.error (.sendOnlyGroupRegistered groupName), d)
      else (.ok (), { d with sendOnlyGroups := d.sendOnlyGroups ++ [newGroup] })
    else
      let d := d.insertGroup newGroup queueSize
      match d.connStatus with
      | .online => (.ok (), { d with connection := (d.connection.joinGroup sent groupName).2 })
      -- the group stays in the map
      | .offline => (.error .networkNotConnected, d)

def unregisterGroup (d : Dispatcher) (groupName : Str) (sent : Bool) :
    Except DispatcherException Unit × Dispatcher :=
  if maxGroupName ≤ groupName.length then (.error .groupNameExceeded, d)
  else
    match d.sendOnlyGroups with
    -- the loop returns in its first round, whatever it finds there
    | first :: rest =>
        (.ok (), if first.name = groupName then { d with sendOnlyGroups := rest } else d)
    | [] =>
        if groupName ∈ d.groups then
          match d.connStatus with
          | .online =>
              (.ok (),
                { d with
                  connection := (d.connection.leaveGroup sent groupName).2
                  groups := d.groups.erase groupName })
          | .offline => (.error .networkNotConnected, d)
        else (.error .unableToRemoveGroup, d)

/-- The decorated name of `Dispatcher::stop`, as `__FUNCDNAME__` gives it. -/
def stopName : String := "?stop@Dispatcher@@UAE_NXZ"

def makeMessage (d : Dispatcher) (groupName : Str) (data : List UInt8) (opCode : BitVec 16)
    (callerFuncName : String) : Except DispatcherException Buffer :=
  if d.connStatus = .offline then .error .networkNotConnected
  else if callerFuncName ≠ stopName ∧ opCode = sigHaltMsg then .error .reservedOpCode
  else
    match d.sendOnlyGroups.find? (·.name = groupName) with
    | some g =>
        match g.createBuffer data opCode with
        | some b => .ok b
        | none => .error (.messageSizeRefused groupName)
    | none =>
        match d.groups.lookup groupName with
        | none => .error .groupNotRegistered
        | some r =>
            match r.group.createBuffer data opCode with
            | some b => .ok b
            | none => .error (.messageSizeRefused groupName)

def sendMessageToGroup (d : Dispatcher) (b : Buffer) (sent : Bool) : Int × Dispatcher :=
  let (ret, connection) := d.connection.sendToGroup sent b
  (ret, { d with connection })

/-- The part of `receiveMessageFromGroup` under the mutex: no queue if the
dispatcher is stopped, else the raw pointer to the group's queue. -/
def findQueue (d : Dispatcher) (groupName : Str) :
    Except DispatcherException (Option QueueId) :=
  if d.activity = .stopped then .ok none
  else
    match d.groups.lookup groupName with
    | none => .error .groupNotFound
    | some r => .ok (some r.queue)

def connect (d : Dispatcher) (answer : Answer) (sent : Bool) :
    Except DispatcherException Bool × Dispatcher :=
  if d.connStatus = .online then (.error .stillConnected, d)
  else if d.activity = .started then (.error .stillRunning, d)
  else
    let (status, connection) := d.connection.connectNetwork d.address answer
    if 0 ≤ status then
      let d := { d with connection, connStatus := .online }
      let (result, d) := d.registerGroup d.controlGroup 1 1 false sent
      (result.map fun _ => true, d)
    else (.ok false, { d with connection })

/-- `start`, given the name of the new thread. -/
def start (d : Dispatcher) (worker : WorkerId) : Except DispatcherException Unit × Dispatcher :=
  if d.connStatus = .offline then (.error .dispatcherNotConnected, d)
  else if d.activity = .started then (.error .alreadyStarted, d)
  else (.ok (), { d with thread := some worker, activity := .started })

def isOnline (d : Dispatcher) : Bool := d.connStatus = .online

/-- `stop` up to its wait for the thread: check the state and send the halt message,
whose fate is ignored. -/
def requestStop (d : Dispatcher) (sent : Bool) : Except DispatcherException Unit × Dispatcher :=
  if d.connStatus = .offline then (.error .dispatcherNotConnected, d)
  else if d.activity = .stopped then (.error .alreadyStopped, d)
  else
    match d.makeMessage d.controlGroup [0] sigHaltMsg stopName with
    | .error e => (.error e, d)
    | .ok b => (.ok (), (d.sendMessageToGroup b sent).2)

/-- `stop` once the thread has ended, or where there is none. -/
def joined (d : Dispatcher) : Dispatcher := { d with thread := none, activity := .stopped }

/-- `stop` once `timed_join` has given up. The status stays what it was. -/
def timedOut (d : Dispatcher) : Dispatcher :=
  { d with
    connection := d.connection.disconnectNetwork.2, thread := none, activity := .stopped }

def disconnect (d : Dispatcher) (sent : Bool) : Except DispatcherException Unit × Dispatcher :=
  if d.activity = .started then (.error .notYetStopped, d)
  else if d.connStatus = .online then
    match d.unregisterGroup d.controlGroup sent with
    | (.error e, d) => (.error e, d)
    | (.ok _, d) =>
        (.ok (),
          { d with connection := d.connection.disconnectNetwork.2, connStatus := .offline })
  else (.ok (), d)

end Dispatcher

end Netbroker
