import Netbroker.Dispatcher.Lifetime
import Netbroker.Dispatcher.Store

/-!
# Routing from the worker to the group queues

The worker looks a queue up under one mutex, finds it full or not under another, and
pushes under neither. With one worker and a registry that only grows nothing comes in
between: a queue that was not full stays so until the push, and it stays the queue of
its group. Here `receiveFromGroup` may return anything at any moment, and a log beside
the state keeps what the worker and the consumers have seen.

The log says for each message where it has come: received, checked, into a queue, out of it.
`Accounted` is the agreement of the log with the queues and with what the threads have in
hand. Each step of the worker and of a consumer keeps it, and the routing of one group is read
off it.
-/

namespace Netbroker

open Spread Transition

/-- A step of the world, or a return of `receiveFromGroup` with any result. -/
inductive Feed where
  | acts (e : Event)
  | returns (w : WorkerId) (ret : Int) (b : Buffer)

/-- What the routing section finds for a message. -/
inductive Check where
  | unknown
  | full
  | passes
  deriving DecidableEq, Repr

/-- A message obtained by a caller of `receiveMessageFromGroup` for the group. -/
structure Delivery where
  group : Str
  queue : QueueId
  message : Buffer
  deriving DecidableEq, Repr

/-- Everything in the order in which it happened. -/
structure Log where
  /-- Received by the worker with a value `≥ 0`, the halt message excepted. -/
  received : List Buffer
  checked : List (Buffer × Check)
  enqueued : List (QueueId × Buffer)
  /-- The group of each thread's last call of `receiveMessageFromGroup`. -/
  asked : ThreadId → Str
  obtained : List Delivery

/-- The halt message of the control group. -/
def Dispatcher.isHalt (d : Dispatcher) (b : Buffer) : Bool :=
  b.opCode = sigHaltMsg && b.groupName = d.controlGroup

/-- What the routing section finds. -/
def Dispatcher.check (d : Dispatcher) (b : Buffer) : Check :=
  match d.groups.lookup b.groupName with
  | none => .unknown
  | some r => if (d.queues r.queue).maxSize = (d.queues r.queue).currSize then .full else .passes

namespace Log

def empty : Log :=
  { received := [], checked := [], enqueued := [], asked := fun _ => [], obtained := [] }

/-- The entry of a step, which is read in the state ahead of it. -/
def record (log : Log) (s : World) (e : Feed) : Observation → Log
  | .received _ ret b =>
      if 0 ≤ ret ∧ s.dispatcher.isHalt b = false then
        { log with received := log.received ++ [b] }
      else log
  | .enqueued q b => { log with enqueued := log.enqueued ++ [(q, b)] }
  | .obtained t q b =>
      { log with
        obtained := log.obtained ++ [{ group := log.asked t, queue := q, message := b }] }
  | .silent =>
      match e with
      | .acts (.job w _) =>
          match s.workers w with
          | some (.route b) => { log with checked := log.checked ++ [(b, s.dispatcher.check b)] }
          | _ => log
      | .acts (.receive t groupName _) =>
          { log with asked := Function.update log.asked t groupName }
      | _ => log
  | _ => log

/-- The messages that have passed the worker's check. -/
def passed (log : Log) : List Buffer :=
  (log.checked.filter fun c => c.2 = .passes).map (·.1.copy)

/-- The messages that have entered a queue. -/
def into (log : Log) (q : QueueId) : List Buffer :=
  (log.enqueued.filter (·.1 = q)).map (·.2)

/-- The messages that have been taken out of a queue. -/
def outOf (log : Log) (q : QueueId) : List Buffer :=
  (log.obtained.filter (·.queue = q)).map (·.message)

/-- The messages received for a group. -/
def receivedFor (log : Log) (g : Str) : List Buffer := log.received.filter (·.groupName = g)

/-- The messages that have entered the group's queue. -/
def enqueuedFor (log : Log) (d : Dispatcher) (g : Str) : List Buffer :=
  match d.groups.lookup g with
  | none => []
  | some r => log.into r.queue

end Log

namespace World

end World

/-- The message ahead of the routing section. -/
def WorkerPc.awaiting : WorkerPc → List Buffer
  | .route b => [b]
  | _ => []

/-- The message past the routing section, as it will enter the queue. -/
def WorkerPc.inHand : WorkerPc → List Buffer
  | .push _ b => [b.copy]
  | _ => []

def World.awaiting (s : World) : List Buffer := (s.workers 0).elim [] WorkerPc.awaiting

def World.inHand (s : World) : List Buffer := (s.workers 0).elim [] WorkerPc.inHand

namespace World

/-- The log agrees with the queues and with what the threads have in hand. -/
structure Accounted (s : World) (log : Log) : Prop where
  store : s.dispatcher.Store
  single : ∀ w pc, s.workers w = some pc → w = 0 ∧ 0 < s.nextWorker
  parked : ∀ w, s.holder = some (.worker w) → s.workers w = some .stopping
  pushing : ∀ q b, s.workers 0 = some (.push q b) → s.dispatcher.Owns b.groupName q ∧
    (s.dispatcher.queues q).currSize < (s.dispatcher.queues q).maxSize
  popping : ∀ t q isLocking, s.users t = .popping q isLocking →
    s.dispatcher.Owns (log.asked t) q
  received : log.received = log.checked.map Prod.fst ++ s.awaiting
  passed : log.passed = log.enqueued.map Prod.snd ++ s.inHand
  owned : ∀ x ∈ log.enqueued, s.dispatcher.Owns x.2.groupName x.1
  delivered : ∀ x ∈ log.obtained, s.dispatcher.Owns x.group x.queue
  account : ∀ q, (log.into q).map Buffer.copy =
    log.outOf q ++ (s.dispatcher.queues q).deque.map Buffer.copy

variable {s : World} {log log' : Log} {d : Dispatcher}

theorem Accounted.same (h : s.Accounted log) (same : s.dispatcher.SameQueues d) :
    (s.setDispatcher d).Accounted log where
  store := h.store.same same
  single := h.single
  parked := h.parked
  pushing q b hpush := by
    rw [setDispatcher_dispatcher, same.owns, same.queues]
    exact h.pushing q b hpush
  popping t q isLocking hpop := (same.owns _ _).mpr (h.popping t q isLocking hpop)
  received := h.received
  passed := h.passed
  owned x hx := (same.owns _ _).mpr (h.owned x hx)
  delivered x hx := (same.owns _ _).mpr (h.delivered x hx)
  account q := by
    rw [setDispatcher_dispatcher, same.queues]
    exact h.account q

/-- Nothing has gone through the queue of a group that is new. -/
theorem Accounted.insertGroup (h : s.Accounted log) {g : Group} {n : Nat}
    (new : g.name ∉ s.dispatcher.groups) :
    (s.setDispatcher (s.dispatcher.insertGroup g n)).Accounted log := by
  have keeps : ∀ {name q}, s.dispatcher.Owns name q →
      (s.dispatcher.insertGroup g n).Owns name q :=
    fun howns => (Dispatcher.insertGroup_owns new _ _).mpr (.inl howns)
  refine ⟨h.store.insertGroup new, h.single, h.parked, fun q b hpush => ?_,
    fun t q isLocking hpop => keeps (h.popping t q isLocking hpop), h.received, h.passed,
    fun x hx => keeps (h.owned x hx), fun x hx => keeps (h.delivered x hx), fun q => ?_⟩
  · obtain ⟨howns, hroom⟩ := h.pushing q b hpush
    have hq : q ≠ s.dispatcher.nextQueue := Nat.ne_of_lt (h.store.fresh _ q howns)
    rw [setDispatcher_dispatcher, Dispatcher.insertGroup_queues_of_ne hq]
    exact ⟨keeps howns, hroom⟩
  · have haccount := h.account q
    by_cases hq : q = s.dispatcher.nextQueue
    · have hinto : log.into q = [] := by
        simp only [Log.into, List.map_eq_nil_iff, List.filter_eq_nil_iff, decide_eq_true_eq]
        intro x hx hxq
        exact Nat.ne_of_lt (h.store.fresh _ _ (h.owned x hx)) (hxq.trans hq)
      rw [hinto, List.map_nil, List.nil_eq_append_iff] at haccount
      subst hq
      simp [hinto, haccount.1, SyncFifoQueue.new]
    · rw [setDispatcher_dispatcher, Dispatcher.insertGroup_queues_of_ne hq]
      exact haccount

theorem Accounted.extends (h : s.Accounted log) (grows : s.dispatcher.Extends d) :
    (s.setDispatcher d).Accounted log := by
  rcases grows with same | ⟨g, n, new, same⟩
  · exact h.same same
  · exact (h.insertGroup new).same same

/-- The mutex is taken or given back. -/
theorem Accounted.hold (h : s.Accounted log) {holder : Option Holder}
    (parked : ∀ w, holder = some (.worker w) → s.workers w = some .stopping) :
    ({ s with holder } : World).Accounted log :=
  ⟨h.store, h.single, parked, h.pushing, h.popping, h.received, h.passed, h.owned, h.delivered,
    h.account⟩

/-- The worker goes on. Where it has a message in hand the log says so. -/
theorem Accounted.moveWorker (h : s.Accounted log) {w : WorkerId} {pc pc' : WorkerPc}
    (at' : s.workers w = some pc) (hfree : s.holder = none ∨ pc ≠ .stopping)
    (hrest : log'.enqueued = log.enqueued ∧ log'.obtained = log.obtained ∧ log'.asked = log.asked)
    (hpushing : ∀ q b, pc' = .push q b → s.dispatcher.Owns b.groupName q ∧
      (s.dispatcher.queues q).currSize < (s.dispatcher.queues q).maxSize)
    (hreceived : log'.received = log'.checked.map Prod.fst ++ pc'.awaiting)
    (hpassed : log'.passed = log.enqueued.map Prod.snd ++ pc'.inHand) :
    (s.setWorker w pc').Accounted log' := by
  obtain ⟨henqueued, hobtained, hasked⟩ := hrest
  obtain ⟨rfl, hcreated⟩ := h.single w pc at'
  have hat : (s.setWorker 0 pc').workers 0 = some pc' := by simp
  refine ⟨h.store, fun w' pc'' hw' => ?_, fun w' hholder => ?_, fun q b hpush => ?_,
    fun t q isLocking hpop => ?_, ?_, ?_, ?_, ?_, fun q => ?_⟩
  · obtain ⟨hzero, -⟩ | ⟨-, hold⟩ := setWorker_inv hw'
    · exact ⟨hzero, hcreated⟩
    · exact h.single w' pc'' hold
  · have hwaiting := h.parked w' hholder
    exact absurd (h.single w' _ hwaiting).1 (waiting_ne at' hfree hholder hwaiting)
  · exact hpushing q b (Option.some.inj (hat.symm.trans hpush))
  · rw [hasked]
    exact h.popping t q isLocking hpop
  · rw [awaiting, hat]
    exact hreceived
  · rw [inHand, hat, henqueued]
    exact hpassed
  · rw [henqueued]
    exact h.owned
  · rw [hobtained]
    exact h.delivered
  · rw [Log.into, Log.outOf, henqueued, hobtained]
    exact h.account q

/-- The message in hand enters its queue, which still has the room the worker saw. -/
theorem Accounted.push (h : s.Accounted log) {w : WorkerId} {q : QueueId} {b : Buffer}
    {queue : SyncFifoQueue Buffer} {ret : SyncFifoQueue.Ret Buffer} {notify : Bool}
    (at' : s.workers w = some (.push q b))
    (pushed : (s.dispatcher.queues q).criticalSection (.push b.copy) = .done queue ret notify) :
    ret = .pushed ∧ ((s.setDispatcher (s.dispatcher.setQueue q queue)).setWorker w .loop).Accounted
      { log with enqueued := log.enqueued ++ [(q, b.copy)] } := by
  obtain ⟨rfl, hcreated⟩ := h.single w _ at'
  obtain ⟨howns, hroom⟩ := h.pushing q b at'
  rw [SyncFifoQueue.criticalSection_push (h.store.unkilled q) hroom] at pushed
  obtain ⟨rfl, rfl, -⟩ := SyncFifoQueue.Outcome.done.inj pushed
  have wf : ({ s.dispatcher.queues q with
      deque := (s.dispatcher.queues q).deque ++ [b.copy]
      currSize := (s.dispatcher.queues q).currSize + 1 } : SyncFifoQueue Buffer).WellFormed :=
    ⟨by simp [(h.store.wellFormed q).count], hroom⟩
  refine ⟨rfl, h.store.setQueue wf (h.store.unkilled q), fun w' pc' hw' => ?_,
    fun w' hholder => ?_, fun q' b' hpush => ?_, h.popping, ?_, ?_, fun x hx => ?_, h.delivered,
    fun q' => ?_⟩
  · obtain ⟨hzero, -⟩ | ⟨-, hold⟩ := setWorker_inv hw'
    · exact ⟨hzero, hcreated⟩
    · exact h.single w' pc' hold
  · have hwaiting := h.parked w' hholder
    obtain ⟨rfl, -⟩ := h.single w' _ hwaiting
    rw [at'] at hwaiting
    cases hwaiting
  · simp at hpush
  · have hreceived := h.received
    simp only [awaiting, at', Option.elim_some, WorkerPc.awaiting] at hreceived
    simpa [awaiting, WorkerPc.awaiting] using hreceived
  · have hpassed := h.passed
    simp only [inHand, at', Option.elim_some, WorkerPc.inHand] at hpassed
    simpa [inHand, WorkerPc.inHand, Log.passed] using hpassed
  · rcases List.mem_append.mp hx with hx | hx
    · exact h.owned x hx
    · obtain rfl := List.mem_singleton.mp hx
      exact howns
  · have haccount := h.account q'
    by_cases hq : q' = q
    · subst hq
      simp only [Log.into, Log.outOf] at haccount
      simp [Log.into, Log.outOf, haccount]
    · rw [setWorker_dispatcher, setDispatcher_dispatcher, Dispatcher.setQueue_queues_of_ne _ hq]
      simpa [Log.into, Log.outOf, Ne.symm hq] using haccount

/-- A pop takes at most the head of the queue, which is logged. -/
theorem popped_logged (log : Log) (s : World) (e : Feed) {t : ThreadId} {q : QueueId}
    {isLocking : Bool} {queue : SyncFifoQueue Buffer} {ret : SyncFifoQueue.Ret Buffer}
    {notify : Bool} (wf : (s.dispatcher.queues q).WellFormed)
    (popped : (s.dispatcher.queues q).criticalSection (if isLocking then .pop else .asyncPop) =
      .done queue ret notify) :
    queue.currSize ≤ (s.dispatcher.queues q).currSize ∧
      queue.maxSize = (s.dispatcher.queues q).maxSize ∧
      ∃ out, (s.dispatcher.queues q).deque = out ++ queue.deque ∧
        log.record s e (.ofPop t q isLocking ret) = { log with
          obtained := log.obtained ++ out.map fun b =>
            { group := log.asked t, queue := q, message := b.copy } } := by
  obtain ⟨data, hop, -⟩ | ⟨data, rfl, hdeque, hqueue⟩ | ⟨hop, -⟩ |
    ⟨-, hret, -, -, hdeque, hcurr, hmax⟩ := SyncFifoQueue.criticalSection_done wf popped
  · cases isLocking <;> cases hop
  · refine ⟨?_, ?_, [data], hdeque, rfl⟩
    · rw [hqueue]
      exact Nat.sub_le ..
    · rw [hqueue]
  · cases isLocking <;> cases hop
  · refine ⟨hcurr.le, hmax, [], by rw [hdeque, List.nil_append], ?_⟩
    cases ret with
    | popped data => exact absurd rfl (hret data)
    | _ => simp [Observation.ofPop, Log.record]

/-- A consumer obtains the head of the queue of the group it asked for, or nothing. -/
theorem Accounted.pop (h : s.Accounted log) {t : ThreadId} {q : QueueId} {isLocking : Bool}
    {queue : SyncFifoQueue Buffer} {ret : SyncFifoQueue.Ret Buffer} {notify : Bool} (e : Feed)
    (popping : s.users t = .popping q isLocking)
    (popped : (s.dispatcher.queues q).criticalSection (if isLocking then .pop else .asyncPop) =
      .done queue ret notify) :
    ((s.setDispatcher (s.dispatcher.setQueue q queue)).setUser t .idle).Accounted
      (log.record s e (.ofPop t q isLocking ret)) := by
  have wf := SyncFifoQueue.criticalSection_wellFormed (h.store.wellFormed q) popped
  have unkilled : queue.sigKill = false := by
    refine (SyncFifoQueue.criticalSection_sigKill popped ?_ ?_).trans (h.store.unkilled q) <;>
      cases isLocking <;> simp
  obtain ⟨hcurr, hmax, out, hdeque, hlog⟩ :=
    popped_logged log s e (h.store.wellFormed q) popped
  rw [hlog]
  refine ⟨h.store.setQueue wf unkilled, h.single, h.parked, fun q' b hpush => ?_,
    fun t' q' isLocking' hpop => ?_, h.received, h.passed, h.owned, fun x hx => ?_, fun q' => ?_⟩
  · obtain ⟨howns, hroom⟩ := h.pushing q' b hpush
    exact ⟨howns, Dispatcher.setQueue_room hmax hcurr hroom⟩
  · obtain ⟨-, hidle⟩ | ⟨-, hold⟩ := setUser_inv hpop
    · cases hidle
    · exact h.popping t' q' isLocking' hold
  · rcases List.mem_append.mp hx with hx | hx
    · exact h.delivered x hx
    · obtain ⟨b, -, rfl⟩ := List.mem_map.mp hx
      exact h.popping t q isLocking popping
  · have haccount := h.account q'
    by_cases hq : q' = q
    · subst hq
      simp only [Log.into, Log.outOf, hdeque] at haccount
      simp [Log.into, Log.outOf, haccount, List.filter_map, Function.comp_def]
    · rw [setUser_dispatcher, setDispatcher_dispatcher, Dispatcher.setQueue_queues_of_ne _ hq]
      simpa [Log.into, Log.outOf, List.filter_map, Function.comp_def, Ne.symm hq] using haccount

/-- The first worker is created. -/
theorem Accounted.start (h : s.Accounted log) (hfirst : s.nextWorker = 0)
    (hfree : s.holder = none) :
    ({ s.setWorker s.nextWorker .loop with nextWorker := s.nextWorker + 1 } : World).Accounted
      log := by
  have hnobody : ∀ w, s.workers w = none := by
    intro w
    cases hw : s.workers w with
    | none => rfl
    | some pc => exact absurd (h.single w pc hw).2 (by simp [hfirst])
  have hreceived := h.received
  have hpassed := h.passed
  simp only [awaiting, inHand, hnobody, Option.elim_none] at hreceived hpassed
  refine ⟨h.store, fun w pc hw => ?_, fun w hholder => ?_, fun q b hpush => ?_, h.popping, ?_, ?_,
    h.owned, h.delivered, h.account⟩
  · by_cases hne : w = s.nextWorker
    · exact ⟨hne.trans hfirst, Nat.succ_pos _⟩
    · rw [setWorker_workers, Function.update_of_ne hne, hnobody] at hw
      cases hw
  · have hholder : s.holder = some (.worker w) := hholder
    rw [hfree] at hholder
    cases hholder
  · simp [hfirst] at hpush
  · simpa [awaiting, hfirst, WorkerPc.awaiting] using hreceived
  · simpa [inHand, hfirst, WorkerPc.inHand] using hpassed

/-- The end of `stop`. A worker that has called it goes on without a message. -/
theorem Accounted.release (h : s.Accounted log) {holder : Holder} (held : s.holder = some holder)
    (same : s.dispatcher.SameQueues d) : (s.release holder d).Accounted log := by
  have hreleased : ({ s.setDispatcher d with holder := none } : World).Accounted log :=
    (h.same same).hold (fun _ h => nomatch h)
  cases holder with
  | user => exact hreleased
  | worker w =>
      have at' := h.parked w held
      obtain ⟨rfl, -⟩ := h.single w _ at'
      refine hreleased.moveWorker at' (.inl rfl) ⟨rfl, rfl, rfl⟩ (fun _ _ h => nomatch h) ?_ ?_
      · simpa [awaiting, at', WorkerPc.awaiting] using h.received
      · simpa [inHand, at', WorkerPc.inHand] using h.passed

theorem afterReceive_awaiting (d : Dispatcher) (ret : Int) (b : Buffer) :
    (d.afterReceive ret b).awaiting =
        (if 0 ≤ ret ∧ d.isHalt b = false then [b] else []) ∧
      (d.afterReceive ret b).inHand = [] := by
  have hhalt : d.isHalt b = decide (b.opCode = sigHaltMsg ∧ b.groupName = d.controlGroup) := by
    simp [Dispatcher.isHalt]
  rw [hhalt]
  rw [Dispatcher.afterReceive]
  split
  · simp_all [WorkerPc.awaiting, WorkerPc.inHand]
  · split
    · simp_all [WorkerPc.awaiting, WorkerPc.inHand]
    · split <;> simp_all [WorkerPc.awaiting, WorkerPc.inHand]

theorem record_received (log : Log) (s : World) (e : Feed) (w : WorkerId) (ret : Int)
    (b : Buffer) : log.record s e (.received w ret b) = { log with
      received := log.received ++
        if 0 ≤ ret ∧ s.dispatcher.isHalt b = false then [b] else [] } := by
  simp only [Log.record]
  split <;> simp

/-- `receiveFromGroup` returns. What it returned is logged where the worker routes it. -/
theorem Accounted.returned (h : s.Accounted log) {s₀ : World} (e : Feed) {w : WorkerId}
    {pc : WorkerPc} (at' : s.workers w = some pc) (reading : pc.isReading = true) (ret : Int)
    (b : Buffer) (hhalt : s₀.dispatcher.isHalt b = s.dispatcher.isHalt b) :
    (s.setWorker w (s.dispatcher.afterReceive ret b)).Accounted
      (log.record s₀ e (.received w ret b)) := by
  obtain ⟨rfl, -⟩ := h.single w pc at'
  obtain ⟨hawaiting, hinHand⟩ := afterReceive_awaiting s.dispatcher ret b
  have hreceived := h.received
  have hpassed := h.passed
  have hquiet : pc.awaiting = [] ∧ pc.inHand = [] ∧ pc ≠ .stopping := by
    cases pc <;> simp [WorkerPc.isReading] at reading <;> simp [WorkerPc.awaiting, WorkerPc.inHand]
  simp only [awaiting, inHand, at', Option.elim_some, hquiet, List.append_nil] at hreceived hpassed
  rw [record_received, hhalt]
  refine h.moveWorker at' (.inr hquiet.2.2) ⟨rfl, rfl, rfl⟩ ?_ ?_ ?_
  · intro q b' hpush
    exact absurd hpush (afterReceive_ne_push _ _ _ _ _)
  · rw [hawaiting, hreceived]
  · rw [hinHand, List.append_nil]
    exact hpassed

theorem routeTo_check (d : Dispatcher) (b : Buffer) :
    (d.check b ≠ .passes ∧ d.routeTo b = .loop) ∨
      (d.check b = .passes ∧ ∃ q, d.routeTo b = .push q b ∧ d.Owns b.groupName q ∧
        (d.queues q).maxSize ≠ (d.queues q).currSize) := by
  rw [Dispatcher.check, Dispatcher.routeTo]
  cases hlookup : d.groups.lookup b.groupName with
  | none => exact .inl ⟨by simp, rfl⟩
  | some r =>
      by_cases hfull : (d.queues r.queue).maxSize = (d.queues r.queue).currSize
      · exact .inl ⟨by simp [hfull], by simp [SyncFifoQueue.criticalSection, hfull]⟩
      · exact .inr ⟨by simp [hfull], r.queue, by simp [SyncFifoQueue.criticalSection, hfull],
          ⟨r, hlookup, rfl⟩, hfull⟩

/-- The routing section: the message is checked, and taken in hand if it passes. -/
theorem Accounted.route (h : s.Accounted log) {w : WorkerId} {b : Buffer} (sent : Bool)
    (at' : s.workers w = some (.route b)) :
    (s.setWorker w (s.dispatcher.routeTo b)).Accounted
      (log.record s (.acts (.job w sent)) .silent) := by
  obtain ⟨rfl, -⟩ := h.single w _ at'
  have hreceived := h.received
  have hpassed := h.passed
  simp only [awaiting, inHand, at', Option.elim_some, WorkerPc.awaiting, WorkerPc.inHand,
    List.append_nil] at hreceived hpassed
  have hlog : log.record s (.acts (.job 0 sent)) .silent =
      { log with checked := log.checked ++ [(b, s.dispatcher.check b)] } := by
    simp [Log.record, at']
  rw [hlog]
  obtain ⟨hcheck, hroute⟩ | ⟨hcheck, q, hroute, howns, hfull⟩ := routeTo_check s.dispatcher b
  · rw [hroute]
    refine h.moveWorker at' (.inr (by simp)) ⟨rfl, rfl, rfl⟩ (fun _ _ h => nomatch h) ?_ ?_
    · simp [hreceived, WorkerPc.awaiting]
    · simpa [Log.passed, WorkerPc.inHand, hcheck] using hpassed
  · rw [hroute]
    refine h.moveWorker at' (.inr (by simp)) ⟨rfl, rfl, rfl⟩ (fun q' b' hpush => ?_) ?_ ?_
    · cases hpush
      exact ⟨howns, Nat.lt_of_le_of_ne (h.store.wellFormed q).bound (Ne.symm hfull)⟩
    · simp [hreceived, WorkerPc.awaiting]
    · simpa [Log.passed, WorkerPc.inHand, hcheck] using hpassed

/-- The worker moves between two points where it has no message. -/
theorem Accounted.quiet (h : s.Accounted log) {w : WorkerId} {pc pc' : WorkerPc}
    (at' : s.workers w = some pc) (hfree : s.holder = none ∨ pc ≠ .stopping)
    (hquiet : pc.awaiting = [] ∧ pc.inHand = []) (hquiet' : pc'.awaiting = [] ∧ pc'.inHand = []) :
    (s.setWorker w pc').Accounted log := by
  obtain ⟨rfl, -⟩ := h.single w pc at'
  have hreceived := h.received
  have hpassed := h.passed
  simp only [awaiting, inHand, at', Option.elim_some, hquiet] at hreceived hpassed
  refine h.moveWorker at' hfree ⟨rfl, rfl, rfl⟩ (fun q b hpush => ?_) ?_ ?_
  · subst hpush
    simp [WorkerPc.inHand] at hquiet'
  · rw [hquiet'.1]
    exact hreceived
  · rw [hquiet'.2]
    exact hpassed

/-- What has entered a group's queue is what has been enqueued under its name. -/
theorem Accounted.enqueuedFor (h : s.Accounted log) (g : Str) :
    log.enqueuedFor s.dispatcher g = (log.enqueued.map Prod.snd).filter (·.groupName = g) := by
  rw [List.filter_map]
  rw [Log.enqueuedFor]
  cases hlookup : s.dispatcher.groups.lookup g with
  | none =>
      symm
      simp only [List.map_eq_nil_iff, List.filter_eq_nil_iff]
      rintro x hx hname
      obtain ⟨r, hr, -⟩ := h.owned x hx
      rw [of_decide_eq_true hname, hlookup] at hr
      cases hr
  | some r =>
      refine congrArg (List.map _) (List.filter_congr fun x hx => ?_)
      have howns := h.owned x hx
      refine decide_eq_decide.mpr ⟨fun hqueue => ?_, fun hname => ?_⟩
      · exact h.store.distinct _ g r.queue (hqueue ▸ howns) ⟨r, hlookup, rfl⟩
      · obtain ⟨r', hr', hqueue⟩ := howns
        rw [hname, hlookup] at hr'
        rw [← hqueue, Option.some.inj hr']

theorem Accounted.passedFor (h : s.Accounted log) (g : Str) :
    (log.checked.filter fun c => c.1.groupName = g && c.2 = .passes).map (·.1.copy) =
      log.enqueuedFor s.dispatcher g ++ s.inHand.filter (·.groupName = g) := by
  rw [h.enqueuedFor, ← List.filter_append, ← h.passed, Log.passed, List.filter_map,
    List.filter_filter]
  rfl

theorem Accounted.ordered (h : s.Accounted log) (g : Str) :
    (log.enqueuedFor s.dispatcher g).Sublist ((log.receivedFor g).map Buffer.copy) := by
  have hprefix : (log.enqueuedFor s.dispatcher g).Sublist
      ((log.checked.filter fun c => c.1.groupName = g && c.2 = .passes).map (·.1.copy)) := by
    rw [h.passedFor]
    exact List.sublist_append_left ..
  have hchecked : ((log.checked.filter fun c => c.1.groupName = g && c.2 = .passes).map
      (·.1.copy)).Sublist
        (((log.checked.map Prod.fst).filter (·.groupName = g)).map Buffer.copy) := by
    rw [List.filter_map, List.map_map]
    exact (List.monotone_filter_right _ fun c hc => ((Bool.and_eq_true _ _).mp hc).1).map _
  refine hprefix.trans (hchecked.trans ?_)
  rw [Log.receivedFor, h.received]
  exact ((List.sublist_append_left ..).filter _).map _

end World

end Netbroker
