import Netbroker.Connector.Turns
import Netbroker.Dispatcher.Stranded

/-!
# Membership messages on their way to a group

A regular membership message has the group in its sender field and the private names of
the members in its group array. The connector fills one buffer for data and membership
alike, so the worker looks the message up under the name of its first member, and no
line of the code sets the type of a received buffer.

The type of a message is an invariant: no buffer on its way has any but the one it was
constructed with. Its name is a fact about one step, in which the worker takes a membership
message off the stream.
-/

namespace Netbroker

open Spread Transition

/-- The message that a worker has in hand. -/
def WorkerPc.message : WorkerPc → Option Buffer
  | .route b | .push _ b => some b
  | _ => none

/-- The observed message, if there is one, has the type it was constructed with. -/
def Observation.unmarked : Observation → Bool
  | .received _ _ b | .enqueued _ b | .obtained _ _ b => b.type = .default
  | _ => true

namespace Dispatcher

variable {d d' : Dispatcher}

/-- No message is in a queue that was not there before. -/
def Fills (d d' : Dispatcher) : Prop :=
  ∀ q, ∀ b ∈ (d'.queues q).deque, b ∈ (d.queues q).deque

theorem Fills.of_queues (h : d'.queues = d.queues) : Fills d d' := by
  intro q b hb
  rwa [h] at hb

theorem Fills.of_extends (h : Extends d d') : Fills d d' := by
  obtain same | ⟨g, n, -, same⟩ := h
  · exact .of_queues same.queues
  · intro q b hb
    rw [same.queues] at hb
    by_cases hq : q = d.nextQueue
    · subst hq
      rw [insertGroup_queues_self] at hb
      cases hb
    · rwa [insertGroup_queues_of_ne hq] at hb

theorem perform_fills (d : Dispatcher) (sent : Bool) (op : Operation) :
    Fills d (World.perform d sent op).2 := by
  obtain grows | shrinks := d.perform_registry sent op
  · exact .of_extends grows
  · exact .of_queues shrinks.queues

/-- The worker has in hand what it has received. -/
theorem afterReceive_message {ret : Int} {b b' : Buffer}
    (h : (d.afterReceive ret b).message = some b') : b' = b := by
  rw [afterReceive] at h
  split at h
  · cases h
  · split at h
    · exact (Option.some.inj h).symm
    · split at h <;> cases h

theorem routeTo_message {b b' : Buffer} (h : (d.routeTo b).message = some b') : b' = b := by
  rw [routeTo] at h
  split at h
  · cases h
  · split at h
    · cases h
    · exact (Option.some.inj h).symm

end Dispatcher

namespace World

/-- Every message on its way has the type it was constructed with. -/
structure Unmarked (s : World) : Prop where
  hands : ∀ w pc b, s.workers w = some pc → pc.message = some b → b.type = .default
  queues : ∀ q, ∀ b ∈ (s.dispatcher.queues q).deque, b.type = .default

variable {s s' : World} {d : Dispatcher} {w : WorkerId} {o : Observation}

theorem Unmarked.setDispatcher (hs : s.Unmarked) (fills : s.dispatcher.Fills d) :
    (s.setDispatcher d).Unmarked :=
  ⟨hs.hands, fun q b hb => hs.queues q b (fills q b hb)⟩

theorem Unmarked.setQueue (hs : s.Unmarked) {q : QueueId} {queue : SyncFifoQueue Buffer}
    (hqueue : ∀ b ∈ queue.deque, b.type = .default) :
    (s.setDispatcher (s.dispatcher.setQueue q queue)).Unmarked := by
  refine ⟨hs.hands, ?_⟩
  apply Dispatcher.setQueue_forall (P := fun _ queue => ∀ b ∈ queue.deque, b.type = .default) hqueue
  exact hs.queues

theorem Unmarked.setWorker (hs : s.Unmarked) {pc : WorkerPc}
    (hmessage : ∀ b, pc.message = some b → b.type = .default) : (s.setWorker w pc).Unmarked := by
  refine ⟨fun w' pc' b hpc hb => ?_, hs.queues⟩
  obtain ⟨-, rfl⟩ | ⟨-, hold⟩ := setWorker_inv hpc
  · exact hmessage b hb
  · exact hs.hands w' pc' b hold hb

theorem Unmarked.release (hs : s.Unmarked) (holder : Holder) (hqueues : d.queues =
    s.dispatcher.queues) : (s.release holder d).Unmarked := by
  have hfree : ({ s with dispatcher := d, holder := none } : World).Unmarked :=
    ⟨hs.hands, (hs.setDispatcher (.of_queues hqueues)).queues⟩
  cases holder with
  | user => exact hfree
  | worker w => exact hfree.setWorker fun b hb => by cases hb

/-- `receiveFromGroup` returns the buffer it has erased at the top of its loop. -/
theorem resume_unmarked (hs : s.Unmarked) {privateGroup : Str} {r : Reading} {x : Reception}
    (h : s.resume w privateGroup r x = (s', o)) : s'.Unmarked ∧ o.unmarked = true := by
  rw [resume] at h
  cases hresume : r.resume (s.dispatcher.listener privateGroup) x with
  | call r' =>
      rw [hresume] at h
      obtain ⟨rfl, rfl⟩ := Prod.mk.inj h
      exact ⟨hs.setWorker fun b hb => (by cases hb), rfl⟩
  | returned ret b =>
      have hb : b.type = .default := by
        rw [Reading.resume] at hresume
        split at hresume
        · cases hresume
        · split at hresume
          · obtain ⟨-, rfl⟩ := Progress.returned.inj hresume
            rfl
          · cases hresume
      rw [hresume] at h
      obtain ⟨rfl, rfl⟩ := Prod.mk.inj h
      refine ⟨hs.setWorker fun b' hmessage => ?_, by simp [Observation.unmarked, hb]⟩
      rw [Dispatcher.afterReceive_message hmessage]
      exact hb

theorem reading_unmarked (hs : s.Unmarked) {pc : WorkerPc} {sent : Bool}
    (reading : pc.isReading = true) (h : s.jobStep w sent pc = some (s', o)) :
    s'.Unmarked ∧ o.unmarked = true := by
  have same : ∀ mbox session, (s.setDispatcher (s.dispatcher.setSession mbox session)).Unmarked :=
    fun mbox session => hs.setDispatcher (.of_queues rfl)
  cases pc with
  | call r =>
      have h := Option.some.inj h
      rw [enterReceive] at h
      split at h
      · exact resume_unmarked hs h
      · split at h
        · obtain ⟨rfl, rfl⟩ := Prod.mk.inj h
          exact ⟨hs.setWorker fun b hb => (by cases hb), rfl⟩
        · exact resume_unmarked hs h
  | inside mbox r =>
      simp only [jobStep, endReceive] at h
      split at h
      · exact resume_unmarked hs (Option.some.inj h)
      · split at h
        · exact resume_unmarked (same ..) (Option.some.inj h)
        · split at h
          · exact resume_unmarked (same ..) (Option.some.inj h)
          · cases h
  | _ => cases reading

theorem jobStep_unmarked (hs : s.Unmarked) {pc : WorkerPc} {sent : Bool}
    (at' : s.workers w = some pc) (h : s.jobStep w sent pc = some (s', o)) :
    s'.Unmarked ∧ o.unmarked = true := by
  have hhand := hs.hands w pc
  cases jobStep_move h with
  | check =>
      refine ⟨hs.setWorker fun b hb => ?_, rfl⟩
      split at hb <;> cases hb
  | read reading => exact reading_unmarked hs reading h
  | route =>
      refine ⟨hs.setWorker fun b hb => ?_, rfl⟩
      rw [Dispatcher.routeTo_message hb]
      exact hhand _ at' rfl
  | @push q b queue ret notify pushed =>
      have hb : b.copy.type = .default := hhand b at' rfl
      obtain ⟨hleft, -⟩ := SyncFifoQueue.criticalSection_mem pushed
      refine ⟨(hs.setQueue fun b' hb' => ?_).setWorker fun b hb => (by cases hb), ?_⟩
      · rcases hleft b' hb' with hold | hpush
        · exact hs.queues q b' hold
        · obtain rfl : b.copy = b' := SyncFifoQueue.Op.push.inj hpush
          exact hb
      · cases ret with
        | pushed => simp [Observation.ofPush, Observation.unmarked, hb]
        | _ => rfl
  | stopFails => exact ⟨hs.setWorker fun b hb => (by cases hb), rfl⟩
  | @stopSends b sent =>
      exact ⟨⟨hs.hands, (hs.setDispatcher
        (.of_queues (sendMessageToGroup_traffic s.dispatcher b sent).queues)).queues⟩, rfl⟩
  | @disconnects sent o _ outcome =>
      have hset := hs.setDispatcher (.of_queues (s.dispatcher.disconnect_shrinks sent).queues)
      refine ⟨hset.setWorker fun b hb => (by cases hb), ?_⟩
      obtain rfl | ⟨e, rfl⟩ := outcome <;> rfl

theorem step_unmarked (hs : s.Unmarked) {e : Event} (h : s.step e = some (s', o)) :
    s'.Unmarked ∧ o.unmarked = true := by
  cases step_move h with
  | @perform t op sent =>
      refine ⟨hs.setDispatcher (s.dispatcher.perform_fills sent op), ?_⟩
      cases (perform s.dispatcher sent op).1 <;> rfl
  | startFails => exact ⟨hs, rfl⟩
  | starts =>
      have hnew : (s.setWorker s.nextWorker .loop).Unmarked := hs.setWorker fun b hb => by cases hb
      exact ⟨⟨hnew.hands, hs.queues⟩, rfl⟩
  | stopFails => exact ⟨hs, rfl⟩
  | @stopSends t b sent =>
      exact ⟨⟨hs.hands, (hs.setDispatcher
        (.of_queues (sendMessageToGroup_traffic s.dispatcher b sent).queues)).queues⟩, rfl⟩
  | join => exact ⟨hs.release _ rfl, rfl⟩
  | timeOut => exact ⟨hs.release _ rfl, rfl⟩
  | receiveFails fails =>
      obtain rfl | ⟨e, rfl⟩ := fails
      · exact ⟨hs, rfl⟩
      · exact ⟨hs, rfl⟩
  | receives => exact ⟨⟨hs.hands, hs.queues⟩, rfl⟩
  | @pop t q isLocking queue ret notify popping popped =>
      obtain ⟨hleft, htaken⟩ := SyncFifoQueue.criticalSection_mem popped
      have hset : (s.setDispatcher (s.dispatcher.setQueue q queue)).Unmarked := by
        refine hs.setQueue fun b hb => ?_
        rcases hleft b hb with hold | hpush
        · exact hs.queues q b hold
        · cases isLocking <;> cases hpush
      refine ⟨⟨hset.hands, hset.queues⟩, ?_⟩
      cases ret with
      | popped b =>
          have hb : b.copy.type = .default := hs.queues q b (htaken b rfl)
          simp [Observation.ofPop, Observation.unmarked, hb]
      | _ => rfl
  | job at' =>
      simp only [step, at'] at h
      exact jobStep_unmarked hs at' h
  | traffic _ traffic => exact ⟨hs.setDispatcher (.of_queues traffic.queues), rfl⟩

/-- The regular membership message that the worker's next step takes off the stream whole. -/
def arrives (s : World) (w : WorkerId) : Option Frame :=
  match s.workers w with
  | some (.inside mbox r) =>
      match s.dispatcher.connection.spread.sessions mbox with
      | some session =>
          match session.pending with
          | f :: _ =>
              if r.phase = .second && isMembershipMess f.type && isRegMembMess f.type
                  && decide (f.groups.length ≤ maxGroupArraySize)
                  && decide (f.body.length ≤ r.maxLen) then some f
              else none
          | [] => none
      | none => none
  | _ => none

/-- The worker's next step takes a membership message about the group `g` off the stream;
`g` is registered with a queue that has room, and neither flag drops anything. -/
structure Concerns (s : World) (w : WorkerId) (g : Str) (f : Frame) (q : QueueId) : Prop where
  echo : s.dispatcher.dropEchoMessages = false
  membership : s.dispatcher.dropMembershipMessages = false
  arrives : s.arrives w = some f
  about : f.sender = g
  owned : s.dispatcher.Owns g q
  room : (s.dispatcher.queues q).currSize < (s.dispatcher.queues q).maxSize

/-- A membership message that is not dropped is returned with the slots in its buffer. -/
theorem resume_membership {privateGroup : Str} {r : Reading} {x : Reception}
    (hphase : r.phase = .second) (hret : 0 ≤ x.ret)
    (hmemb : isMembershipMess x.slots.service = true)
    (hkeeps : s.dispatcher.dropMembershipMessages = false) :
    s.resume w privateGroup r x =
      (s.setWorker w (s.dispatcher.afterReceive connMembershipMessage (filledBuffer x)),
        .received w connMembershipMessage (filledBuffer x)) := by
  have hreply : verdict (s.dispatcher.listener privateGroup) x = some connMembershipMessage := by
    rw [verdict_eq_reply (.inl hret)]
    simp [reply, hmemb, Dispatcher.listener, hkeeps]
  simp only [resume, Reading.resume, hphase, hreply]

/-- The name of the message's first member goes where the group's name would be. -/
theorem Concerns.named {g : Str} {f : Frame} {q : QueueId} {sent : Bool}
    (h : s.Concerns w g f q) (hmembers : f.groups ≠ [])
    (hstep : s.step (.job w sent) = some (s', o)) :
    ∃ b, o = .received w connMembershipMessage b ∧ b.groupName = f.groupName ∧
      b.sender = g := by
  have harrives := h.arrives
  rw [World.arrives] at harrives
  split at harrives
  · rename_i mbox r hat
    split at harrives
    · rename_i session hsession
      split at harrives
      · rename_i f' rest hpending
        split at harrives
        · rename_i hwhole
          obtain rfl := Option.some.inj harrives
          simp only [Bool.and_eq_true, decide_eq_true_eq] at hwhole
          obtain ⟨⟨⟨⟨hphase, hmemb⟩, -⟩, hgroups⟩, hbody⟩ := hwhole
          have htaken : r.receive session.privateGroup f' = consume session.privateGroup
              maxGroupArraySize r.maxLen r.slots r.mess f' := receive_consume hgroups hbody
          have hret : 0 ≤ (r.receive session.privateGroup f').ret := by
            rw [htaken]
            simp [consume, Nat.not_lt.mpr hbody]
          have hservice : isMembershipMess (r.receive session.privateGroup f').slots.service =
              true := by
            rw [htaken]
            exact (isMembershipMess_serviceOf f').trans hmemb
          have hname : (filledBuffer (r.receive session.privateGroup f')).groupName =
              f'.groupName := by
            rw [htaken]
            refine (consume_groupName ..).trans ?_
            cases hfirst : f'.groups with
            | nil => exact absurd hfirst hmembers
            | cons first members => simp [Frame.groupName, hfirst]
          have hsender : (filledBuffer (r.receive session.privateGroup f')).sender = g := by
            rw [htaken]
            exact h.about
          simp only [step, hat, jobStep, endReceive, hsession, hpending] at hstep
          generalize r.receive session.privateGroup f' = x at hstep hret hservice hname hsender
          rw [resume_membership hphase hret hservice] at hstep
          · obtain ⟨-, rfl⟩ := Prod.mk.inj (Option.some.inj hstep)
            exact ⟨_, rfl, hname, hsender⟩
          · exact h.membership
        · cases harrives
      · cases harrives
    · cases harrives
  · cases harrives

/-- A buffer that enters the queue can be told apart from data. -/
def Announced (trace : List (Event × Observation)) (q : QueueId) : Prop :=
  ∃ e b, (e, Observation.enqueued q b) ∈ trace ∧ b.type = .membership

/-- A buffer that leaves the queue can be told apart from data. -/
def Noticed (trace : List (Event × Observation)) (q : QueueId) : Prop :=
  ∃ e t b, (e, Observation.obtained t q b) ∈ trace ∧ b.type = .membership

/-- Every membership message about a registered group with room is announced on the
group's queue by the time the worker is back at its loop. -/
def Announces (clientName : Str) (s : World) (trace : List (Event × Observation)) (s' : World) :
    Prop :=
  ∀ past w sent o rest a g f q, trace = past ++ (.job w sent, o) :: rest →
    (machine clientName).Run (fun _ _ => True) s past a → a.Concerns w g f q →
    s'.workers w = some .loop → Announced rest q

/-- What becomes of membership messages in a run. -/
structure Unannounced (clientName : Str) (s : World) (trace : List (Event × Observation)) :
    Prop where
  announced : ∀ q, ¬ Announced trace q
  noticed : ∀ q, ¬ Noticed trace q
  misnamed : (machine clientName).EveryStep s trace fun a e _ o =>
    ∀ w sent g f q, e = .job w sent → a.Concerns w g f q → f.groups ≠ [] →
      ∃ b, o = .received w connMembershipMessage b ∧ b.groupName = f.groupName ∧ b.sender = g

theorem initial_unmarked (clientName address : Str) (dropEcho dropMembership : Bool)
    (mbox : Mailbox) :
    (initial (.initial clientName address dropEcho dropMembership mbox)).Unmarked := by
  constructor
  · intro w pc b at'
    cases at'
  · intro q b hb
    cases hb

theorem run_unmarked {clientName : Str} {trace : List (Event × Observation)}
    (hinit : (machine clientName).init s)
    (run : (machine clientName).Run (fun _ _ => True) s trace s') :
    ∀ x ∈ trace, x.2.unmarked = true := by
  obtain ⟨address, dropEcho, dropMembership, mbox, rfl⟩ := hinit
  refine (run.history (I := fun past s => s.Unmarked ∧ ∀ x ∈ past, x.2.unmarked = true) ?_ ?_).2
  · exact ⟨initial_unmarked .., fun x hx => by cases hx⟩
  · rintro past a e b o ⟨ha, hpast⟩ - move
    obtain ⟨hb, ho⟩ := step_unmarked ha move
    refine ⟨hb, fun x hx => ?_⟩
    rcases List.mem_append.mp hx with hold | hnew
    · exact hpast x hold
    · obtain rfl := List.mem_singleton.mp hnew
      exact ho

/-- **Announcements.** In no run, with whatever flags, groups and streams, does a buffer
marked as a membership message enter or leave a queue; a membership message about a
group comes back from `receiveFromGroup` under the name of its first member. -/
theorem never_announced (clientName : Str) {s s' : World} {trace : List (Event × Observation)}
    (hinit : (machine clientName).init s)
    (run : (machine clientName).Run (fun _ _ => True) s trace s') :
    Unannounced clientName s trace := by
  have hunmarked := run_unmarked hinit run
  refine ⟨?_, ?_, ?_⟩
  · rintro q ⟨e, b, hmem, htype⟩
    have hdefault : b.type = .default := of_decide_eq_true (hunmarked _ hmem)
    rw [htype] at hdefault
    cases hdefault
  · rintro q ⟨e, t, b, hmem, htype⟩
    have hdefault : b.type = .default := of_decide_eq_true (hunmarked _ hmem)
    rw [htype] at hdefault
    cases hdefault
  · intro past e o rest a b _ _ move w sent g f q he hconcerns hmembers
    subst he
    exact hconcerns.named hmembers move

/-- The client `ab` with both drop flags off. -/
def curious : World := initial (.initial demoClient [] false false 0)

theorem curious_init : (machine demoClient).init curious := ⟨[], false, false, 0, rfl⟩

/-- The client has joined the group `g`, of which it is the only member. -/
def demoJoined : Frame :=
  { type := regMembMess, oldType := 0, sender := demoGroup, groups := [[35, 97, 98]], messType := 0
    body := [1] }

/-- The worker ahead of the second call that reads the membership message. -/
def curiousReads : List Event :=
  [connects, registers, .start 0, .deliver 0 demoJoined, .job 0 true, .job 0 true, .job 0 true,
    .job 0 true]

/-- The message has come back from `receiveFromGroup` and has been dropped. -/
theorem never_announced_joined : ∃ trace s,
    (machine demoClient).Run (fun _ _ => True) curious trace s ∧ s.workers 0 = some .loop ∧
      Unannounced demoClient curious trace := by
  obtain ⟨trace, s, run, hloop⟩ := Machine.Run.exists_of_exec (machine demoClient)
    (fun _ _ => True) curious (curiousReads ++ [.job 0 true, .job 0 true])
    (fun _ s => s.workers 0 = some .loop) (by decide)
  exact ⟨trace, s, run, hloop, never_announced demoClient curious_init run⟩

theorem announcement_lost : ¬ ∀ (s s' : World) (trace : List (Event × Observation)),
    (machine demoClient).init s → (machine demoClient).Run (fun _ _ => True) s trace s' →
    Announces demoClient s trace s' := by
  intro hall
  obtain ⟨past, a, run, hecho, hmembership, harrives, hlookup, hroom, hrest⟩ :=
    Machine.Run.exists_of_exec (machine demoClient) (fun _ _ => True) curious curiousReads
      (fun _ a => a.dispatcher.dropEchoMessages = false ∧
        a.dispatcher.dropMembershipMessages = false ∧ a.arrives 0 = some demoJoined ∧
        (a.dispatcher.groups.lookup demoGroup).map (·.queue) = some 1 ∧
        (a.dispatcher.queues 1).currSize < (a.dispatcher.queues 1).maxSize ∧
        (a.step (.job 0 true)).any (fun r => (r.1.step (.job 0 true)).any
          fun r' => r'.1.workers 0 = some .loop) = true)
      (by decide)
  obtain ⟨⟨middle, o⟩, hread, hroute⟩ := (Option.any_eq_true _ _).mp hrest
  obtain ⟨⟨s, o'⟩, hroute, hloop⟩ := (Option.any_eq_true _ _).mp hroute
  obtain ⟨r, hlookup, hqueue⟩ := Option.map_eq_some_iff.mp hlookup
  have hconcerns : a.Concerns 0 demoGroup demoJoined 1 :=
    ⟨hecho, hmembership, harrives, rfl, ⟨r, hlookup, hqueue⟩, hroom⟩
  have hread : (machine demoClient).step a (.job 0 true) = some (middle, o) := hread
  have hroute : (machine demoClient).step middle (.job 0 true) = some (s, o') := hroute
  have whole := (run.snoc trivial hread).snoc trivial hroute
  rw [List.append_assoc] at whole
  obtain ⟨e, b, hmem, htype⟩ := hall curious s _ curious_init whole past 0 true o
    [(.job 0 true, o')] a demoGroup demoJoined 1 rfl run hconcerns (of_decide_eq_true hloop)
  have hunmarked := run_unmarked curious_init whole (e, .enqueued 1 b)
    (List.mem_append_right _ (List.mem_cons_of_mem _ hmem))
  have hdefault : b.type = .default := of_decide_eq_true hunmarked
  rw [htype] at hdefault
  cases hdefault

end World

end Netbroker
