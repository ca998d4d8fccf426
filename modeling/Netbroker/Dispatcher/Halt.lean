import Netbroker.Dispatcher.ConnectionLoss

/-!
# What ends `job()`

The worker tells the halt message by its opcode and its group, and the connector only
asks whose it is to decide on echoes. Any client of the network can therefore halt the
worker. What counts is the header that the second call of a turn leaves in the slots:
that of the frame it takes, or of a frame it only peeks at beside the group that an
empty frame has left there.

`halted_inv` gives the states in which a step can end at the halt exit. `Traced` adds what the
run so far says of a state: as long as no `stop` has sent its message the workers run and an
online dispatcher has its session, and what a worker is at tells whether it has been told of a
loss. The ways out of the loop are then compared with the step that takes one.
-/

namespace Netbroker

open Spread Transition

/-- A call that meets a frame does not fail with the loss of the connection. -/
theorem receive_ret (privateGroup : Str) (r : Reading) (f : Frame) :
    0 ≤ (r.receive privateGroup f).ret ∨ (r.receive privateGroup f).ret = bufferTooShort ∨
      (r.receive privateGroup f).ret = groupsTooShort := by
  rw [Reading.receive, Spread.receive]
  split
  · rw [peek]
    dsimp only
    split
    · exact .inr (.inr rfl)
    · exact .inr (.inl rfl)
  · rw [consume]
    dsimp only
    split
    · exact .inr (.inl rfl)
    · exact .inl (Int.natCast_nonneg _)

theorem verdict_ret {l : Listener} {x : Reception} {ret : Int} (h : verdict l x = some ret) :
    ret = x.ret ∨ 0 ≤ ret := by
  unfold verdict at h
  dsimp only at h
  split at h
  · exact .inl (Option.some.inj h).symm
  · split at h
    · split at h
      · cases h
      · exact .inr ((Option.some.inj h) ▸ by decide)
    · split at h
      · split at h
        · cases h
        · exact .inr ((Option.some.inj h) ▸ by decide)
      · split at h
        · exact .inr ((Option.some.inj h) ▸ by decide)
        · split at h
          · cases h
          · exact .inl (Option.some.inj h).symm

def Observation.isHaltSent : Observation → Bool
  | .haltSent => true
  | _ => false

/-- `receiveFromGroup` has told the worker that the connection is lost. -/
def Observation.tellsLoss (w : WorkerId) : Observation → Bool
  | .received w' ret _ => w' = w && (ret = connectionClosed || ret = netErrorOnSession)
  | _ => false

namespace Dispatcher

/-- An online dispatcher has its session. -/
def Opened (d : Dispatcher) : Prop :=
  d.connStatus = .online → d.connection.session.isSome = true

variable {d d' : Dispatcher}

theorem Opened.offline (h : d.connStatus = .offline) : d.Opened := by
  intro honline
  rw [h] at honline
  cases honline

theorem Opened.congr (h : d.Opened) (hstatus : d'.connStatus = d.connStatus)
    (hsession : d'.connection.session.isSome = d.connection.session.isSome) : d'.Opened :=
  fun honline => hsession.trans (h (hstatus.symm.trans honline))

theorem Opened.traffic (h : d.Opened) (traffic : Traffic d d') : d'.Opened := by
  refine h.congr traffic.connStatus ?_
  have hsessions := congrArg Option.isSome (traffic.joined d.connection.connector.spreadMbox)
  rw [Connection.session, Connection.session, traffic.connector]
  simpa using hsessions

theorem Opened.registerGroup (h : d.Opened) (groupName : Str) (bufferSize : Int)
    (queueSize : Nat) (sendOnly sent : Bool) :
    (d.registerGroup groupName bufferSize queueSize sendOnly sent).2.Opened := by
  obtain ⟨e, hregister⟩ | ⟨-, hregister⟩ | ⟨-, -, -, -, ⟨-, hregister⟩ | ⟨hoffline, hregister⟩⟩ :=
    d.registerGroup_cases groupName bufferSize queueSize sendOnly sent
  · rw [hregister]
    exact h
  · rw [hregister]
    exact h.congr rfl rfl
  · rw [hregister]
    exact h.congr rfl (Connection.joinGroup_isSome ..)
  · rw [hregister]
    exact .offline hoffline

theorem Opened.unregisterGroup (h : d.Opened) (groupName : Str) (sent : Bool) :
    (d.unregisterGroup groupName sent).2.Opened := by
  obtain ⟨e, hunregister⟩ | ⟨first, rest, -, -, hunregister⟩ | ⟨-, -, -, -, hunregister⟩ :=
    d.unregisterGroup_cases groupName sent
  · rw [hunregister]
    exact h
  · rw [hunregister]
    dsimp only
    split
    · exact h.congr rfl rfl
    · exact h
  · rw [hunregister]
    exact h.congr rfl (Connection.leaveGroup_isSome ..)

theorem Opened.disconnect (h : d.Opened) (sent : Bool) : (d.disconnect sent).2.Opened := by
  obtain ⟨e, hdisconnect⟩ | ⟨-, -, hdisconnect⟩ | ⟨-, -, d', -, hdisconnect⟩ :=
    d.disconnect_cases sent
  · rw [hdisconnect]
    exact h
  · rw [hdisconnect]
    exact h
  · rw [hdisconnect]
    exact .offline rfl

theorem Opened.perform (h : d.Opened) (sent : Bool) (op : Operation) :
    (World.perform d sent op).2.Opened := by
  cases op with
  | registerGroup => exact h.registerGroup _ _ _ _ _
  | unregisterGroup => exact h.unregisterGroup _ _
  | sendMessageToGroup => exact h.traffic (sendMessageToGroup_traffic ..)
  | disconnect => exact h.disconnect sent
  | connect answer =>
      obtain ⟨e, hconnect⟩ | ⟨code, -, hconnect⟩ | ⟨privateGroup, -, -, -, hconnect⟩ :=
        d.connect_cases answer sent
      · exact congrArg Prod.snd hconnect ▸ h
      · exact congrArg Prod.snd hconnect ▸ h
      · have hopened : (d.connected privateGroup).Opened :=
          fun _ => congrArg Option.isSome (Connection.connectNetwork_session ..)
        exact congrArg Prod.snd hconnect ▸ hopened.registerGroup _ _ _ _ _

end Dispatcher

/-- Where a worker is, given whether it has been told that the connection is lost. -/
def WorkerPc.agrees (told : Bool) : WorkerPc → Bool
  | .stopping | .disconnecting | .done .lost => told
  | .done _ => true
  | _ => !told

namespace World

/-- Ahead of a second call that a halting header waits for. -/
def threatened (s : World) : Event → Bool
  | .job w _ =>
      match s.workers w with
      | some (.inside mbox r) =>
          match s.dispatcher.connection.spread.sessions mbox with
          | some session =>
              match session.pending with
              | f :: _ =>
                  r.phase = .second && r.poses session.privateGroup s.dispatcher.controlGroup f
              | [] => false
          | none => false
      | _ => false
  | _ => false

/-- A worker takes the halt exit under a threat, or because its call has failed: it
has lost its connection or there was no session to begin with. -/
theorem halted_inv {s s' : World} {w : WorkerId} {sent : Bool} {o : Observation}
    (h : s.step (.job w sent) = some (s', o)) (left : s'.workers w = some (.done .halted)) :
    (s.threatened (.job w sent) = true ∧ o.tellsLoss w = false) ∨
      (s.threatened (.job w sent) = false ∧
        (o.tellsLoss w = true ∨ s.dispatcher.connection.session = none)) := by
  obtain ⟨pc, at', halts⟩ := halts_of_step h left
  cases halts with
  | @frame mbox r session f _ ret _ second opened pending poses decided =>
      refine .inl ⟨by simp [threatened, at', opened, pending, second, poses], ?_⟩
      have hret := receive_ret session.privateGroup r f
      have hverdict := verdict_ret decided
      simp only [bufferTooShort, groupsTooShort] at hret
      simp only [Observation.tellsLoss, decide_true, Bool.true_and, Bool.or_eq_false_iff,
        decide_eq_false_iff_not, connectionClosed, netErrorOnSession]
      omega
  | ended _ opened pending =>
      exact .inr ⟨by simp [threatened, at', opened, pending], .inl (by simp [Observation.tellsLoss])⟩
  | gone _ gone =>
      exact .inr ⟨by simp [threatened, at', gone], .inl (by simp [Observation.tellsLoss])⟩
  | broken =>
      exact .inr ⟨by simp [threatened, at'], .inl (by simp [Observation.tellsLoss])⟩
  | unopened _ unopened => exact .inr ⟨by simp [threatened, at'], .inr unopened⟩

/-- Some `stop` has sent the halt message. -/
def stopSent (past : List (Event × Observation)) : Bool := past.any (·.2.isHaltSent)

/-- The worker has been told that the connection is lost. -/
def toldLoss (w : WorkerId) (past : List (Event × Observation)) : Bool :=
  past.any (·.2.tellsLoss w)

theorem stopSent_concat (past : List (Event × Observation)) (e : Event) (o : Observation) :
    stopSent (past ++ [(e, o)]) = (stopSent past || o.isHaltSent) := by
  simp [stopSent]

theorem toldLoss_concat (w : WorkerId) (past : List (Event × Observation)) (e : Event)
    (o : Observation) : toldLoss w (past ++ [(e, o)]) = (toldLoss w past || o.tellsLoss w) := by
  simp [toldLoss]

/-- What a run up to a state says about it. -/
structure Traced (past : List (Event × Observation)) (s : World) : Prop where
  parked : ∀ w, s.holder = some (.worker w) → s.workers w = some .stopping
  created : ∀ w pc, s.workers w = some pc → w < s.nextWorker
  silent : ∀ w, s.nextWorker ≤ w → toldLoss w past = false
  agrees : ∀ w pc, s.workers w = some pc → pc.agrees (toldLoss w past) = true
  unstopped : stopSent past = false → s.holder = none ∧
    ∀ w pc, s.workers w = some pc → s.dispatcher.activity = .started
  opened : stopSent past = false → s.dispatcher.Opened

variable {past : List (Event × Observation)} {s : World} {d : Dispatcher} {e : Event}
  {o : Observation}

theorem unsent_of_concat (h : stopSent (past ++ [(e, o)]) = false) : stopSent past = false := by
  rw [stopSent_concat, Bool.or_eq_false_iff] at h
  exact h.1

/-- A step that tells no worker about its connection, as far as the trace goes. -/
theorem Traced.concat (h : Traced past s) (hloss : ∀ w, o.tellsLoss w = false) :
    Traced (past ++ [(e, o)]) s := by
  have htold : ∀ w, toldLoss w (past ++ [(e, o)]) = toldLoss w past := by
    intro w
    simp [toldLoss_concat, hloss]
  refine ⟨h.parked, h.created, fun w hw => ?_, fun w pc hw => ?_,
    fun hnot => h.unstopped (unsent_of_concat hnot), fun hnot => h.opened (unsent_of_concat hnot)⟩
  · rw [htold]
    exact h.silent w hw
  · rw [htold]
    exact h.agrees w pc hw

/-- The dispatcher changes, the threads stay. -/
theorem Traced.setDispatcher (h : Traced past s) (hactivity : d.activity = s.dispatcher.activity)
    (hopened : s.dispatcher.Opened → d.Opened) : Traced past (s.setDispatcher d) := by
  refine ⟨h.parked, h.created, h.silent, h.agrees, fun hstop => ?_,
    fun hstop => hopened (h.opened hstop)⟩
  obtain ⟨hfree, hstarted⟩ := h.unstopped hstop
  exact ⟨hfree, fun w pc hw => hactivity.trans (hstarted w pc hw)⟩

/-- Once `stop` has sent its message there is little left to say of the dispatcher. -/
theorem Traced.stopped (h : Traced past s) (hstop : stopSent past = true) {holder : Option Holder}
    (parked : ∀ w, holder = some (.worker w) → s.workers w = some .stopping) :
    Traced past { s with dispatcher := d, holder := holder } := by
  refine ⟨parked, h.created, h.silent, h.agrees, fun hnot => ?_, fun hnot => ?_⟩
  all_goals
    rw [hstop] at hnot
    cases hnot

/-- The worker moves on, perhaps because it has been told about its connection. -/
theorem Traced.moveWorker (h : Traced past s) {w : WorkerId} {pc pc' : WorkerPc}
    (at' : s.workers w = some pc) (hfree : s.holder = none ∨ pc ≠ .stopping)
    (hother : ∀ w', w' ≠ w → o.tellsLoss w' = false)
    (hagrees : pc'.agrees (toldLoss w past || o.tellsLoss w) = true) :
    Traced (past ++ [(e, o)]) (s.setWorker w pc') := by
  have htold : ∀ w', w' ≠ w → toldLoss w' (past ++ [(e, o)]) = toldLoss w' past := by
    intro w' hne
    simp [toldLoss_concat, hother w' hne]
  refine ⟨fun w' hholder => ?_, fun w' pc'' hw' => ?_, fun w' hw' => ?_, fun w' pc'' hw' => ?_,
    fun hnot => ?_, fun hnot => h.opened (unsent_of_concat hnot)⟩
  · have hparked := h.parked w' hholder
    exact (Function.update_of_ne (waiting_ne at' hfree hholder hparked) ..).trans hparked
  · obtain ⟨rfl, -⟩ | ⟨-, hold⟩ := setWorker_inv hw'
    · exact h.created w' pc at'
    · exact h.created w' pc'' hold
  · have hne : w' ≠ w := by
      rintro rfl
      exact absurd (h.created w' pc at') (Nat.not_lt.mpr hw')
    rw [htold w' hne]
    exact h.silent w' hw'
  · obtain ⟨rfl, rfl⟩ | ⟨hne, hold⟩ := setWorker_inv hw'
    · rw [toldLoss_concat]
      exact hagrees
    · rw [htold w' hne]
      exact h.agrees w' pc'' hold
  · obtain ⟨hnone, hstarted⟩ := h.unstopped (unsent_of_concat hnot)
    refine ⟨hnone, fun w' pc'' hw' => ?_⟩
    obtain ⟨rfl, -⟩ | ⟨-, hold⟩ := setWorker_inv hw'
    · exact hstarted w' pc at'
    · exact hstarted w' pc'' hold

/-- The worker moves on without a word about its connection. -/
theorem Traced.quiet (h : Traced past s) {w : WorkerId} {pc pc' : WorkerPc}
    (at' : s.workers w = some pc) (hfree : s.holder = none ∨ pc ≠ .stopping)
    (hloss : ∀ w, o.tellsLoss w = false)
    (hagrees : pc'.agrees (toldLoss w past) = true) :
    Traced (past ++ [(e, o)]) (s.setWorker w pc') :=
  h.moveWorker at' hfree (fun w' _ => hloss w') (by rw [hloss, Bool.or_false]; exact hagrees)

theorem afterReceive_agrees (d : Dispatcher) (w : WorkerId) (ret : Int) (b : Buffer) :
    (d.afterReceive ret b).agrees ((Observation.received w ret b).tellsLoss w) = true := by
  have htells : (Observation.received w ret b).tellsLoss w =
      (ret = connectionClosed || ret = netErrorOnSession : Bool) := by
    simp [Observation.tellsLoss]
  rw [htells]
  rw [Dispatcher.afterReceive]
  split
  · rfl
  · split
    · rename_i hret
      have hclosed : ret ≠ connectionClosed ∧ ret ≠ netErrorOnSession := by
        simp only [connectionClosed, netErrorOnSession]
        omega
      simp [WorkerPc.agrees, hclosed]
    · split
      · rename_i hloss
        simpa [WorkerPc.agrees] using hloss
      · rename_i hloss
        simpa [WorkerPc.agrees] using hloss

theorem jobMove_traced {s' : World} {w : WorkerId} {sent : Bool} {pc : WorkerPc}
    (h : Traced past s) (at' : s.workers w = some pc) (move : JobMove s w pc s' o) :
    Traced (past ++ [(.job w sent, o)]) s' := by
  have hagrees := h.agrees w pc at'
  cases move with
  | check free =>
      refine h.quiet at' (.inl free) (fun _ => rfl) ?_
      split <;> simp_all [WorkerPc.agrees]
  | @read _ pc' d _ reading traffic lands =>
      have hread : toldLoss w past = false ∧ pc ≠ .stopping := by
        cases pc <;> simp [WorkerPc.isReading] at reading <;> simp_all [WorkerPc.agrees]
      have hd := h.setDispatcher traffic.activity fun hopened => hopened.traffic traffic
      cases lands with
      | call r =>
          have hcall : (WorkerPc.call r).agrees (toldLoss w past) = true := by
            simp [WorkerPc.agrees, hread.1]
          exact hd.quiet at' (.inr hread.2) (fun _ => rfl) hcall
      | inside mbox r =>
          have hinside : (WorkerPc.inside mbox r).agrees (toldLoss w past) = true := by
            simp [WorkerPc.agrees, hread.1]
          exact hd.quiet at' (.inr hread.2) (fun _ => rfl) hinside
      | returned ret b =>
          refine hd.moveWorker at' (.inr hread.2) (fun w' hne => ?_) ?_
          · simp [Observation.tellsLoss, Ne.symm hne]
          · rw [hread.1, Bool.false_or]
            exact afterReceive_agrees d w ret b
  | @route b free =>
      refine h.quiet at' (.inl free) (fun _ => rfl) ?_
      rw [Dispatcher.routeTo]
      split
      · exact hagrees
      · split <;> exact hagrees
  | @push q b queue ret =>
      have hd := h.setDispatcher (d := s.dispatcher.setQueue q queue) rfl fun hopened => hopened
      refine hd.quiet at' (.inr (by simp)) (fun w' => ?_) hagrees
      cases ret <;> rfl
  | stopFails free => exact h.quiet at' (.inl free) (fun _ => rfl) hagrees
  | stopSends =>
      refine (h.concat (fun _ => rfl)).stopped (by simp [stopSent_concat, Observation.isHaltSent])
        fun w' hholder => ?_
      cases hholder
      exact at'
  | @disconnects sent' _ free outcome =>
      have hd := h.setDispatcher (d := (s.dispatcher.disconnect sent').2) ?_
        fun hopened => hopened.disconnect sent'
      · refine hd.quiet at' (.inl free) (fun w' => ?_) hagrees
        obtain rfl | ⟨e, rfl⟩ := outcome <;> rfl
      · obtain hsame | ⟨hstopped, -, hactivity, -⟩ := s.dispatcher.disconnect_status sent'
        · exact hsame.activity
        · exact hactivity.trans hstopped.symm

/-- The end of `stop`, which has sent its message. -/
theorem Traced.release (h : Traced past s) {holder : Holder} (held : s.holder = some holder)
    (hloss : ∀ w, o.tellsLoss w = false) : Traced (past ++ [(e, o)]) (s.release holder d) := by
  have hstop : stopSent past = true := by
    by_contra hnot
    have hfree := (h.unstopped (by simpa using hnot)).1
    rw [hfree] at held
    cases held
  have hreleased : Traced past { s with dispatcher := d, holder := none } :=
    h.stopped hstop (fun _ h => nomatch h)
  cases holder with
  | user => exact hreleased.concat hloss
  | worker w =>
      have at' := h.parked w held
      have hagrees := h.agrees w _ at'
      exact hreleased.quiet at' (.inl rfl) hloss hagrees

/-- A new worker. Without a `stop` it is the first one. -/
theorem Traced.start (h : Traced past s) (free : s.holder = none)
    (online : s.dispatcher.connStatus = .online) :
    Traced (past ++ [(e, .returned true)]) { s with
      dispatcher := { s.dispatcher with thread := some s.nextWorker, activity := .started }
      workers := Function.update s.workers s.nextWorker (some .loop)
      nextWorker := s.nextWorker + 1 } := by
  refine Traced.concat ⟨fun w hholder => ?_, fun w pc hw => ?_, fun w hw => ?_, fun w pc hw => ?_,
    fun _ => ⟨free, fun _ _ _ => rfl⟩, fun hnot _ => h.opened hnot online⟩ fun _ => rfl
  · have hholder : s.holder = some (.worker w) := hholder
    rw [free] at hholder
    cases hholder
  · by_cases hne : w = s.nextWorker
    · exact hne ▸ Nat.lt_succ_self _
    · have hw : Function.update s.workers s.nextWorker (some .loop) w = some pc := hw
      rw [Function.update_of_ne hne] at hw
      exact Nat.lt_succ_of_lt (h.created w pc hw)
  · exact h.silent w (Nat.le_of_succ_le hw)
  · have hw : Function.update s.workers s.nextWorker (some .loop) w = some pc := hw
    by_cases hne : w = s.nextWorker
    · subst hne
      rw [Function.update_self] at hw
      obtain rfl := Option.some.inj hw
      simp [WorkerPc.agrees, h.silent _ le_rfl]
    · rw [Function.update_of_ne hne] at hw
      exact h.agrees w pc hw

theorem step_traced {s' : World} (h : Traced past s) (hstep : s.step e = some (s', o)) :
    Traced (past ++ [(e, o)]) s' := by
  cases step_move hstep with
  | @perform t op sent =>
      have hactivity := (s.dispatcher.perform_status sent op).1
      refine (h.setDispatcher hactivity fun hopened => hopened.perform sent op).concat fun w => ?_
      cases (perform s.dispatcher sent op).1 <;> rfl
  | startFails => exact h.concat fun _ => rfl
  | starts free online => exact h.start free online
  | stopFails => exact h.concat fun _ => rfl
  | stopSends =>
      exact (h.concat (fun _ => rfl)).stopped (by simp [stopSent_concat, Observation.isHaltSent])
        (fun _ h => nomatch h)
  | join held => exact h.release held fun _ => rfl
  | timeOut held => exact h.release held fun _ => rfl
  | receiveFails fails =>
      refine h.concat fun w => ?_
      obtain rfl | ⟨e, rfl⟩ := fails <;> rfl
  | receives =>
      refine Traced.concat ⟨h.parked, h.created, h.silent, h.agrees, h.unstopped, h.opened⟩ ?_
      exact fun _ => rfl
  | @pop t q isLocking queue ret =>
      refine Traced.concat (s := (s.setDispatcher (s.dispatcher.setQueue q queue)).setUser t .idle)
        ⟨h.parked, h.created, h.silent, h.agrees, h.unstopped, h.opened⟩ fun w => ?_
      cases ret <;> rfl
  | job at' move => exact jobMove_traced h at' move
  | traffic _ traffic =>
      exact (h.setDispatcher traffic.activity fun hopened => hopened.traffic traffic).concat
        fun _ => rfl

theorem run_traced {clientName : Str} {legal : World → Event → Prop} {s₀ : World}
    (init : (machine clientName).init s₀) (run : (machine clientName).Run legal s₀ past s) :
    Traced past s := by
  refine run.history (I := Traced) ?_ fun _ _ _ _ _ h _ move => step_traced h move
  obtain ⟨address, dropEcho, dropMembership, mbox, rfl⟩ := init
  exact ⟨(fun _ h => nomatch h), (fun _ _ h => nomatch h), fun _ _ => rfl,
    (fun _ _ h => nomatch h), fun _ => ⟨rfl, (fun _ _ h => nomatch h)⟩, fun _ => .offline rfl⟩

/-- A worker that finds its dispatcher offline. -/
theorem offline_of_left {s' : World} {w : WorkerId} {pc : WorkerPc}
    (move : JobMove s w pc s' o) (at' : s.workers w = some pc)
    (left : s'.workers w = some (.done .offline)) : s.dispatcher.connStatus = .offline := by
  obtain ⟨-, -, hoffline⟩ | ⟨hexit, -⟩ | ⟨hexit, -⟩ := move.exit at' left
  · exact hoffline
  · cases hexit
  · cases hexit

/-- A threatened worker leaves by the halt exit, with nothing lost. -/
theorem halted_of_threatened {s' : World} {w : WorkerId} {sent : Bool} {why : Exit}
    (h : s.step (.job w sent) = some (s', o)) (left : s'.workers w = some (.done why))
    (hthreat : s.threatened (.job w sent) = true) :
    (∃ mbox r, s.workers w = some (.inside mbox r)) ∧ o.tellsLoss w = false := by
  simp only [threatened] at hthreat
  split at hthreat
  · rename_i mbox r at'
    have hjob := h
    simp only [step, at'] at hjob
    cases jobStep_move hjob with
    | read _ _ lands =>
        obtain rfl := lands.ends.2 _ (setWorker_at left)
        refine ⟨⟨mbox, r, at'⟩, ?_⟩
        obtain ⟨-, hquiet⟩ | ⟨hnot, -⟩ := halted_inv h left
        · exact hquiet
        · simp only [threatened, at'] at hnot
          rw [hnot] at hthreat
          cases hthreat
  · cases hthreat

/-- **Halting.** A worker leaves `job()` after its dispatcher's `stop` has sent the halt
message, after the loss of its connection or offline, exactly when the step in which it
leaves is not threatened by the header of somebody else's halt message. -/
theorem leaves_iff_unthreatened (clientName : Str) {s₀ s s' : World} {w : WorkerId} {sent : Bool}
    {why : Exit} (init : (machine clientName).init s₀)
    (run : (machine clientName).Run (fun _ _ => True) s₀ past s)
    (leaves : s.step (.job w sent) = some (s', o)) (left : s'.workers w = some (.done why)) :
    (stopSent past = true ∨ toldLoss w (past ++ [(.job w sent, o)]) = true ∨
        s.dispatcher.connStatus = .offline) ↔
      (stopSent past = true ∨ s.threatened (.job w sent) = false) := by
  have htraced := run_traced init run
  by_cases hstop : stopSent past = true
  · simp [hstop]
  have hunsent : stopSent past = false := by simpa using hstop
  have hat : ∃ pc, s.workers w = some pc ∧ JobMove s w pc s' o := by
    cases step_move leaves with
    | job at' move => exact ⟨_, at', move⟩
    | traffic network => obtain ⟨mbox, ⟨f, hevent⟩ | hevent | hevent⟩ := network <;> cases hevent
  obtain ⟨pc, at', move⟩ := hat
  have hstarted := (htraced.unstopped hunsent).2 w pc at'
  have honline : s.dispatcher.connStatus = .online :=
    (reachable_startedOnline ⟨s₀, past, init, run⟩).online hstarted
  have hsession := htraced.opened hunsent honline
  simp only [hunsent, honline, Bool.false_eq_true, false_or, reduceCtorEq, or_false]
  constructor
  · intro htold
    by_contra hthreat
    obtain ⟨⟨mbox, r, hinside⟩, hquiet⟩ :=
      halted_of_threatened leaves left (by simpa using hthreat)
    rw [toldLoss_concat, hquiet, Bool.or_false] at htold
    have hagrees := htraced.agrees w _ hinside
    rw [htold] at hagrees
    cases hagrees
  · intro hthreat
    cases why with
    | offline =>
        rw [offline_of_left move at' left] at honline
        cases honline
    | halted =>
        obtain ⟨hyes, -⟩ | ⟨-, htells | hnone⟩ := halted_inv leaves left
        · rw [hthreat] at hyes
          cases hyes
        · rw [toldLoss_concat, htells, Bool.or_true]
        · rw [hnone] at hsession
          cases hsession
    | lost => exact (step_traced htraced leaves).agrees w _ left

/-- The daemon hangs up, and the worker's own `stop` finds no control group. -/
theorem leaves_iff_unthreatened_lost : ∃ (past : List (Event × Observation)) (s s' : World)
    (o : Observation), stopSent past = false ∧ s.step (.job 0 true) = some (s', o) ∧
      s'.workers 0 = some (.done .lost) ∧ (stopSent past = true ∨
        toldLoss 0 (past ++ [(.job 0 true, o)]) = true ∨ s.dispatcher.connStatus = .offline) := by
  obtain ⟨past, s, run, hunsent, hthreat, hlost⟩ := Machine.Run.exists_of_exec
    (machine demoClient) (fun _ _ => True) demo
    [connects, .start 0, .job 0 true, .job 0 true, .hangUp 0,
      .perform 0 (.unregisterGroup demo.dispatcher.controlGroup) true, .job 0 true, .job 0 true]
    (fun past s => stopSent past = false ∧ s.threatened (.job 0 true) = false ∧
      ((s.step (.job 0 true)).any fun r => r.1.workers 0 = some (.done .lost)) = true) (by decide)
  obtain ⟨⟨s', o⟩, hstep, hdone⟩ := (Option.any_eq_true _ _).mp hlost
  have hdone : s'.workers 0 = some (.done .lost) := of_decide_eq_true hdone
  exact ⟨past, s, s', o, hunsent, hstep, hdone,
    (leaves_iff_unthreatened demoClient demo_init run hstep hdone).mpr (.inr hthreat)⟩

/-- Another client's message to the control group, with the reserved opcode. -/
def demoHalt : Frame :=
  { type := safeMess, oldType := 0, sender := [35, 99], groups := [demo.dispatcher.controlGroup]
    messType := sigHaltMsg, body := [1] }

/-- Another client halts the worker. -/
theorem halted_by_stranger : ¬ ∀ (s₀ s s' : World) (past : List (Event × Observation))
    (w : WorkerId) (sent : Bool) (o : Observation) (why : Exit), (machine demoClient).init s₀ →
    (machine demoClient).Run (fun _ _ => True) s₀ past s →
    s.step (.job w sent) = some (s', o) → s'.workers w = some (.done why) →
    stopSent past = true ∨ toldLoss w (past ++ [(.job w sent, o)]) = true ∨
      s.dispatcher.connStatus = .offline := by
  intro hall
  obtain ⟨past, s, run, hunsent, honline, hhalted⟩ := Machine.Run.exists_of_exec
    (machine demoClient) (fun _ _ => True) demo
    [connects, .start 0, .job 0 true, .job 0 true, .deliver 0 demoHalt, .job 0 true, .job 0 true]
    (fun past s => stopSent past = false ∧ s.dispatcher.connStatus = .online ∧
      ((s.step (.job 0 true)).any fun r => r.1.workers 0 = some (.done .halted) &&
        !toldLoss 0 (past ++ [(.job 0 true, r.2)])) = true) (by decide)
  obtain ⟨⟨s', o⟩, hstep, hdone⟩ := (Option.any_eq_true _ _).mp hhalted
  obtain ⟨hdone, hquiet⟩ := (Bool.and_eq_true _ _).mp hdone
  rcases hall demo s s' past 0 true o .halted demo_init run hstep (of_decide_eq_true hdone) with
    h | h | h
  · rw [hunsent] at h
    cases h
  · rw [h] at hquiet
    cases hquiet
  · rw [honline] at h
    cases h

end World

end Netbroker
