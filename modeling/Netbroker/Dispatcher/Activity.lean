import Netbroker.Connector.Turns
import Netbroker.Dispatcher.Steps

/-!
# The activity flag and the worker thread

`m_activity` is written by `start` and by `stop`, while a worker ends on its own: on
a halt message, on a lost connection, or when it finds the dispatcher offline. The
flag tells the truth as long as `start` finds no worker left over, a worker meets the
header of a halt message only while some `stop` waits for it, and the `stop` of a worker
whose connection is lost gets its halt message made.

The halt exit depends on two variables that the calls of `SP_receive` write, the opcode and
the first group. A frame at the head of the session can put the halt message there, its own
or together with what the first call of the turn has left, and a call that fails leaves them
as they are. `meetsHalt` looks at them and at the frame ahead of the step, `halts_of_step`
shows that there is no other way to that exit.
-/

namespace Netbroker

open Spread Transition

/-- The fields that say whether the dispatcher is connected and started. -/
structure SameStatus (d d' : Dispatcher) : Prop where
  connStatus : d'.connStatus = d.connStatus
  activity : d'.activity = d.activity
  thread : d'.thread = d.thread

theorem SameStatus.refl (d : Dispatcher) : SameStatus d d := ⟨rfl, rfl, rfl⟩

theorem Traffic.sameStatus {d d' : Dispatcher} (h : Traffic d d') : SameStatus d d' :=
  ⟨h.connStatus, h.activity, h.thread⟩

namespace Dispatcher

variable (d : Dispatcher)

theorem registerGroup_sameStatus (groupName : Str) (bufferSize : Int) (queueSize : Nat)
    (sendOnly sent : Bool) :
    SameStatus d (d.registerGroup groupName bufferSize queueSize sendOnly sent).2 := by
  obtain ⟨e, h⟩ | ⟨-, h⟩ | ⟨-, -, -, -, ⟨-, h⟩ | ⟨-, h⟩⟩ :=
    d.registerGroup_cases groupName bufferSize queueSize sendOnly sent
  all_goals
    rw [h]
    exact ⟨rfl, rfl, rfl⟩

theorem unregisterGroup_sameStatus (groupName : Str) (sent : Bool) :
    SameStatus d (d.unregisterGroup groupName sent).2 := by
  obtain ⟨e, h⟩ | ⟨first, rest, -, -, h⟩ | ⟨-, -, -, -, h⟩ := d.unregisterGroup_cases groupName sent
  · rw [h]; exact .refl d
  · rw [h]
    dsimp only
    split <;> exact ⟨rfl, rfl, rfl⟩
  · rw [h]; exact ⟨rfl, rfl, rfl⟩

/-- `connect` goes online at most, and only a stopped dispatcher. -/
theorem connect_status (answer : Answer) (sent : Bool) :
    SameStatus d (d.connect answer sent).2 ∨
      d.connStatus = .offline ∧ d.activity = .stopped ∧
        (d.connect answer sent).2.connStatus = .online ∧
        (d.connect answer sent).2.activity = .stopped ∧
        (d.connect answer sent).2.thread = d.thread := by
  obtain ⟨e, h⟩ | ⟨code, -, h⟩ | ⟨privateGroup, -, hoffline, hstopped, h⟩ :=
    d.connect_cases answer sent
  · rw [h]; exact .inl (.refl d)
  · rw [h]; exact .inl (.refl d)
  · rw [h]
    have hsame := (d.connected privateGroup).registerGroup_sameStatus d.controlGroup 1 1 false sent
    exact .inr ⟨hoffline, hstopped, hsame.connStatus, hsame.activity.trans hstopped, hsame.thread⟩

/-- `disconnect` goes offline at most, and only a stopped dispatcher. -/
theorem disconnect_status (sent : Bool) :
    SameStatus d (d.disconnect sent).2 ∨
      d.activity = .stopped ∧ (d.disconnect sent).2.connStatus = .offline ∧
        (d.disconnect sent).2.activity = .stopped ∧
        (d.disconnect sent).2.thread = d.thread := by
  obtain ⟨e, h⟩ | ⟨-, -, h⟩ | ⟨-, hstopped, d', hunregister, h⟩ := d.disconnect_cases sent
  · rw [h]; exact .inl (.refl d)
  · rw [h]; exact .inl (.refl d)
  · rw [h]
    have hsame := d.unregisterGroup_sameStatus d.controlGroup sent
    rw [hunregister] at hsame
    exact .inr ⟨hstopped, rfl, hsame.activity.trans hstopped, hsame.thread⟩

/-- The user's operations leave the activity and the thread alone, and the
connection status too while the dispatcher is started. -/
theorem perform_status (sent : Bool) (op : Operation) :
    (World.perform d sent op).2.activity = d.activity ∧
      (World.perform d sent op).2.thread = d.thread ∧
      (d.activity = .started → (World.perform d sent op).2.connStatus = d.connStatus) := by
  have of_same : ∀ {d' : Dispatcher}, SameStatus d d' → d'.activity = d.activity ∧
      d'.thread = d.thread ∧ (d.activity = .started → d'.connStatus = d.connStatus) :=
    fun h => ⟨h.activity, h.thread, fun _ => h.connStatus⟩
  cases op with
  | registerGroup => exact of_same (d.registerGroup_sameStatus ..)
  | unregisterGroup => exact of_same (d.unregisterGroup_sameStatus ..)
  | sendMessageToGroup b => exact of_same (sendMessageToGroup_traffic d b sent).sameStatus
  | connect answer =>
      obtain h | ⟨-, hstopped, -, hactivity, hthread⟩ := d.connect_status answer sent
      · exact of_same h
      · refine ⟨hactivity.trans hstopped.symm, hthread, fun hstarted => ?_⟩
        rw [hstopped] at hstarted
        cases hstarted
  | disconnect =>
      obtain h | ⟨hstopped, -, hactivity, hthread⟩ := d.disconnect_status sent
      · exact of_same h
      · refine ⟨hactivity.trans hstopped.symm, hthread, fun hstarted => ?_⟩
        rw [hstopped] at hstarted
        cases hstarted

end Dispatcher

namespace World

/-- The worker is executing `job()`. -/
def Running (s : World) (w : WorkerId) : Prop :=
  ∃ pc, s.workers w = some pc ∧ ∀ why, pc ≠ .done why

/-- The flag, the thread pointer and the workers agree. -/
structure Tidy (s : World) : Prop where
  stopped : s.dispatcher.activity = .stopped → s.dispatcher.thread = none
  online : s.dispatcher.activity = .started → s.dispatcher.connStatus = .online
  created : ∀ w pc, s.workers w = some pc → w < s.nextWorker
  single : ∀ w w', s.Running w → s.Running w' → w = w'
  held : s.holder ≠ none → s.dispatcher.activity = .started
  waiting : ∀ w, s.holder = some (.worker w) → s.workers w = some .stopping
  leaving : ∀ w, s.workers w = some .disconnecting → s.dispatcher.activity = .stopped
  working : s.holder = none → s.dispatcher.activity = .started →
    ∃ w, s.dispatcher.thread = some w ∧ s.Running w

theorem running_setWorker {s : World} {w w' : WorkerId} {pc : WorkerPc} :
    (s.setWorker w pc).Running w' ↔
      if w' = w then ∀ why, pc ≠ .done why else s.Running w' := by
  unfold Running
  split
  · subst w'
    simp
  · rename_i hne
    simp [Function.update_of_ne hne]

theorem running_of_at {s : World} {w : WorkerId} {pc : WorkerPc} (at' : s.workers w = some pc)
    (h : ∀ why, pc ≠ .done why) : s.Running w :=
  ⟨pc, at', h⟩

/-- Writing the state of a worker that has been created adds none. -/
theorem Tidy.created_update {s : World} (hs : s.Tidy) {n : Nat} (hle : s.nextWorker ≤ n)
    {w w' : WorkerId} {pc pc' : WorkerPc} (hw : w < n)
    (h : Function.update s.workers w (some pc) w' = some pc') : w' < n := by
  by_cases hne : w' = w
  · rw [hne]
    exact hw
  · rw [Function.update_of_ne hne] at h
    exact Nat.lt_of_lt_of_le (hs.created w' pc' h) hle

/-- A running worker moves on. It may end only while some `stop` waits, or when the
dispatcher is stopped. -/
theorem Tidy.moveWorker {s : World} {d : Dispatcher} {w : WorkerId} {pc pc' : WorkerPc}
    (hs : s.Tidy) (at' : s.workers w = some pc) (hrunning : ∀ why, pc ≠ .done why)
    (hfree : s.holder = none ∨ pc ≠ .stopping) (hactivity : d.activity = s.dispatcher.activity)
    (hthread : d.thread = s.dispatcher.thread)
    (honline : s.dispatcher.activity = .started → d.connStatus = s.dispatcher.connStatus)
    (hstays : pc' ≠ .disconnecting)
    (hends : s.holder = none → s.dispatcher.activity = .started → ∀ why, pc' ≠ .done why) :
    ((s.setDispatcher d).setWorker w pc').Tidy := by
  have hw : s.Running w := running_of_at at' hrunning
  have still : ∀ w', ((s.setDispatcher d).setWorker w pc').Running w' → s.Running w' := by
    intro w' h
    rw [running_setWorker] at h
    split at h
    · subst w'
      exact hw
    · exact h
  refine ⟨?_, ?_, ?_, ?_, ?_, ?_, ?_, ?_⟩
  · intro hstopped
    exact hthread.trans (hs.stopped (hactivity.symm.trans hstopped))
  · intro hstarted
    have hstarted' : s.dispatcher.activity = .started := hactivity.symm.trans hstarted
    exact (honline hstarted').trans (hs.online hstarted')
  · intro w' pc'' h
    exact hs.created_update (Nat.le_refl _) (hs.created w pc at') h
  · intro w₁ w₂ h₁ h₂
    exact hs.single w₁ w₂ (still w₁ h₁) (still w₂ h₂)
  · intro hheld
    exact hactivity.trans (hs.held hheld)
  · intro w' hholder
    have hwaiting := hs.waiting w' hholder
    exact (Function.update_of_ne (waiting_ne at' hfree hholder hwaiting) ..).trans hwaiting
  · intro w' h
    obtain ⟨-, rfl⟩ | ⟨-, hold⟩ := setWorker_inv h
    · exact absurd rfl hstays
    · exact hactivity.trans (hs.leaving w' hold)
  · intro hnone hstarted
    have hstarted' : s.dispatcher.activity = .started := hactivity.symm.trans hstarted
    obtain ⟨w', hw', hrun⟩ := hs.working hnone hstarted'
    refine ⟨w', hthread.trans hw', ?_⟩
    obtain rfl := hs.single w' w hrun hw
    rw [running_setWorker, if_pos rfl]
    exact hends hnone hstarted'

/-- The end of `stop`: the dispatcher is stopped, whoever called it. -/
theorem Tidy.release {s : World} {h : Holder} {d : Dispatcher} (hs : s.Tidy)
    (held : s.holder = some h) (hstopped : d.activity = .stopped) (hthread : d.thread = none) :
    (s.release h d).Tidy := by
  have hcontra : ∀ {P : Prop}, d.activity = .started → P := by
    intro P hstarted
    rw [hstopped] at hstarted
    cases hstarted
  have huser : ({ s with dispatcher := d, holder := none } : World).Tidy :=
    ⟨fun _ => hthread, fun h => hcontra h, hs.created, hs.single, fun h => absurd rfl h,
      (fun _ h => nomatch h), fun _ _ => hstopped, fun _ h => hcontra h⟩
  cases h with
  | user => exact huser
  | worker w =>
      have at' := hs.waiting w held
      -- as far as the workers go, the caller has only moved on
      have hmoved : ∀ w', (s.release (.worker w) d).Running w' → s.Running w' := by
        intro w' hrun
        have hrun : (({ s with dispatcher := d, holder := none } : World).setWorker w
          .disconnecting).Running w' := hrun
        rw [running_setWorker] at hrun
        split at hrun
        · subst w'
          exact running_of_at at' (by simp)
        · exact hrun
      refine ⟨fun _ => hthread, fun h => hcontra h, ?_, ?_, fun h => absurd rfl h,
        (fun _ h => nomatch h), fun _ _ => hstopped, fun _ h => hcontra h⟩
      · intro w' pc h
        exact hs.created_update (Nat.le_refl _) (hs.created w _ at') h
      · intro w₁ w₂ h₁ h₂
        exact hs.single w₁ w₂ (hmoved w₁ h₁) (hmoved w₂ h₂)

theorem afterReceive_cases (d : Dispatcher) (ret : Int) (b : Buffer) :
    d.afterReceive ret b = .done .halted ∨ d.afterReceive ret b = .route b ∨
      (d.afterReceive ret b = .stopping ∧ (ret = connectionClosed ∨ ret = netErrorOnSession)) ∨
      d.afterReceive ret b = .loop := by
  rw [Dispatcher.afterReceive]
  grind

/-- In `receiveFromGroup` a worker can end only by the halt message. -/
theorem Lands.ends {d : Dispatcher} {w : WorkerId} {pc : WorkerPc} {o : Observation}
    (h : Lands d w pc o) :
    pc ≠ .disconnecting ∧ ∀ why, pc = .done why → why = .halted := by
  cases h with
  | call => simp
  | inside => simp
  | returned ret b =>
      obtain h | h | ⟨h, -⟩ | h := afterReceive_cases d ret b
      all_goals simp [h, eq_comm]

theorem routeTo_stays (d : Dispatcher) (b : Buffer) :
    d.routeTo b ≠ .disconnecting ∧ ∀ why, d.routeTo b ≠ .done why := by
  rw [Dispatcher.routeTo]
  split
  · simp
  · split <;> simp

/-- Where a worker that leaves `job()` has stood, by its exit. -/
theorem JobMove.exit {s s' : World} {w : WorkerId} {pc : WorkerPc} {o : Observation} {why : Exit}
    (move : JobMove s w pc s' o) (at' : s.workers w = some pc)
    (left : s'.workers w = some (.done why)) :
    why = .offline ∧ pc = .loop ∧ s.dispatcher.connStatus = .offline ∨
      why = .halted ∧ pc.isReading = true ∨
      why = .lost ∧ (pc = .stopping ∨ pc = .disconnecting) := by
  cases move with
  | check =>
      have left := setWorker_at left
      obtain honline | hoffline := s.dispatcher.connStatus.online_or_offline
      · rw [if_pos (by simp [Dispatcher.isOnline, honline])] at left
        cases left
      · rw [if_neg (by simp [Dispatcher.isOnline, hoffline])] at left
        obtain rfl := WorkerPc.done.inj left
        exact .inl ⟨rfl, rfl, hoffline⟩
  | read reading _ lands =>
      obtain rfl := lands.ends.2 why (setWorker_at left)
      exact .inr (.inl ⟨rfl, reading⟩)
  | route => exact absurd (setWorker_at left) ((routeTo_stays _ _).2 why)
  | push => cases setWorker_at left
  | stopFails =>
      obtain rfl := WorkerPc.done.inj (setWorker_at left)
      exact .inr (.inr ⟨rfl, .inl rfl⟩)
  | stopSends =>
      -- the worker waits
      have left : s.workers w = some (.done why) := left
      rw [at'] at left
      cases left
  | disconnects =>
      obtain rfl := WorkerPc.done.inj (setWorker_at left)
      exact .inr (.inr ⟨rfl, .inr rfl⟩)

/-- How a reading worker comes to the halt exit: the buffer it returns says halt. -/
theorem resume_halted {s s' : World} {w : WorkerId} {privateGroup : Str} {r : Reading}
    {x : Reception} {o : Observation} (h : s.resume w privateGroup r x = (s', o))
    (left : s'.workers w = some (.done .halted)) :
    ∃ ret, r.phase = .second ∧
      verdict (s.dispatcher.listener privateGroup) x = some ret ∧
      o = .received w ret (filledBuffer x) ∧ x.slots.messType = sigHaltMsg ∧
      x.slots.groupName = s.dispatcher.controlGroup := by
  rw [resume] at h
  cases hphase : r.phase with
  | first =>
      simp only [Reading.resume, hphase] at h
      obtain ⟨rfl, -⟩ := Prod.mk.inj h
      simp at left
  | second =>
      cases hverdict : verdict (s.dispatcher.listener privateGroup) x with
      | none =>
          simp only [Reading.resume, hphase, hverdict] at h
          obtain ⟨rfl, -⟩ := Prod.mk.inj h
          simp at left
      | some ret =>
          simp only [Reading.resume, hphase, hverdict] at h
          obtain ⟨rfl, rfl⟩ := Prod.mk.inj h
          refine ⟨ret, rfl, rfl, rfl, ?_⟩
          have left := setWorker_at left
          rw [Dispatcher.afterReceive] at left
          split at left
          · rename_i hhalt
            exact hhalt
          · split at left
            · simp at left
            · split at left <;> simp at left

/-- Only a reading worker takes the halt exit. -/
theorem reading_of_halted {s s' : World} {w : WorkerId} {sent : Bool} {pc : WorkerPc}
    {o : Observation} (at' : s.workers w = some pc) (h : s.jobStep w sent pc = some (s', o))
    (left : s'.workers w = some (.done .halted)) : pc.isReading = true := by
  obtain ⟨hexit, -⟩ | ⟨-, hreading⟩ | ⟨hexit, -⟩ := (jobStep_move h).exit at' left
  · cases hexit
  · exact hreading
  · cases hexit

/-- The second call is going to leave a halting header in the slots: the frame at the head
has one, and is not discarded, or the call fails and the first one has left it there. -/
def meetsHalt (s : World) : Event → Bool
  | .job w _ =>
      match s.workers w with
      | some (.call r) =>
          r.phase = .second && r.slots.saysHalt s.dispatcher.controlGroup &&
            s.dispatcher.connection.session.all fun session => !session.active
      | some (.inside mbox r) =>
          r.phase = .second &&
            match s.dispatcher.connection.spread.sessions mbox with
            | some session =>
                match session.pending with
                | f :: _ =>
                    r.poses session.privateGroup s.dispatcher.controlGroup f &&
                      (verdict (s.dispatcher.listener session.privateGroup)
                        (r.receive session.privateGroup f)).isSome
                | [] => session.closed && r.slots.saysHalt s.dispatcher.controlGroup
            | none => r.slots.saysHalt s.dispatcher.controlGroup
      | _ => false
  | _ => false

/-- The ways to the halt exit: a frame with a halting header, or a call that fails with one
in the slots. -/
inductive Halts (s : World) (w : WorkerId) : WorkerPc → Observation → Prop
  | frame {mbox : Mailbox} {r : Reading} {session : Session} {f : Frame} {rest : List Frame}
      {ret : Int} {b : Buffer} (second : r.phase = .second)
      (opened : s.dispatcher.connection.spread.sessions mbox = some session)
      (pending : session.pending = f :: rest)
      (poses : r.poses session.privateGroup s.dispatcher.controlGroup f = true)
      (decided : verdict (s.dispatcher.listener session.privateGroup)
        (r.receive session.privateGroup f) = some ret) :
      Halts s w (.inside mbox r) (.received w ret b)
  | ended {mbox : Mailbox} {r : Reading} {session : Session} {b : Buffer}
      (second : r.phase = .second)
      (opened : s.dispatcher.connection.spread.sessions mbox = some session)
      (pending : session.pending = []) (closed : session.closed = true)
      (halting : r.slots.saysHalt s.dispatcher.controlGroup = true) :
      Halts s w (.inside mbox r) (.received w connectionClosed b)
  | gone {mbox : Mailbox} {r : Reading} {b : Buffer} (second : r.phase = .second)
      (gone : s.dispatcher.connection.spread.sessions mbox = none)
      (halting : r.slots.saysHalt s.dispatcher.controlGroup = true) :
      Halts s w (.inside mbox r) (.received w connectionClosed b)
  | broken {r : Reading} {session : Session} {b : Buffer} (second : r.phase = .second)
      (opened : s.dispatcher.connection.session = some session)
      (broken : session.active = false)
      (halting : r.slots.saysHalt s.dispatcher.controlGroup = true) :
      Halts s w (.call r) (.received w netErrorOnSession b)
  | unopened {r : Reading} {b : Buffer} (second : r.phase = .second)
      (unopened : s.dispatcher.connection.session = none)
      (halting : r.slots.saysHalt s.dispatcher.controlGroup = true) :
      Halts s w (.call r) (.received w illegalSession b)

theorem halts_of_step {s s' : World} {w : WorkerId} {sent : Bool} {o : Observation}
    (h : s.step (.job w sent) = some (s', o)) (left : s'.workers w = some (.done .halted)) :
    ∃ pc, s.workers w = some pc ∧ Halts s w pc o := by
  -- a failed call leaves the slots alone and answers with its code
  have failed : ∀ {d : Dispatcher} {privateGroup : Str} {r : Reading} {code : Int},
      d.controlGroup = s.dispatcher.controlGroup → code < 0 ∧ code ≠ bufferTooShort →
      (s.setDispatcher d).resume w privateGroup r (r.failed code) = (s', o) →
        r.phase = .second ∧ r.slots.saysHalt s.dispatcher.controlGroup = true ∧
          ∃ b, o = .received w code b := by
    intro d privateGroup r code hcontrol hcode hresume
    obtain ⟨ret, hphase, hverdict, rfl, hop, hgroup⟩ := resume_halted hresume left
    obtain rfl : code = ret := Option.some.inj ((verdict_failed _ hcode).symm.trans hverdict)
    have hgroup : r.slots.groupName = s.dispatcher.controlGroup := hgroup.trans hcontrol
    have hop : r.slots.messType = sigHaltMsg := hop
    exact ⟨hphase, by simp [Slots.saysHalt, hop, hgroup], _, rfl⟩
  simp only [step] at h
  split at h
  · cases h
  · rename_i pc at'
    refine ⟨pc, at', ?_⟩
    have hreading := reading_of_halted at' h left
    cases pc with
    | call r =>
        have h := Option.some.inj h
        rw [enterReceive] at h
        split at h
        · rename_i hsession
          obtain ⟨hphase, hhalting, b, rfl⟩ := failed (d := s.dispatcher) rfl (by decide) h
          exact .unopened hphase hsession hhalting
        · rename_i session hsession
          split at h
          · obtain ⟨rfl, -⟩ := Prod.mk.inj h
            simp at left
          · rename_i hbroken
            obtain ⟨hphase, hhalting, b, rfl⟩ := failed (d := s.dispatcher) rfl (by decide) h
            exact .broken hphase hsession (by simpa using hbroken) hhalting
    | inside mbox r =>
        simp only [jobStep, endReceive] at h
        split at h
        · rename_i hsession
          obtain ⟨hphase, hhalting, b, rfl⟩ :=
            failed (d := s.dispatcher) rfl (by decide) (Option.some.inj h)
          exact .gone hphase hsession hhalting
        · rename_i session hsession
          split at h
          · rename_i f rest hpending
            obtain ⟨ret, hphase, hverdict, rfl, hop, hgroup⟩ :=
              resume_halted (Option.some.inj h) left
            have hgroup : _ = s.dispatcher.controlGroup := hgroup
            exact .frame hphase hsession hpending
              (poses_iff.mpr (by simp [Slots.saysHalt, hop, hgroup])) hverdict
          · rename_i hpending
            split at h
            · rename_i hclosed
              obtain ⟨hphase, hhalting, b, rfl⟩ := failed
                (d := s.dispatcher.setSession mbox { session with active := false }) rfl
                (by decide) (Option.some.inj h)
              exact .ended hphase hsession hpending hclosed hhalting
            · cases h
    | _ => cases hreading

/-- Whoever takes the halt exit has met a halting header. -/
theorem meetsHalt_of_halted {s s' : World} {w : WorkerId} {sent : Bool} {o : Observation}
    (h : s.step (.job w sent) = some (s', o)) (left : s'.workers w = some (.done .halted)) :
    s.meetsHalt (.job w sent) = true := by
  obtain ⟨pc, at', halts⟩ := halts_of_step h left
  cases halts with
  | frame second opened pending poses decided =>
      simp [meetsHalt, at', second, opened, pending, poses, decided]
  | ended second opened pending closed halting =>
      simp [meetsHalt, at', second, opened, pending, closed, halting]
  | gone second gone halting => simp [meetsHalt, at', second, gone, halting]
  | broken second opened broken halting => simp [meetsHalt, at', second, opened, broken, halting]
  | unopened second unopened halting => simp [meetsHalt, at', second, unopened, halting]

/-- A buffer that says halt takes its worker to the halt exit, whatever the verdict. -/
theorem halted_of_resume {s s' : World} {w : WorkerId} {privateGroup : Str} {r : Reading}
    {x : Reception} {o : Observation} (h : s.resume w privateGroup r x = (s', o))
    (second : r.phase = .second)
    (decided : (verdict (s.dispatcher.listener privateGroup) x).isSome = true)
    (halting : x.slots.saysHalt s.dispatcher.controlGroup = true) :
    s'.workers w = some (.done .halted) := by
  obtain ⟨ret, hverdict⟩ := Option.isSome_iff_exists.mp decided
  obtain ⟨hop, hgroup⟩ := (Bool.and_eq_true _ _).mp halting
  simp only [resume, Reading.resume, second, hverdict] at h
  obtain ⟨rfl, -⟩ := Prod.mk.inj h
  rw [setWorker_workers, Function.update_self, Dispatcher.afterReceive,
    if_pos ⟨of_decide_eq_true hop, of_decide_eq_true hgroup⟩]

/-- A worker that meets a halting header takes the halt exit. -/
theorem halted_of_meetsHalt {s s' : World} {w : WorkerId} {sent : Bool} {o : Observation}
    (h : s.step (.job w sent) = some (s', o)) (meets : s.meetsHalt (.job w sent) = true) :
    s'.workers w = some (.done .halted) := by
  -- a failed call leaves the slots alone
  have failed : ∀ {d : Dispatcher} {privateGroup : Str} {r : Reading} {code : Int},
      d.controlGroup = s.dispatcher.controlGroup → code < 0 ∧ code ≠ bufferTooShort →
      r.phase = .second → r.slots.saysHalt s.dispatcher.controlGroup = true →
      (s.setDispatcher d).resume w privateGroup r (r.failed code) = (s', o) →
        s'.workers w = some (.done .halted) := by
    intro d privateGroup r code hcontrol hcode hsecond hhalting hresume
    refine halted_of_resume hresume hsecond (by rw [verdict_failed _ hcode]; rfl) ?_
    rw [setDispatcher_dispatcher, hcontrol]
    exact hhalting
  simp only [meetsHalt] at meets
  split at meets
  · rename_i r at'
    simp only [Bool.and_eq_true, decide_eq_true_eq] at meets
    obtain ⟨⟨hsecond, hhalting⟩, hbroken⟩ := meets
    simp only [step, at', jobStep, enterReceive, Option.some.injEq] at h
    cases hsession : s.dispatcher.connection.session with
    | none =>
        simp only [hsession] at h
        exact failed (d := s.dispatcher) rfl (by decide) hsecond hhalting h
    | some session =>
        have hbroken : session.active = false := by simpa [hsession] using hbroken
        simp only [hsession, hbroken, Bool.false_eq_true, if_false] at h
        exact failed (d := s.dispatcher) rfl (by decide) hsecond hhalting h
  · rename_i mbox r at'
    simp only [Bool.and_eq_true, decide_eq_true_eq] at meets
    obtain ⟨hsecond, meets⟩ := meets
    simp only [step, at', jobStep, endReceive] at h
    cases hsession : s.dispatcher.connection.spread.sessions mbox with
    | none =>
        simp only [hsession] at h meets
        exact failed (d := s.dispatcher) rfl (by decide) hsecond meets (Option.some.inj h)
    | some session =>
        cases hpending : session.pending with
        | nil =>
            simp only [hsession, hpending, Bool.and_eq_true] at h meets
            rw [if_pos meets.1] at h
            exact failed
              (d := s.dispatcher.setSession mbox { session with active := false, pending := [] })
              rfl (by decide) hsecond meets.2 (Option.some.inj h)
        | cons f rest =>
            simp only [hsession, hpending, Bool.and_eq_true] at h meets
            exact halted_of_resume (Option.some.inj h) hsecond meets.2 (poses_iff.mp meets.1)
  · cases meets

/-- `start` finds no worker running; a worker of a started dispatcher meets a halting header
only while a `stop` waits; and its own `stop` gets its halt message made. -/
structure Orderly (s : World) (e : Event) : Prop where
  start : ∀ t, e = .start t → s.dispatcher.connStatus = .online →
    s.dispatcher.activity = .stopped → ∀ w, ¬ s.Running w
  halt : s.meetsHalt e = true → s.dispatcher.activity = .started → s.holder ≠ none
  lost : ∀ w sent, e = .job w sent → s.workers w = some .stopping →
    s.dispatcher.activity = .started → s.dispatcher.makesHalt = true

theorem jobMove_tidy {s s' : World} {w : WorkerId} {sent : Bool} {pc : WorkerPc}
    {o : Observation} (hs : s.Tidy) (orderly : s.Orderly (.job w sent))
    (at' : s.workers w = some pc) (h : s.step (.job w sent) = some (s', o))
    (move : JobMove s w pc s' o) : s'.Tidy := by
  have same : ∀ {d : Dispatcher}, SameStatus s.dispatcher d →
      s.dispatcher.activity = .started → d.connStatus = s.dispatcher.connStatus :=
    fun h _ => h.connStatus
  cases move with
  | check free =>
      refine hs.moveWorker (d := s.dispatcher) at' (by simp) (.inl free) rfl rfl (same (.refl _))
        (by split <;> simp) fun _ hstarted why => ?_
      rw [if_pos (by simp [Dispatcher.isOnline, hs.online hstarted])]
      simp
  | @read _ pc' d _ reading traffic lands =>
      have hpc : pc ≠ .stopping ∧ ∀ why, pc ≠ .done why := by
        cases pc <;> simp [WorkerPc.isReading] at reading <;> simp
      refine hs.moveWorker at' hpc.2 (.inr hpc.1) traffic.activity traffic.thread
        (same traffic.sameStatus) lands.ends.1 fun hnone hstarted why hdone => ?_
      obtain rfl := lands.ends.2 why hdone
      subst hdone
      exact orderly.halt (meetsHalt_of_halted h (by simp)) hstarted hnone
  | @route b free =>
      have hstays := routeTo_stays s.dispatcher b
      exact hs.moveWorker (d := s.dispatcher) at' (by simp) (.inl free) rfl rfl (same (.refl _))
        hstays.1 fun _ _ => hstays.2
  | push =>
      exact hs.moveWorker at' (by simp) (.inr (by simp)) rfl rfl (fun _ => rfl) (by simp)
        fun _ _ => by simp
  | @stopFails e sent' free fails =>
      refine hs.moveWorker (d := s.dispatcher) at' (by simp) (.inl free) rfl rfl (same (.refl _))
        (by simp) fun _ hstarted => ?_
      -- a started dispatcher is online, so only its message could have failed
      have hok := Dispatcher.requestStop_ok (hs.online hstarted) hstarted
        (orderly.lost w sent rfl at' hstarted) sent'
      rw [fails] at hok
      cases hok
  | @stopSends b sent' free online started =>
      have traffic := sendMessageToGroup_traffic s.dispatcher b sent'
      refine ⟨fun hstopped => ?_, fun _ => traffic.connStatus.trans online, hs.created, hs.single,
        fun _ => traffic.activity.trans started, ?_, ?_, fun hnone => nomatch hnone⟩
      · rw [traffic.activity, started] at hstopped
        cases hstopped
      · intro w' hholder
        cases hholder
        exact at'
      · intro w' hleaving
        exact traffic.activity.trans (hs.leaving w' hleaving)
  | @disconnects sent' _ free =>
      have hstopped := hs.leaving w at'
      have hcontra : ∀ {P : Prop}, s.dispatcher.activity = .started → P := by
        intro P hstarted
        rw [hstopped] at hstarted
        cases hstarted
      obtain hsame | ⟨-, -, hactivity, hthread⟩ := s.dispatcher.disconnect_status sent'
      · exact hs.moveWorker at' (by simp) (.inl free) hsame.activity hsame.thread
          (same hsame) (by simp) fun _ h => hcontra h
      · exact hs.moveWorker at' (by simp) (.inl free) (hactivity.trans hstopped.symm) hthread
          (fun h => hcontra h) (by simp) fun _ h => hcontra h

/-- A step that leaves the workers and the mutex alone. -/
theorem Tidy.quiet {s : World} (hs : s.Tidy) {d : Dispatcher} {users : ThreadId → UserPc}
    (hactivity : d.activity = s.dispatcher.activity) (hthread : d.thread = s.dispatcher.thread)
    (honline : s.dispatcher.activity = .started → d.connStatus = s.dispatcher.connStatus) :
    ({ s with dispatcher := d, users := users } : World).Tidy := by
  refine ⟨fun h => hthread.trans (hs.stopped (hactivity.symm.trans h)), fun h => ?_, hs.created,
    hs.single, fun h => hactivity.trans (hs.held h), hs.waiting,
    fun w h => hactivity.trans (hs.leaving w h), fun hnone h => ?_⟩
  · have hstarted : s.dispatcher.activity = .started := hactivity.symm.trans h
    exact (honline hstarted).trans (hs.online hstarted)
  · obtain ⟨w, hw, hrun⟩ := hs.working hnone (hactivity.symm.trans h)
    exact ⟨w, hthread.trans hw, hrun⟩

/-- A start creates the only worker. -/
theorem Tidy.start {s : World} (hs : s.Tidy) (free : s.holder = none)
    (online : s.dispatcher.connStatus = .online) (hnobody : ∀ w, ¬ s.Running w) :
    ({ s with
      dispatcher := { s.dispatcher with thread := some s.nextWorker, activity := .started }
      workers := Function.update s.workers s.nextWorker (some .loop)
      nextWorker := s.nextWorker + 1 } : World).Tidy := by
  have honly : ∀ w, ({ s with
      dispatcher := { s.dispatcher with thread := some s.nextWorker, activity := .started }
      workers := Function.update s.workers s.nextWorker (some .loop)
      nextWorker := s.nextWorker + 1 } : World).Running w → w = s.nextWorker := by
    intro w hrun
    have hrun : (s.setWorker s.nextWorker .loop).Running w := hrun
    rw [running_setWorker] at hrun
    split at hrun
    · assumption
    · exact absurd hrun (hnobody w)
  refine ⟨(fun h => nomatch h), fun _ => online, ?_, ?_, fun h => absurd free h, ?_, ?_,
    fun _ _ => ⟨s.nextWorker, rfl, .loop, by simp, by simp⟩⟩
  · intro w pc hw
    exact hs.created_update (Nat.le_succ _) (Nat.lt_succ_self _) hw
  · intro w w' hw hw'
    exact (honly w hw).trans (honly w' hw').symm
  · intro w hholder
    have hholder : s.holder = some (.worker w) := hholder
    rw [free] at hholder
    cases hholder
  · intro w hw
    have hrun := honly w ⟨_, hw, by simp⟩
    subst hrun
    simp at hw

theorem step_tidy {s s' : World} {e : Event} {o : Observation} (hs : s.Tidy)
    (orderly : s.Orderly e) (h : s.step e = some (s', o)) : s'.Tidy := by
  cases step_move h with
  | @perform t op sent =>
      obtain ⟨hactivity, hthread, honline⟩ := s.dispatcher.perform_status sent op
      exact hs.quiet hactivity hthread honline
  | startFails => exact hs
  | @starts t free online stopped =>
      exact hs.start free online (orderly.start t rfl online stopped)
  | stopFails => exact hs
  | @stopSends t b sent free online started =>
      have traffic := sendMessageToGroup_traffic s.dispatcher b sent
      refine ⟨fun hstopped => ?_, fun _ => traffic.connStatus.trans online, hs.created, hs.single,
        fun _ => traffic.activity.trans started, (fun _ hholder => nomatch hholder),
        fun w' hleaving => traffic.activity.trans (hs.leaving w' hleaving),
        fun hnone => nomatch hnone⟩
      rw [traffic.activity, started] at hstopped
      cases hstopped
  | join held => exact hs.release held rfl rfl
  | timeOut held => exact hs.release held rfl rfl
  | receiveFails => exact hs
  | receives => exact hs.quiet rfl rfl fun _ => rfl
  | pop => exact hs.quiet rfl rfl fun _ => rfl
  | job at' move => exact jobMove_tidy hs orderly at' h move
  | traffic _ traffic => exact hs.quiet traffic.activity traffic.thread fun _ => traffic.connStatus

theorem initial_tidy (d : Dispatcher) (hstopped : d.activity = .stopped)
    (hthread : d.thread = none) :
    (initial d).Tidy := by
  refine ⟨fun _ => hthread, fun h => ?_, (fun _ _ h => nomatch h), ?_, fun h => absurd rfl h,
    (fun _ h => nomatch h), (fun _ h => nomatch h), fun _ h => ?_⟩
  · have h : d.activity = .started := h
    rw [hstopped] at h
    cases h
  · rintro w w' ⟨pc, h, -⟩
    cases h
  · have h : d.activity = .started := h
    rw [hstopped] at h
    cases h

theorem reachable_tidy {clientName : Str} {s : World}
    (h : (machine clientName).Reachable Orderly s) : s.Tidy := by
  refine h.invariant ?_ fun _ _ _ _ hs orderly move => step_tidy hs orderly move
  rintro _ ⟨address, dropEcho, dropMembership, mbox, rfl⟩
  exact initial_tidy _ rfl rfl

/-- **One worker.** In an orderly run at most one thread executes `job()`, and while
the mutex is free and the dispatcher started, exactly one does. -/
theorem one_worker (clientName : Str) {s : World}
    (h : (machine clientName).Reachable Orderly s) :
    (∀ w w', s.Running w → s.Running w' → w = w') ∧
      (s.holder = none → s.dispatcher.activity = .started → ∃! w, s.Running w) := by
  have htidy := reachable_tidy h
  refine ⟨htidy.single, fun hnone hstarted => ?_⟩
  obtain ⟨w, -, hrun⟩ := htidy.working hnone hstarted
  exact ⟨w, hrun, fun w' hrun' => htidy.single w' w hrun' hrun⟩

theorem one_worker_after_start : ∃ s : World, s.dispatcher.activity = .started ∧
    ∃! w, s.Running w := by
  have hstart : (machine demoClient).step demoOnline (.start 0) = some (_, .returned true) := rfl
  refine ⟨_, ?_, (one_worker demoClient ⟨demo, _, demo_init,
    .cons ⟨?_, ?_, ?_⟩ demo_connects (.single ⟨?_, ?_, ?_⟩ hstart)⟩).2 rfl rfl⟩
  · rfl
  · intro t h
    cases h
  · intro h
    cases h
  · intro w sent h
    cases h
  · rintro t - - - w ⟨pc, hpc, -⟩
    cases hpc
  · intro h
    cases h
  · intro w sent h
    cases h

/-- A `stop` that gives up, and a `start` after it. -/
theorem two_workers : ¬ ∀ s : World, (machine demoClient).Reachable (fun _ _ => True) s →
    (∀ w w', s.Running w → s.Running w' → w = w') ∧
      (s.holder = none → s.dispatcher.activity = .started → ∃! w, s.Running w) := by
  intro hall
  obtain ⟨s, hreach, hfirst, hsecond⟩ := Machine.Reachable.exists_of_exec (fun _ _ => True)
    demo_init [connects, .start 0, .stop 0 true, .timeOut, .start 0]
    (fun s => s.workers 0 = some .loop ∧ s.workers 1 = some .loop) (by decide)
  have hsame := (hall s hreach).1 0 1 ⟨.loop, hfirst, by simp⟩ ⟨.loop, hsecond, by simp⟩
  cases hsame

end World

end Netbroker
