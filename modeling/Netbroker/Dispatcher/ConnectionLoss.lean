import Netbroker.Dispatcher.Activity

/-!
# The connection-lost branch

A worker whose connection is lost calls `stop` and `disconnect` itself and swallows
what they throw. It leaves the dispatcher offline and stopped exactly when neither
throws on it, except that an offline dispatcher needs nothing done. What the branch
finds depends on the registry and on whose `stop` came first.
-/

namespace Netbroker

open Spread Transition

namespace World

/-- Neither call of the connection-lost branch throws with something left to do. -/
def shutsDown (s : World) : Event → Bool
  | .job w _ =>
      let d := s.dispatcher
      match s.workers w with
      | some .stopping => d.connStatus = .offline || d.activity = .started && d.makesHalt
      | some .disconnecting =>
          d.connStatus = .offline || d.activity = .stopped && d.releasesControl
      | _ => true
  | _ => true

/-- A started dispatcher is online, also while some `stop` waits. -/
structure StartedOnline (s : World) : Prop where
  online : s.dispatcher.activity = .started → s.dispatcher.connStatus = .online
  held : s.holder ≠ none → s.dispatcher.activity = .started

/-- Disconnected and stopped. -/
def Down (s : World) : Prop :=
  s.dispatcher.connStatus = .offline ∧ s.dispatcher.activity = .stopped

theorem StartedOnline.down {s : World} (h : s.StartedOnline)
    (hoffline : s.dispatcher.connStatus = .offline) : s.Down := by
  refine ⟨hoffline, ?_⟩
  obtain hstarted | hstopped := s.dispatcher.activity.started_or_stopped
  · rw [h.online hstarted] at hoffline
    cases hoffline
  · exact hstopped

theorem StartedOnline.congr {s s' : World} (h : s.StartedOnline)
    (hactivity : s'.dispatcher.activity = s.dispatcher.activity)
    (honline : s.dispatcher.activity = .started →
      s'.dispatcher.connStatus = s.dispatcher.connStatus)
    (hholder : s'.holder = s.holder) : s'.StartedOnline := by
  refine ⟨fun hstarted => ?_, fun hheld => hactivity.trans (h.held (hholder ▸ hheld))⟩
  have hstarted' := hactivity.symm.trans hstarted
  exact (honline hstarted').trans (h.online hstarted')

theorem release_startedOnline (s : World) (h : Holder) {d : Dispatcher}
    (hstopped : d.activity = .stopped) : (s.release h d).StartedOnline := by
  have hdispatcher : (s.release h d).dispatcher = d := by cases h <;> rfl
  refine ⟨fun hstarted => ?_, fun hheld => absurd (release_holder s h d) hheld⟩
  rw [hdispatcher, hstopped] at hstarted
  cases hstarted

/-- `disconnect` never leaves a started dispatcher offline. -/
theorem disconnect_online (d : Dispatcher) (sent : Bool) (hstarted : d.activity = .started) :
    SameStatus d (d.disconnect sent).2 := by
  obtain h | ⟨hstopped, -⟩ := d.disconnect_status sent
  · exact h
  · rw [hstarted] at hstopped
    cases hstopped

theorem step_startedOnline {s s' : World} {e : Event} {o : Observation} (hs : s.StartedOnline)
    (h : s.step e = some (s', o)) : s'.StartedOnline := by
  cases step_move h with
  | @perform t op sent =>
      obtain ⟨hactivity, -, honline⟩ := s.dispatcher.perform_status sent op
      exact hs.congr hactivity honline rfl
  | startFails => exact hs
  | starts _ online => exact ⟨fun _ => online, fun _ => rfl⟩
  | stopFails => exact hs
  | @stopSends t b sent _ online started =>
      have traffic := sendMessageToGroup_traffic s.dispatcher b sent
      exact ⟨fun _ => traffic.connStatus.trans online, fun _ => traffic.activity.trans started⟩
  | join => exact release_startedOnline s _ rfl
  | timeOut => exact release_startedOnline s _ rfl
  | receiveFails => exact hs
  | receives => exact hs.congr rfl (fun _ => rfl) rfl
  | pop => exact hs.congr rfl (fun _ => rfl) rfl
  | traffic _ traffic => exact hs.congr traffic.activity (fun _ => traffic.connStatus) rfl
  | job _ move =>
      cases move with
      | check => exact hs.congr rfl (fun _ => rfl) rfl
      | read _ traffic => exact hs.congr traffic.activity (fun _ => traffic.connStatus) rfl
      | route => exact hs.congr rfl (fun _ => rfl) rfl
      | push => exact hs.congr rfl (fun _ => rfl) rfl
      | stopFails => exact hs.congr rfl (fun _ => rfl) rfl
      | @stopSends b sent _ online started =>
          have traffic := sendMessageToGroup_traffic s.dispatcher b sent
          exact ⟨fun _ => traffic.connStatus.trans online,
            fun _ => traffic.activity.trans started⟩
      | @disconnects sent _ free =>
          have hactivity : (s.dispatcher.disconnect sent).2.activity = s.dispatcher.activity := by
            obtain h | ⟨hstopped, -, h, -⟩ := s.dispatcher.disconnect_status sent
            · exact h.activity
            · exact h.trans hstopped.symm
          exact hs.congr hactivity
            (fun hstarted => (disconnect_online _ _ hstarted).connStatus) rfl

theorem reachable_startedOnline {clientName : Str} {legal : World → Event → Prop} {s : World}
    (h : (machine clientName).Reachable legal s) : s.StartedOnline := by
  refine h.invariant ?_ fun _ _ _ _ hs _ move => step_startedOnline hs move
  rintro _ ⟨address, dropEcho, dropMembership, mbox, rfl⟩
  refine ⟨fun hstarted => ?_, fun hheld => absurd rfl hheld⟩
  cases hstarted

/-- `disconnect` of a stopped dispatcher succeeds where it can release the control group. -/
theorem disconnect_down {d : Dispatcher} (hoffline : d.connStatus = .offline ∨
    d.activity = .stopped ∧ d.releasesControl = true) (sent : Bool) :
    (d.disconnect sent).2.connStatus = .offline := by
  obtain honline | hstatus := d.connStatus.online_or_offline
  · obtain ⟨hstopped, hreleases⟩ := hoffline.resolve_left (by simp [honline])
    have hok := (Dispatcher.disconnect_ok_iff honline hstopped sent).mpr hreleases
    obtain ⟨e, h⟩ | ⟨h, -⟩ | ⟨-, -, d', -, h⟩ := d.disconnect_cases sent
    · rw [h] at hok
      cases hok
    · rw [honline] at h
      cases h
    · rw [h]
  · obtain h | ⟨-, h, -⟩ := d.disconnect_status sent
    · exact h.connStatus.trans hstatus
    · exact h

/-- The step that leaves `job()` through the branch leaves the dispatcher down. -/
theorem lost_step_down {s s' : World} {w : WorkerId} {sent : Bool} {o : Observation}
    (hs : s.StartedOnline) (hshuts : s.shutsDown (.job w sent) = true)
    (h : s.step (.job w sent) = some (s', o)) (hleft : s'.workers w = some (.done .lost)) :
    s'.Down := by
  have hnext := step_startedOnline hs h
  apply hnext.down
  cases step_move h with
  | traffic network => obtain ⟨mbox, ⟨f, hevent⟩ | hevent | hevent⟩ := network <;> cases hevent
  | job at' move =>
      obtain ⟨hexit, -⟩ | ⟨hexit, -⟩ | ⟨-, rfl | rfl⟩ := move.exit at' hleft
      · cases hexit
      · cases hexit
      · simp only [shutsDown, at', Bool.or_eq_true, decide_eq_true_eq, Bool.and_eq_true] at hshuts
        cases move with
        | read reading => cases reading
        | @stopFails e sent' _ fails =>
            rcases hshuts with hoffline | ⟨hstarted, hmakes⟩
            · exact hoffline
            · have hok := Dispatcher.requestStop_ok (hs.online hstarted) hstarted hmakes sent'
              rw [fails] at hok
              cases hok
        | stopSends =>
            have hleft : s.workers w = some (.done .lost) := hleft
            rw [at'] at hleft
            cases hleft
      · simp only [shutsDown, at', Bool.or_eq_true, decide_eq_true_eq, Bool.and_eq_true] at hshuts
        cases move with
        | read reading => cases reading
        | disconnects => exact disconnect_down hshuts _

/-- Only `connect` takes a dispatcher that is down online again. -/
theorem step_down {s s' : World} {e : Event} {o : Observation} (hs : s.StartedOnline)
    (hdown : s.Down) (h : s.step e = some (s', o))
    (hconnect : ∀ t answer sent, e ≠ .perform t (.connect answer) sent) : s'.Down := by
  apply (step_startedOnline hs h).down
  have hfree : s.holder = none := by
    by_contra hheld
    have hstarted := hs.held hheld
    rw [hdown.2] at hstarted
    cases hstarted
  have honline : s.dispatcher.connStatus ≠ .online := by simp [hdown.1]
  have hdisconnect : ∀ sent, (s.dispatcher.disconnect sent).2.connStatus = .offline :=
    disconnect_down (.inl hdown.1)
  cases step_move h with
  | @perform t op sent =>
      cases op with
      | registerGroup => exact (s.dispatcher.registerGroup_sameStatus ..).connStatus.trans hdown.1
      | unregisterGroup =>
          exact (s.dispatcher.unregisterGroup_sameStatus ..).connStatus.trans hdown.1
      | sendMessageToGroup b => exact (sendMessageToGroup_traffic ..).connStatus.trans hdown.1
      | connect answer => exact absurd rfl (hconnect t answer sent)
      | disconnect => exact hdisconnect sent
  | startFails => exact hdown.1
  | starts _ online => exact absurd online honline
  | stopFails => exact hdown.1
  | stopSends _ online => exact absurd online honline
  | join held => rw [hfree] at held; cases held
  | timeOut held => rw [hfree] at held; cases held
  | receiveFails => exact hdown.1
  | receives => exact hdown.1
  | pop => exact hdown.1
  | traffic _ traffic => exact traffic.connStatus.trans hdown.1
  | job _ move =>
      cases move with
      | read _ traffic => exact traffic.connStatus.trans hdown.1
      | stopSends _ online => exact absurd online honline
      | disconnects => exact hdisconnect _
      | _ => exact hdown.1

/-- **Connection loss.** In a run whose connection-lost branches never throw with
something left to do, the dispatcher is offline and stopped from the moment a worker
leaves `job()` through that branch until somebody connects again. -/
theorem loss_reflected (clientName : Str) {s₀ s₁ s₂ s : World} {w : WorkerId} {sent : Bool}
    {o : Observation} {past after : List (Event × Observation)}
    (init : (machine clientName).init s₀)
    (before : (machine clientName).Run (fun s e => s.shutsDown e = true) s₀ past s₁)
    (leaves : (machine clientName).Run (fun s e => s.shutsDown e = true) s₁ [(.job w sent, o)] s₂)
    (lost : s₂.workers w = some (.done .lost))
    (since : (machine clientName).Run (fun s e => s.shutsDown e = true) s₂ after s)
    (unconnected : ∀ x ∈ after, ∀ t answer sent, x.1 ≠ .perform t (.connect answer) sent) :
    s.dispatcher.connStatus = .offline ∧ s.dispatcher.activity = .stopped := by
  have hs₁ : s₁.StartedOnline := reachable_startedOnline ⟨s₀, past, init, before⟩
  obtain ⟨t, hshuts, hstep, hnil⟩ := leaves.cons_inv
  obtain rfl := hnil.nil_inv
  have hstep : s₁.step (.job w sent) = some (s₂, o) := hstep
  have hs₂ := step_startedOnline hs₁ hstep
  have hdown := lost_step_down hs₁ hshuts hstep lost
  have hend := since.history (I := fun trace t => (∀ x ∈ trace, x ∈ after) →
      t.StartedOnline ∧ t.Down) (fun _ => ⟨hs₂, hdown⟩)
    (fun trace a e b o hI _ hmove hmem => by
      have hmove : a.step e = some (b, o) := hmove
      obtain ⟨ha, hadown⟩ := hI fun x hx => hmem x (by simp [hx])
      refine ⟨step_startedOnline ha hmove, step_down ha hadown hmove ?_⟩
      exact unconnected (e, o) (hmem (e, o) (by simp)))
  exact (hend fun x hx => hx).2

/-- The daemon hangs up on the started worker, whose own `stop` times out. -/
theorem loss_reflected_after_hang_up : ∃ s₂ : World,
    s₂.workers 0 = some (.done .lost) ∧ s₂.dispatcher.connStatus = .offline ∧
      s₂.dispatcher.activity = .stopped := by
  obtain ⟨past, s₁, before, hshuts, hlost⟩ := Machine.Run.exists_of_exec (machine demoClient)
    (fun s e => s.shutsDown e = true) demo
    [connects, .start 0, .job 0 true, .job 0 true, .hangUp 0, .job 0 true, .job 0 true,
      .job 0 true, .timeOut]
    (fun _ s => s.shutsDown (.job 0 true) = true ∧
      ((s.step (.job 0 true)).any fun r => r.1.workers 0 = some (.done .lost)) = true)
    (by decide)
  obtain ⟨⟨s₂, o⟩, hstep, hdone⟩ := (Option.any_eq_true _ _).mp hlost
  have hdone : s₂.workers 0 = some (.done .lost) := of_decide_eq_true hdone
  exact ⟨s₂, hdone, loss_reflected demoClient demo_init before (.single hshuts hstep) hdone .nil
    (fun _ h => nomatch h)⟩

/-- A user's `stop` times out first, the worker's own then finds the dispatcher
stopped, and `disconnect` is skipped. -/
theorem loss_unnoticed : ¬ ∀ (s₁ s₂ : World) (w : WorkerId) (sent : Bool) (o : Observation),
    (machine demoClient).Reachable (fun _ _ => True) s₁ →
    s₁.step (.job w sent) = some (s₂, o) → s₂.workers w = some (.done .lost) →
    s₂.dispatcher.connStatus = .offline ∧ s₂.dispatcher.activity = .stopped := by
  intro hall
  obtain ⟨s₁, hreach, hlost⟩ := Machine.Reachable.exists_of_exec (fun _ _ => True)
    demo_init [connects, .start 0, .job 0 true, .job 0 true, .hangUp 0, .stop 1 true,
      .job 0 true, .job 0 true, .timeOut]
    (fun s => ((s.step (.job 0 true)).any fun r =>
      r.1.workers 0 = some (.done .lost) && r.1.dispatcher.connStatus = .online) = true)
    (by decide)
  obtain ⟨⟨s₂, o⟩, hstep, hdone⟩ := (Option.any_eq_true _ _).mp hlost
  obtain ⟨hdone, honline⟩ := (Bool.and_eq_true _ _).mp hdone
  have hdown := hall s₁ s₂ 0 true o hreach hstep (of_decide_eq_true hdone)
  rw [of_decide_eq_true honline] at hdown
  cases hdown.1

end World

end Netbroker
