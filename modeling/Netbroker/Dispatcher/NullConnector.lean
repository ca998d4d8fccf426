import Netbroker.Dispatcher.Fleet

/-!
# Null connectors

A dispatcher that has been torn down is offline and stopped, and stays so: `stop`, `disconnect`,
`registerGroup` and `unregisterGroup` find that out ahead of the connector. What does not look
first is `connect`, `sendMessageToGroup`, a copy or an assignment taken from the dispatcher,
itself included, and a worker that has outlived its `stop`.

A world that is torn down stays `Dormant`, and in it an operation uses the connector exactly
if it is one of the blind ones. `SoundAt` ties the heap, the world and the phase of one
dispatcher together, and a step changes one dispatcher at a time.

Assignments and destructions, namings, constructions and copies, and the dispatcher's own
steps are judged in turn: each uses no null connector exactly if it spares the dispatchers
that are torn down, and it then leaves a process that is sound.
-/

namespace Netbroker

open Spread Transition

namespace World

/-- Offline and stopped. -/
def Dormant (s : World) : Prop :=
  s.dispatcher.connStatus = .offline ∧ s.dispatcher.activity = .stopped

variable {s s' : World} {e : Event} {o : Observation} {d : Dispatcher}

theorem Dormant.of_sameStatus (hs : s.Dormant) (h : SameStatus s.dispatcher d) :
    d.connStatus = .offline ∧ d.activity = .stopped :=
  ⟨h.connStatus.trans hs.1, h.activity.trans hs.2⟩

theorem Dormant.stopUses (hs : s.Dormant) : s.dispatcher.stopUses = false := by
  simp [Dispatcher.stopUses, hs.1]

theorem Dormant.disconnectUses (hs : s.Dormant) : s.dispatcher.disconnectUses = false := by
  simp [Dispatcher.disconnectUses, hs.1]

/-- The operations that do not look ahead of the connector. -/
def Blind : Operation → Prop
  | .sendMessageToGroup _ | .connect _ => True
  | _ => False

theorem Dormant.uses_iff (hs : s.Dormant) (op : Operation) :
    s.dispatcher.uses op = true ↔ Blind op := by
  cases op with
  | registerGroup => simp [Dispatcher.uses, Blind, hs.1]
  | unregisterGroup => simp [Dispatcher.uses, Blind, hs.1]
  | sendMessageToGroup => simp [Dispatcher.uses, Blind]
  | connect => simp [Dispatcher.uses, Blind, hs.1, hs.2]
  | disconnect => simp [Dispatcher.uses, Blind, hs.disconnectUses]

/-- An operation that looks first leaves the dispatcher offline and stopped. -/
theorem Dormant.perform (hs : s.Dormant) {op : Operation} (hop : ¬ Blind op) (sent : Bool) :
    (World.perform s.dispatcher sent op).2.connStatus = .offline ∧
      (World.perform s.dispatcher sent op).2.activity = .stopped := by
  cases op with
  | registerGroup => exact hs.of_sameStatus (s.dispatcher.registerGroup_sameStatus ..)
  | unregisterGroup => exact hs.of_sameStatus (s.dispatcher.unregisterGroup_sameStatus ..)
  | sendMessageToGroup => exact absurd trivial hop
  | connect => exact absurd trivial hop
  | disconnect =>
      obtain hsame | ⟨-, hoffline, hstopped, -⟩ := s.dispatcher.disconnect_status sent
      · exact hs.of_sameStatus hsame
      · exact ⟨hoffline, hstopped⟩

/-- A worker of such a dispatcher does not wait in `stop`. -/
theorem Dormant.job {w : WorkerId} {pc : WorkerPc} (hs : s.Dormant) (move : JobMove s w pc s' o) :
    s'.Dormant ∧ s'.holder = s.holder := by
  cases move with
  | check => exact ⟨hs, rfl⟩
  | read _ traffic _ => exact ⟨hs.of_sameStatus traffic.sameStatus, rfl⟩
  | route => exact ⟨hs, rfl⟩
  | push => exact ⟨hs, rfl⟩
  | stopFails => exact ⟨hs, rfl⟩
  | stopSends _ online =>
      rw [hs.1] at online
      cases online
  | disconnects =>
      refine ⟨?_, rfl⟩
      obtain hsame | ⟨-, hoffline, hstopped, -⟩ := s.dispatcher.disconnect_status _
      · exact hs.of_sameStatus hsame
      · exact ⟨hoffline, hstopped⟩

/-- Without a `connect` it stays offline and stopped, and nobody comes to wait. -/
theorem Dormant.step (hs : s.Dormant) (hstep : s.step e = some (s', o))
    (hop : ∀ t op sent, e = .perform t op sent → ¬ Blind op) (hend : e.endsStop = false) :
    s'.Dormant ∧ s'.holder = s.holder := by
  cases step_move hstep with
  | perform => exact ⟨hs.perform (hop _ _ _ rfl) _, rfl⟩
  | startFails => exact ⟨hs, rfl⟩
  | starts _ online =>
      rw [hs.1] at online
      cases online
  | stopFails => exact ⟨hs, rfl⟩
  | stopSends _ online =>
      rw [hs.1] at online
      cases online
  | join => cases hend
  | timeOut => cases hend
  | receiveFails => exact ⟨hs, rfl⟩
  | receives => exact ⟨hs, rfl⟩
  | pop => exact ⟨hs, rfl⟩
  | job _ move => exact hs.job move
  | traffic _ traffic => exact ⟨hs.of_sameStatus traffic.sameStatus, rfl⟩

/-- Nobody's wait can end where nobody waits. -/
theorem step_endsStop (hfree : s.holder = none) (hend : e.endsStop = true) : s.step e = none := by
  cases e with
  | join => simp only [World.step, hfree]
  | timeOut => simp only [World.step, hfree]
  | perform | start | stop | receive | pop | job | deliver | order | hangUp => cases hend

end World

namespace Fleet

variable {f f' : Fleet} {id : ObjectId} {e : FleetEvent} {o : FleetObservation} {stack : Nat}

/-- A dispatcher has a connector unless it is torn down, and then it is dormant. -/
structure SoundAt (i : Option Instance) (s : World) (phase : Option Teardown) (torn : Bool) :
    Prop where
  connector : ∀ j, i = some j → (j.connector = none ↔ torn = true)
  dormant : torn = true → s.Dormant
  free : torn = true → phase = none → s.holder = none
  naming : ∀ t ref, phase = some (.naming t ref) → torn = true
  stopping : ∀ t purpose sent, phase = some (.stopping t purpose sent) → torn = false

def Sound (f : Fleet) : Prop :=
  ∀ id, SoundAt (f.heap.objects id) (f.worlds id) (f.phase id) (f.torn id)

section At

variable {i i' : Option Instance} {s s' : World} {phase : Option Teardown} {torn : Bool}

/-- Counting leaves a dispatcher its connector. -/
theorem SoundAt.congr (h : SoundAt i s phase torn)
    (hi : i'.map Heap.identity = i.map Heap.identity) : SoundAt i' s phase torn := by
  refine { h with connector := fun j' hj' => ?_ }
  rw [hj', Option.map_some] at hi
  obtain ⟨j, hj, hsame⟩ := Option.map_eq_some_iff.mp hi.symm
  have hconnector : j.connector = j'.connector := (Prod.mk.inj hsame).1
  rw [← hconnector]
  exact h.connector j hj

/-- A dispatcher that has just been made, or is gone. -/
theorem SoundAt.intact (hi : ∀ j, i = some j → j.connector ≠ none) (hphase : ∀ t ref,
    phase ≠ some (.naming t ref)) : SoundAt i s phase false where
  connector j hj := iff_of_false (hi j hj) Bool.false_ne_true
  dormant h := absurd h Bool.false_ne_true
  free h := absurd h Bool.false_ne_true
  naming t ref h := absurd h (hphase t ref)
  stopping _ _ _ _ := rfl

theorem SoundAt.gone : SoundAt none s none false := by
  apply SoundAt.intact
  · intro j hj
    cases hj
  · intro t ref h
    cases h

/-- With a connector, the world and the phase are free to change. -/
theorem SoundAt.keep {phase' : Option Teardown} (h : SoundAt i s phase false)
    (hphase : ∀ t ref, phase' ≠ some (.naming t ref)) : SoundAt i s' phase' false := by
  apply SoundAt.intact _ hphase
  intro j hj hnone
  exact Bool.false_ne_true ((h.connector j hj).mp hnone)

/-- A dispatcher in the midst of an assignment. -/
theorem SoundAt.between {j : Instance} (hj : j.connector = none) (hdormant : s.Dormant)
    (t : ThreadId) (ref : ObjectId) : SoundAt (some j) s (some (.naming t ref)) true where
  connector j' hj' := by
    obtain rfl := Option.some.inj hj'
    exact iff_of_true hj rfl
  dormant _ := hdormant
  free _ h := nomatch h
  naming _ _ _ := rfl
  stopping _ _ _ h := nomatch h

end At

theorem hasConnector_iff (hs : Sound f) (hlive : (f.heap.objects id).isSome) :
    f.hasConnector id = true ↔ f.torn id = false := by
  obtain ⟨j, hj⟩ := Option.isSome_iff_exists.mp hlive
  have hconnector := (hs id).connector j hj
  rw [hasConnector, hj, Option.any_some, Option.isSome_iff_ne_none, ne_eq, hconnector,
    Bool.not_eq_true]

/-- A dispatcher that is not torn down does not come to use a null connector. -/
theorem not_null_of_not_torn (hs : Sound f) (hlive : (f.heap.objects id).isSome)
    (htorn : f.torn id = false) (b : Bool) : ¬ (b && !f.hasConnector id) = true := by
  rw [(hasConnector_iff hs hlive).mpr htorn, Bool.not_true, Bool.and_false]
  exact Bool.false_ne_true

/-- A step about one dispatcher. -/
theorem Sound.update (hs : Sound f) (id : ObjectId)
    (hat : SoundAt (f'.heap.objects id) (f'.worlds id) (f'.phase id) (f'.torn id))
    (hothers : ∀ d, d ≠ id →
      (f'.heap.objects d).map Heap.identity = (f.heap.objects d).map Heap.identity ∧
        f'.worlds d = f.worlds d ∧ f'.phase d = f.phase d ∧ f'.torn d = f.torn d) : Sound f' := by
  intro d
  by_cases hd : d = id
  · exact hd ▸ hat
  · obtain ⟨hidentity, hworld, hphase, htorn⟩ := hothers d hd
    rw [hworld, hphase, htorn]
    exact (hs d).congr hidentity

theorem empty_sound : Sound empty := by
  intro id
  exact .gone

/-- A step uses no null connector exactly if it spares the dispatchers that are torn down, and the
state behind such a step is sound. -/
def Judged (f : Fleet) (e : FleetEvent) (f' : Fleet) (o : FleetObservation) : Prop :=
  (o ≠ .nullPointer → Sound f') ∧ (o ≠ .nullPointer ↔ Spared f e)

theorem judged_null {e : FleetEvent} (h : ¬ Spared f e) : Judged f e f' .nullPointer := by
  constructor
  · intro hne
    exact absurd rfl hne
  · exact iff_of_false (fun hne => hne rfl) h

theorem judged_sound {e : FleetEvent} (hs : Sound f') (hne : o ≠ .nullPointer)
    (h : Spared f e) : Judged f e f' o :=
  ⟨fun _ => hs, iff_of_true hne h⟩

/-- Of a dispatcher that is not torn down the world is free to change. -/
theorem Sound.setWorld (hs : Sound f) (htorn : f.torn id = false) (s : World) :
    Sound (f.setWorld id s) := by
  apply hs.update id
  · show SoundAt (f.heap.objects id) _ (f.phase id) (f.torn id)
    rw [htorn]
    apply (htorn ▸ hs id).keep
    intro t ref hnaming
    have htrue := (hs id).naming t ref hnaming
    rw [htorn] at htrue
    cases htrue
  · intro d hd
    exact ⟨rfl, Function.update_of_ne hd .., rfl, rfl⟩

theorem not_torn_of_online (hs : Sound f)
    (honline : (f.worlds id).dispatcher.connStatus = .online) : f.torn id = false := by
  by_contra htorn
  have hdormant := (hs id).dormant (Bool.not_eq_false _ ▸ htorn)
  rw [hdormant.1] at honline
  cases honline

theorem not_torn_of_started (hs : Sound f)
    (hstarted : (f.worlds id).dispatcher.activity = .started) : f.torn id = false := by
  by_contra htorn
  have hdormant := (hs id).dormant (Bool.not_eq_false _ ▸ htorn)
  rw [hdormant.2] at hstarted
  cases hstarted

theorem abandon_sound (hs : Sound f) (htorn : f.torn id = false) (purpose : Purpose) :
    Sound (f.abandon id purpose) := by
  cases purpose with
  | assign ref =>
      apply hs.update id
      · show SoundAt (f.heap.objects id) (f.worlds id) (Function.update f.phase id none id)
          (f.torn id)
        rw [Function.update_self, htorn]
        exact (htorn ▸ hs id).keep nofun
      · intro d hd
        exact ⟨rfl, rfl, Function.update_of_ne hd .., rfl⟩
  | destroy =>
      apply hs.update id
      · show SoundAt ((f.heap.set id none).objects id) (f.worlds id)
          (Function.update f.phase id none id) (f.torn id)
        rw [Function.update_self, htorn, Heap.set_objects_self]
        exact .gone
      · intro d hd
        exact ⟨congrArg _ (Heap.set_objects_of_ne _ hd _), rfl, Function.update_of_ne hd .., rfl⟩

theorem finish_sound {t : ThreadId} {purpose : Purpose} (hs : Sound f)
    (h : f.finish stack id t purpose = some (f', o)) : Sound f' ∧ o ≠ .nullPointer := by
  cases purpose with
  | assign ref =>
      rw [finish] at h
      split at h
      · rename_i i r hi hr
        obtain ⟨rfl, rfl⟩ := Prod.mk.inj (Option.some.inj h)
        refine ⟨hs.update id ?_ fun d hd => ?_, nofun⟩
        · show SoundAt ((f.heap.set id (some _)).objects id) (Function.update f.worlds id _ id)
            (Function.update f.phase id _ id) (Function.update f.torn id true id)
          rw [Function.update_self, Function.update_self, Function.update_self,
            Heap.set_objects_self]
          exact .between rfl ⟨rfl, rfl⟩ t ref
        · exact ⟨congrArg _ (Heap.set_objects_of_ne _ hd _), Function.update_of_ne hd ..,
            Function.update_of_ne hd .., Function.update_of_ne hd ..⟩
      · cases h
  | destroy =>
      obtain ⟨heap, hdestroy, heq⟩ := Option.map_eq_some_iff.mp h
      obtain ⟨rfl, rfl⟩ := Prod.mk.inj heq
      obtain ⟨counted, hnotify, rfl⟩ := Heap.destroy_inv hdestroy
      obtain ⟨-, hidentity⟩ := Heap.notify_identity hnotify
      refine ⟨hs.update id ?_ fun d hd => ?_, nofun⟩
      · show SoundAt ((counted.set id none).objects id) (f.worlds id)
          (Function.update f.phase id none id) (Function.update f.torn id false id)
        rw [Function.update_self, Function.update_self, Heap.set_objects_self]
        exact .gone
      · refine ⟨?_, rfl, Function.update_of_ne hd .., Function.update_of_ne hd ..⟩
        exact (congrArg _ (Heap.set_objects_of_ne _ hd _)).trans (hidentity d)

theorem tearDown_sound {t : ThreadId} {purpose : Purpose} {sent : Bool} (hs : Sound f)
    (hlive : (f.heap.objects id).isSome)
    (h : f.tearDown stack id t purpose sent = some (f', o)) : Sound f' ∧ o ≠ .nullPointer := by
  rw [tearDown] at h
  split at h
  · rename_i honline
    have htorn := not_torn_of_online hs honline
    rw [if_neg (not_null_of_not_torn hs hlive htorn _)] at h
    split at h
    · obtain ⟨rfl, rfl⟩ := Prod.mk.inj (Option.some.inj h)
      exact ⟨abandon_sound (hs.setWorld htorn _) htorn purpose, nofun⟩
    · exact finish_sound (hs.setWorld htorn _) h
  · exact finish_sound hs h

theorem leave_sound {t : ThreadId} {purpose : Purpose} {sent : Bool} (hs : Sound f)
    (h : f.leave stack id t purpose sent = some (f', o)) : Sound f' ∧ o ≠ .nullPointer := by
  rw [leave] at h
  split at h
  · rename_i hmay
    simp only [Bool.and_eq_true] at hmay
    obtain ⟨⟨hlive, -⟩, -⟩ := hmay
    split at h
    · rename_i hstarted
      have htorn := not_torn_of_started hs hstarted
      rw [if_neg (not_null_of_not_torn hs hlive htorn _)] at h
      split at h
      · obtain ⟨rfl, rfl⟩ := Prod.mk.inj (Option.some.inj h)
        exact ⟨abandon_sound hs htorn purpose, nofun⟩
      · obtain ⟨rfl, rfl⟩ := Prod.mk.inj (Option.some.inj h)
        refine ⟨hs.update id ?_ fun d hd => ?_, nofun⟩
        · show SoundAt (f.heap.objects id) (Function.update f.worlds id _ id)
            (Function.update f.phase id _ id) (f.torn id)
          rw [Function.update_self, Function.update_self, htorn]
          exact (htorn ▸ hs id).keep nofun
        · exact ⟨rfl, Function.update_of_ne hd .., Function.update_of_ne hd .., rfl⟩
    · exact tearDown_sound hs hlive h
  · cases h

theorem named_sound {clientName : Str} {heap : Heap} {mbox : Mailbox} {result : CopyResult}
    (hs : Sound f)
    (hfinish : f.heap.finishCopy stack id clientName = some (heap, result)) :
    Sound (f.named id heap mbox result) := by
  obtain ⟨counted, i, hnotify, -, hresult⟩ := Heap.finishCopy_inv hfinish
  obtain ⟨-, hidentity⟩ := Heap.notify_identity hnotify
  obtain ⟨rfl, -, rfl⟩ | ⟨rfl, -, rfl⟩ := hresult
  · apply hs.update id
    · show SoundAt (heap.objects id) (Function.update f.worlds id _ id)
        (Function.update f.phase id none id) (f.torn id)
      rw [Function.update_self, Function.update_self]
      refine SoundAt.congr ?_ (hidentity id)
      exact
        { connector := (hs id).connector
          dormant := (hs id).dormant
          free := fun _ _ => rfl
          naming := nofun
          stopping := nofun }
    · intro d hd
      exact ⟨hidentity d, Function.update_of_ne hd .., Function.update_of_ne hd .., rfl⟩
  · apply hs.update id
    · show SoundAt ((counted.set id (some _)).objects id) _ (Function.update f.phase id none id)
        (Function.update f.torn id false id)
      rw [Function.update_self, Function.update_self, Heap.set_objects_self]
      apply SoundAt.intact
      · intro j hj
        obtain rfl := Option.some.inj hj
        exact Option.some_ne_none _
      · exact nofun
    · intro d hd
      exact ⟨(congrArg _ (Heap.set_objects_of_ne _ hd _)).trans (hidentity d),
        Function.update_of_ne hd .., Function.update_of_ne hd .., Function.update_of_ne hd ..⟩

theorem name_nonNull {mbox : Mailbox} (hs : Sound f)
    (h : f.step stack (.name id mbox) = some (f', o)) : Judged f (.name id mbox) f' o := by
  rw [step] at h
  split at h
  · rename_i t ref hphase
    have hspared : Spared f (.name id mbox) ↔ f.torn ref = false := by
      simp [Spared, source, hphase]
    split at h
    · cases h
    · rename_i r hr
      have hconnector := (hs ref).connector r hr
      split at h
      · rename_i hnone
        obtain ⟨rfl, rfl⟩ := Prod.mk.inj (Option.some.inj h)
        apply judged_null
        rw [hspared, hconnector.mp hnone]
        exact Bool.false_ne_true.symm
      · rename_i clientName hsome
        obtain ⟨⟨heap, result⟩, hfinish, heq⟩ := Option.map_eq_some_iff.mp h
        obtain ⟨rfl, rfl⟩ := Prod.mk.inj heq
        refine judged_sound (named_sound hs hfinish) nofun ?_
        rw [hspared, ← Bool.not_eq_true, ← hconnector, hsome]
        exact Option.some_ne_none _
  · cases h

theorem enroll_sound {heap : Heap} {s : World} (hs : Sound f)
    (hnew : ∀ j, heap.objects f.heap.next = some j → j.connector ≠ none)
    (hothers : ∀ d, d ≠ f.heap.next →
      (heap.objects d).map Heap.identity = (f.heap.objects d).map Heap.identity) :
    Sound (f.enroll heap s) := by
  apply hs.update f.heap.next
  · show SoundAt (heap.objects f.heap.next) _ (Function.update f.phase f.heap.next none f.heap.next)
      (Function.update f.torn f.heap.next false f.heap.next)
    rw [Function.update_self, Function.update_self]
    exact .intact hnew nofun
  · intro d hd
    exact ⟨hothers d hd, Function.update_of_ne hd .., Function.update_of_ne hd ..,
      Function.update_of_ne hd ..⟩

/-- A copy has a connector, or is not there; the others keep theirs. -/
theorem copyConstruct_connector {heap heap' : Heap} {ref : ObjectId} {memory : BitVec 32}
    {result : CopyResult} (hcopy : heap.copyConstruct stack ref memory = some (heap', result)) :
    (∀ j, heap'.objects heap.next = some j → j.connector ≠ none ∧ result = .done) ∧
      ∀ d, d ≠ heap.next →
        (heap'.objects d).map Heap.identity = (heap.objects d).map Heap.identity := by
  obtain ⟨r, clientName, copy, made, finished, -, hfinish, hmade, rfl⟩ :=
    Heap.copyConstruct_inv hcopy
  obtain ⟨counted, i, hnotify, -, hresult⟩ := Heap.finishCopy_inv hfinish
  obtain ⟨-, hidentity⟩ := Heap.notify_identity hnotify
  have hothers : ∀ d, d ≠ heap.next →
      (counted.objects d).map Heap.identity = (heap.objects d).map Heap.identity := by
    intro d hd
    rw [hidentity d, hmade.others d hd]
  obtain ⟨rfl, -, rfl⟩ | ⟨rfl, -, rfl⟩ := hresult
  · rw [if_neg nofun]
    constructor
    · intro j hj
      rw [Heap.set_objects_self] at hj
      cases hj
    · intro d hd
      rw [Heap.set_objects_of_ne _ hd]
      exact hothers d hd
  · rw [if_pos rfl]
    constructor
    · intro j hj
      rw [Heap.set_objects_self] at hj
      obtain rfl := Option.some.inj hj
      exact ⟨Option.some_ne_none _, rfl⟩
    · intro d hd
      rw [Heap.set_objects_of_ne _ hd]
      exact hothers d hd

theorem construct_nonNull {clientName address : Str} {dropEcho dropMembership : Bool}
    {mbox : Mailbox} (hs : Sound f)
    (h : f.step stack (.construct clientName address dropEcho dropMembership mbox) =
      some (f', o)) : Sound f' ∧ o ≠ .nullPointer := by
  obtain ⟨rfl, rfl⟩ := Prod.mk.inj (Option.some.inj h)
  refine ⟨enroll_sound hs ?_ ?_, nofun⟩
  · intro j hj
    rw [Heap.set_objects_self] at hj
    obtain rfl := Option.some.inj hj
    exact Option.some_ne_none _
  · intro d hd
    exact congrArg _ (Heap.set_objects_of_ne _ hd _)

theorem copy_nonNull {ref : ObjectId} {memory : BitVec 32} {mbox : Mailbox} (hs : Sound f)
    (h : f.step stack (.copy ref memory mbox) = some (f', o)) :
    Judged f (.copy ref memory mbox) f' o := by
  rw [step] at h
  split at h
  · cases h
  · rename_i r hr
    have hconnector := (hs ref).connector r hr
    rw [← Option.isNone_iff_eq_none] at hconnector
    split at h
    · rename_i hnone
      obtain ⟨rfl, rfl⟩ := Prod.mk.inj (Option.some.inj h)
      apply judged_null
      show ¬ f.torn ref = false
      rw [hconnector.mp hnone]
      exact Bool.false_ne_true.symm
    · rename_i hsome
      have hspared : f.torn ref = false := by
        rw [← Bool.not_eq_true, ← hconnector]
        exact hsome
      split at h
      · cases h
      · rename_i heap message hcopy
        obtain ⟨rfl, rfl⟩ := Prod.mk.inj (Option.some.inj h)
        obtain ⟨hnew, hothers⟩ := copyConstruct_connector hcopy
        refine judged_sound (hs.update f.heap.next ?_ fun d hd => ?_) nofun hspared
        · refine { hs f.heap.next with connector := fun j hj => ?_ }
          obtain ⟨-, hdone⟩ := hnew j hj
          cases hdone
        · exact ⟨hothers d hd, rfl, rfl, rfl⟩
      · rename_i heap hcopy
        obtain ⟨rfl, rfl⟩ := Prod.mk.inj (Option.some.inj h)
        obtain ⟨hnew, hothers⟩ := copyConstruct_connector hcopy
        refine judged_sound (enroll_sound hs ?_ hothers) nofun hspared
        intro j hj
        exact (hnew j hj).1

section Inner

variable {s : World} {e : Event} {ob : Observation}

theorem spared_of_not_torn (htorn : f.torn id = false) (e : Event) : Spared f (.inner id e) := by
  cases e with
  | perform t op sent =>
      cases op with
      | sendMessageToGroup => exact htorn
      | connect => exact htorn
      | registerGroup | unregisterGroup | disconnect => trivial
  | job w sent =>
      intro htrue
      rw [htorn] at htrue
      cases htrue
  | start | stop | join | timeOut | receive | pop | deliver | order | hangUp => trivial

/-- Where the connector is gone, what uses it is what must not be done. -/
theorem spared_iff_not_uses (htorn : f.torn id = true) (hdormant : (f.worlds id).Dormant)
    (hend : e.endsStop = false) (hstep : (f.worlds id).step e = some (s, ob)) :
    Spared f (.inner id e) ↔ (f.worlds id).uses (f.entering id) e ob = false := by
  cases e with
  | perform t op sent =>
      have huses := hdormant.uses_iff op
      rw [World.uses, ← Bool.not_eq_true, huses]
      cases op with
      | sendMessageToGroup => simp [Spared, World.Blind, htorn]
      | connect => simp [Spared, World.Blind, htorn]
      | registerGroup | unregisterGroup | disconnect => simp [Spared, World.Blind]
  | job w sent =>
      rw [World.uses, hdormant.stopUses, hdormant.disconnectUses, Bool.and_false, Bool.and_false,
        Bool.or_false, Bool.or_false, Bool.or_eq_false_iff]
      constructor
      · intro hspared
        obtain ⟨hentering, hhalt⟩ := hspared htorn
        exact ⟨hentering, hhalt (s, ob) hstep⟩
      · rintro ⟨hentering, hhalt⟩ -
        refine ⟨hentering, fun r hr => ?_⟩
        obtain rfl := Option.some.inj (hstep.symm.trans hr)
        exact hhalt
  | stop t sent => exact iff_of_true trivial hdormant.stopUses
  | timeOut => cases hend
  | start | join | receive | pop | deliver | order | hangUp => exact iff_of_true trivial rfl

theorem advance_inv {next : Fleet → Option (Fleet × FleetObservation)}
    (h : f.advance id e s ob next = some (f', o)) :
    (f.hasConnector id = false ∧ (f.worlds id).uses (f.entering id) e ob = true ∧
        o = .nullPointer) ∨
      ((f.hasConnector id = true ∨ (f.worlds id).uses (f.entering id) e ob = false) ∧
        next (f.moved id e s) = some (f', o)) := by
  rw [advance] at h
  split at h
  · rename_i hboth
    rw [Bool.and_eq_true, Bool.not_eq_true'] at hboth
    obtain ⟨-, rfl⟩ := Prod.mk.inj (Option.some.inj h)
    exact .inl ⟨hboth.1, hboth.2, rfl⟩
  · rename_i hboth
    rw [Bool.and_eq_true, Bool.not_eq_true', not_and_or, Bool.not_eq_false,
      Bool.not_eq_true] at hboth
    exact .inr ⟨hboth, h⟩

/-- A torn dispatcher's world goes on without it. -/
theorem moved_sound (hs : Sound f) (hworld : f.torn id = true → s.Dormant ∧
    s.holder = (f.worlds id).holder) : Sound (f.moved id e s) := by
  apply hs.update id
  · show SoundAt (f.heap.objects id) (Function.update f.worlds id s id) (f.phase id) (f.torn id)
    rw [Function.update_self]
    exact
      { connector := (hs id).connector
        dormant := fun htorn => (hworld htorn).1
        free := fun htorn hphase => (hworld htorn).2.trans ((hs id).free htorn hphase)
        naming := (hs id).naming
        stopping := (hs id).stopping }
  · intro d hd
    exact ⟨rfl, Function.update_of_ne hd .., rfl, rfl⟩

/-- Nobody waits in `stop` for a dispatcher that is torn down. -/
theorem endsStop_of_torn (hs : Sound f) (htorn : f.torn id = true)
    (hstep : (f.worlds id).step e = some (s, ob)) (hphase : ∀ t ref,
      e.endsStop = true → f.phase id ≠ some (.naming t ref)) : e.endsStop = false := by
  apply Bool.eq_false_iff.mpr
  intro hend
  cases hp : f.phase id with
  | none =>
      rw [World.step_endsStop ((hs id).free htorn hp) hend] at hstep
      cases hstep
  | some p =>
      cases p with
      | stopping t purpose sent =>
          have hfalse := (hs id).stopping t purpose sent hp
          rw [htorn] at hfalse
          cases hfalse
      | naming t ref => exact hphase t ref hend hp

/-- What a step of a dispatcher's own world goes on with. -/
theorem inside_inv (h : f.inside stack id e = some (f', o)) :
    (f.heap.objects id).isSome ∧ ∃ s ob next, (f.worlds id).step e = some (s, ob) ∧
      f.advance id e s ob next = some (f', o) ∧
      (∀ t ref, e.endsStop = true → f.phase id ≠ some (.naming t ref)) ∧
      ((∀ g, next g = some (g, .inner ob)) ∨
        ∃ t purpose sent, f.phase id = some (.stopping t purpose sent) ∧
          ∀ g, next g = g.tearDown stack id t purpose sent) := by
  rw [inside] at h
  split at h
  · cases h
  · rename_i hlive
    rw [Option.isNone_iff_eq_none, ← ne_eq, ← Option.isSome_iff_ne_none] at hlive
    refine ⟨hlive, ?_⟩
    split at h
    · cases h
    · rename_i s ob hstep
      split at h
      · split at h
        · rename_i t purpose sent hphase
          refine ⟨s, ob, _, hstep, h, ?_, .inr ⟨t, purpose, sent, hphase, fun g => rfl⟩⟩
          rw [hphase]
          exact nofun
        · cases h
        · rename_i hphase
          refine ⟨s, ob, _, hstep, h, ?_, .inl fun g => rfl⟩
          rw [hphase]
          exact nofun
      · rename_i hend
        exact ⟨s, ob, _, hstep, h, fun t ref htrue => absurd htrue hend, .inl fun g => rfl⟩

theorem inner_nonNull (hs : Sound f) (h : f.step stack (.inner id e) = some (f', o)) :
    Judged f (.inner id e) f' o := by
  obtain ⟨hlive, s, ob, next, hstep, hadvance, hnaming, hnext⟩ := inside_inv h
  have hconnector := hasConnector_iff hs hlive
  cases htorn : f.torn id with
  | false =>
      have hspared := spared_of_not_torn htorn e
      have hmoved : Sound (f.moved id e s) := by
        apply moved_sound hs
        intro htrue
        rw [htorn] at htrue
        cases htrue
      obtain ⟨hnull, -⟩ | ⟨-, hgoes⟩ := advance_inv hadvance
      · rw [hconnector.mpr htorn] at hnull
        cases hnull
      · obtain hinner | ⟨t, purpose, sent, -, htear⟩ := hnext
        · rw [hinner] at hgoes
          obtain ⟨rfl, rfl⟩ := Prod.mk.inj (Option.some.inj hgoes)
          exact judged_sound hmoved nofun hspared
        · rw [htear] at hgoes
          obtain ⟨hsound, hne⟩ := tearDown_sound hmoved hlive hgoes
          exact judged_sound hsound hne hspared
  | true =>
      have hdormant := (hs id).dormant htorn
      have hend := endsStop_of_torn hs htorn hstep hnaming
      have hspared := spared_iff_not_uses htorn hdormant hend hstep
      obtain ⟨-, huses, rfl⟩ | ⟨hmay, hgoes⟩ := advance_inv hadvance
      · apply judged_null
        rw [hspared, huses]
        exact Bool.false_ne_true.symm
      · rw [hconnector, htorn] at hmay
        have hunused := hmay.resolve_left Bool.false_ne_true.symm
        obtain hinner | ⟨t, purpose, sent, hphase, -⟩ := hnext
        · rw [hinner] at hgoes
          obtain ⟨rfl, rfl⟩ := Prod.mk.inj (Option.some.inj hgoes)
          refine judged_sound (moved_sound hs fun _ => ?_) nofun (hspared.mpr hunused)
          apply hdormant.step hstep _ hend
          rintro t op sent rfl
          rw [← hdormant.uses_iff, Bool.not_eq_true]
          exact hunused
        · have hfalse := (hs id).stopping t purpose sent hphase
          rw [htorn] at hfalse
          cases hfalse

end Inner

theorem step_nonNull {e : FleetEvent} (hs : Sound f) (h : f.step stack e = some (f', o)) :
    Judged f e f' o := by
  cases e with
  | construct =>
      obtain ⟨hsound, hne⟩ := construct_nonNull hs h
      exact judged_sound hsound hne trivial
  | copy => exact copy_nonNull hs h
  | assign t id ref sent =>
      rw [step] at h
      split at h
      · cases h
      · obtain ⟨hsound, hne⟩ := leave_sound hs h
        exact judged_sound hsound hne trivial
  | name => exact name_nonNull hs h
  | destroy =>
      obtain ⟨hsound, hne⟩ := leave_sound hs h
      exact judged_sound hsound hne trivial
  | inner => exact inner_nonNull hs h

/-- **No null connector.** In every run of the process no null connector is dereferenced exactly
when every step spares the dispatchers that are torn down. -/
theorem nonNull_iff_spared (stack : Nat) {trace : List (FleetEvent × FleetObservation)}
    (run : (machine stack).Run (fun _ _ => True) empty trace f) :
    (machine stack).EveryStep empty trace NonNull ↔
      (machine stack).Run Spared empty trace f := by
  apply run.everyStep_iff empty_sound
  · intro a e b o ha move hne
    exact (step_nonNull ha move).1 hne
  · intro a e b o ha move
    exact (step_nonNull ha move).2

/-- The client `a` is assigned to another one, which connects and is left. Then the new name is too
long for it, and it is left alone. -/
def assignmentRun : List FleetEvent :=
  [.construct [97] [] false true 0, .construct [98] [] false true 1, .assign 0 1 0 true, .name 1 2,
    .inner 1 World.connects, .inner 1 (.start 0), .inner 1 (.job 0 true), .destroy 0 1 true,
    .inner 1 .timeOut, .construct [97, 98, 99, 100, 101] [] false true 3, .assign 0 0 2 true,
    .name 0 4, .inner 0 (.perform 0 .disconnect true), .destroy 0 0 true]

theorem nonNull_assignmentRun : ∃ trace f,
    (machine 4).Run (fun _ _ => True) empty trace f ∧ trace.length = assignmentRun.length ∧
      (trace.any fun r => r.2 matches .copied (.threw _)) = true ∧
      (machine 4).EveryStep empty trace NonNull := by
  obtain ⟨trace, f, run, hlength, hthrew⟩ := Machine.Run.exists_of_exec (machine 4) Spared empty
    assignmentRun (fun trace _ => trace.length = assignmentRun.length ∧
      (trace.any fun r => r.2 matches .copied (.threw _)) = true) (by decide)
  have free : (machine 4).Run (fun _ _ => True) empty trace f := run.mono fun _ _ _ => trivial
  exact ⟨trace, f, free, hlength, hthrew, (nonNull_iff_spared 4 free).mpr run⟩

/-- A dispatcher that is assigned to itself. -/
theorem self_assigned_null : ¬ ∀ (stack : Nat) (f : Fleet)
    (trace : List (FleetEvent × FleetObservation)),
    (machine stack).Run (fun _ _ => True) empty trace f →
      (machine stack).EveryStep empty trace NonNull := by
  intro hall
  obtain ⟨past, a, run, hnull⟩ := Machine.Run.exists_of_exec (machine 4) (fun _ _ => True) empty
    [.construct [97] [] false true 0, .assign 0 0 0 true]
    (fun _ a => (a.step 4 (.name 0 1)).any (fun r => r.2 matches .nullPointer) = true) (by decide)
  obtain ⟨⟨b, o⟩, move, hnull⟩ := (Option.any_eq_true _ _).mp hnull
  have move : (machine 4).step a (.name 0 1) = some (b, o) := move
  cases o with
  | nullPointer =>
      exact hall 4 b _ (run.snoc trivial move) past (.name 0 1) .nullPointer [] a b rfl run move rfl
  | silent | copied | threw | inner => cases hnull

end Fleet

end Netbroker
