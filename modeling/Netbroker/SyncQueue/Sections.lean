import Netbroker.SyncQueue.Counter
import Netbroker.SyncQueue.History

/-!
# A critical section is one step

The other results about the queue take a critical section as one step, on a counter that is a
natural number. Here that is justified. What the threads do statement by statement, on a counter
that wraps around, is simulated by the machine whose steps are the sections, with the same calls
returning the same results in the same order. The step of the machine comes where the thread gives
the mutex back.

A copy that throws has no counterpart in that machine, so the runs here are those in which none
does.

The statements of one section are compared with its function first; the simulation then
follows each thread through its section.
-/

namespace Netbroker.SyncFifoQueue

open Transition Fifo

universe u

variable {α : Type u} {w : Nat} {f : Fields α w} {capacity : BitVec w}

/-- The fields as the machine of the sections has them. -/
def Fields.toQueue (f : Fields α w) : SyncFifoQueue α :=
  { sigKill := f.sigKill, maxSize := f.maxSize.toNat, currSize := f.currSize.toNat,
    deque := f.deque }

@[simp] theorem Fields.toQueue_sigKill : f.toQueue.sigKill = f.sigKill := rfl

theorem Fields.new_toQueue (maxSize : BitVec w) :
    (new maxSize : Fields α w).toQueue = .new maxSize.toNat := by
  simp [new, toQueue, SyncFifoQueue.new]

/-- The end of a section that has statements left. -/
def sectionEnd (rest : List (Statement α)) (f : Fields α w) (ret : Ret α) (told : Bool) :
    Outcome α :=
  let done := (code α w).finish rest f ret told
  .done done.1.toQueue done.2.1 done.2.2

@[simp] theorem sectionEnd_nil (ret : Ret α) (told : Bool) :
    sectionEnd [] f ret told = .done f.toQueue ret told := rfl

@[simp] theorem sectionEnd_cons (k : Statement α) (rest : List (Statement α)) (ret : Ret α)
    (told : Bool) : sectionEnd (k :: rest) f ret told =
      sectionEnd rest (k.exec f) (k.result f ret) (told || k.notifies) := rfl

theorem takeFront_toQueue (h : f.Agrees) (hsome : f.currSize ≠ 0) :
    f.toQueue.takeFront = sectionEnd take f .finished false := by
  obtain ⟨data, rest, hdeque⟩ := List.exists_cons_of_ne_nil (h.deque_ne_nil hsome)
  have hprev := Fields.toNat_decrement hsome
  simp only [takeFront, take, sectionEnd_cons, sectionEnd_nil, Statement.exec, Statement.result,
    Statement.notifies, Fields.toQueue, hdeque, hprev, List.tail_cons, Bool.or_false, Bool.or_true]

/-- A section computes what its statements do, one after the other. -/
theorem criticalSection_toQueue (h : f.Agrees) (op : Op α) : f.toQueue.criticalSection op =
    match enter op f with
    | none => .wait
    | some (ret, rest) => sectionEnd rest f ret false := by
  have hfull : decide (f.toQueue.maxSize ≤ f.toQueue.currSize) =
      decide (f.maxSize ≤ f.currSize) := rfl
  have hnone : decide (f.toQueue.currSize = 0) = decide (f.currSize ≤ 0) := by
    apply decide_eq_decide.mpr
    show f.currSize.toNat = 0 ↔ f.currSize.toNat ≤ (0 : BitVec w).toNat
    simp
  cases op with
  | push data =>
      rw [criticalSection, enter, hfull, Fields.toQueue_sigKill]
      split
      · rfl
      · rename_i hloop
        split
        · rfl
        · rename_i hlive
          have hroom : f.currSize < f.maxSize := by simpa [hlive] using hloop
          have hnext := Fields.toNat_increment hroom
          simp only [sectionEnd_cons, sectionEnd_nil, Statement.exec, Statement.notifies,
            Statement.result, Fields.toQueue, hnext, Bool.or_false, Bool.or_true]
  | pop | timedPop | tryPop | asyncPop =>
      rw [criticalSection, enter, hnone, Fields.toQueue_sigKill]
      split
      · rfl
      · rename_i hloop
        split
        · rfl
        · rename_i hlive
          apply takeFront_toQueue h
          rintro hzero
          simp [hlive, hzero] at hloop
  | signalForKill | reset => rfl
  | isFull =>
      have hanswer : decide (f.maxSize.toNat = f.currSize.toNat) = f.isFull :=
        decide_eq_decide.mpr BitVec.toNat_inj
      show Outcome.done f.toQueue (.full (decide (f.maxSize.toNat = f.currSize.toNat))) false =
        .done f.toQueue (.full f.isFull) false
      rw [hanswer]
  | size =>
      have hsize : f.size.toNat = f.deque.length := by
        rw [h.size_eq, h.count]
      show Outcome.done f.toQueue (.length f.deque.length) false =
        .done f.toQueue (.length f.size.toNat) false
      rw [hsize]

/-- Where a thread without the mutex stands, for the machine of the statements. -/
def Pc.point : Pc α → Monitor.Point (Op α) (Statement α) (Ret α)
  | .idle => .idle
  | .entering op => .entering op
  | .asleep op notified => .asleep op notified
  | .waking op timedOut => .waking op timedOut

/-- A thread, after the notification if there has been one. -/
def Pc.hear (told : Bool) (pc : Pc α) : Pc α := if told then pc.notify else pc

theorem Pc.hear_of_notify {pc : Pc α} (h : pc.notify = pc) (told : Bool) :
    pc.hear told = pc := by
  cases told with
  | false => rfl
  | true => exact h

theorem Pc.point_inside (pc : Pc α) : pc.point.inside = false := by
  cases pc <;> rfl

/-- A statement may notify once more. -/
theorem Pc.hear_or (told notifies : Bool) (pc : Pc α) : (pc.hear (told || notifies)).point =
    if notifies then (pc.hear told).point.notify else (pc.hear told).point := by
  cases told <;> cases notifies <;> cases pc <;> rfl

/-- What the machine of the sections knows of a thread that is seen at a point. -/
def Seen (pc : Pc α) : Monitor.Point (Op α) (Statement α) (Ret α) → Prop
  | .idle => pc = .idle
  | .entering op => pc = .entering op
  | .asleep op _ => ∃ notified, pc = .asleep op notified
  | .waking op timedOut => pc = .waking op timedOut
  | _ => False

theorem seen_hear (told : Bool) (pc : Pc α) : Seen pc (pc.hear told).point := by
  cases told <;> cases pc <;> first | rfl | exact ⟨_, rfl⟩

/-- The thread is about to run the section of the operation. -/
def About (a : State α) (t : ThreadId) (op : Op α) : Prop :=
  a.threads t = .entering op ∨ a.threads t = .waking op false

theorem About.step {a : State α} {t : ThreadId} {op : Op α} (h : About a t op) :
    ∃ e, a.step e = some (a.attempt t op) := by
  obtain hentering | hwaking := h
  · exact ⟨.enter t, by rw [State.step, hentering]⟩
  · exact ⟨.resume t, by simp only [State.step, hwaking]⟩

variable {a b : State α} {t u : ThreadId} {op : Op α} {ret : Ret α} {told : Bool}
  {s s' : Monitor.State ThreadId (Fields α w) (Op α) (Statement α) (Ret α)}
  {p : Monitor.Point (Op α) (Statement α) (Ret α)}

theorem attempt_of_wait (h : a.queue.criticalSection op = .wait) :
    a.attempt t op = (a.set t (.asleep op false), none) := by
  rw [State.attempt, h]

theorem attempt_of_done {q : SyncFifoQueue α} (h : a.queue.criticalSection op = .done q ret told) :
    a.attempt t op =
      ({ queue := q, threads := fun u => (a.threads u).hear told : State α }.set t .idle,
        some ⟨t, op, ret⟩) := by
  rw [State.attempt, h]
  cases told <;> rfl

/-- The thread with the mutex, on its way from the fields `a.queue` to the end of its section. -/
inductive Within (a : State α) (t : ThreadId) (f : Fields α w) :
    Monitor.Point (Op α) (Statement α) (Ret α) → Bool → Prop
  | locked {op : Op α} (about : About a t op) (queue : a.queue = f.toQueue) :
      Within a t f (.locked op) false
  | running {op : Op α} {ret : Ret α} {rest : List (Statement α)} {told : Bool}
      (about : About a t op) (leads : a.queue.criticalSection op = sectionEnd rest f ret told) :
      Within a t f (.running op ret rest) told
  | gaveUp (pc : a.threads t = .waking .timedPop true) (queue : a.queue = f.toQueue) :
      Within a t f (.running .timedPop .failed []) false

theorem Within.inside (h : Within a t f p told) : p.inside = true := by
  cases h <;> rfl

/-- The machines agree, but for what the thread with the mutex has done already. -/
inductive Matches (s : Monitor.State ThreadId (Fields α w) (Op α) (Statement α) (Ret α))
    (a : State α) : Prop
  | free (mutex : s.mutex = none) (queue : a.queue = s.fields.toQueue)
      (points : ∀ u, s.points u = (a.threads u).point)
  | held {t : ThreadId} {told : Bool} (mutex : s.mutex = some t)
      (holder : Within a t s.fields (s.points t) told)
      (others : ∀ u, u ≠ t → s.points u = ((a.threads u).hear told).point)

theorem Matches.seen (h : Matches s a) (at' : s.points t = p) (hp : p.inside = false) :
    Seen (a.threads t) p := by
  cases h with
  | free mutex queue points =>
      rw [← at', points t]
      exact seen_hear false (a.threads t)
  | held mutex holder others =>
      rename_i owner told
      have hne : t ≠ owner := by
        rintro rfl
        have hinside := holder.inside
        rw [at', hp] at hinside
        cases hinside
      rw [← at', others t hne]
      exact seen_hear told (a.threads t)

/-- The thread inside is the one with the mutex. -/
theorem Matches.within (h : Matches s a) (at' : s.points t = p) (hp : p.inside = true) :
    ∃ told, s.mutex = some t ∧ Within a t s.fields p told ∧
      ∀ u, u ≠ t → s.points u = ((a.threads u).hear told).point := by
  cases h with
  | free mutex queue points =>
      have houtside := (a.threads t).point_inside
      rw [← points t, at', hp] at houtside
      cases houtside
  | held mutex holder others =>
      rename_i owner told
      have heq : t = owner := by
        apply Classical.byContradiction
        intro hne
        have houtside := ((a.threads t).hear told).point_inside
        rw [← others t hne, at', hp] at houtside
        cases houtside
      subst heq
      exact ⟨told, mutex, at' ▸ holder, others⟩

theorem Within.congr (h : Within a t f p told) (hqueue : b.queue = a.queue)
    (hthread : b.threads t = a.threads t) : Within b t f p told := by
  cases h with
  | locked about queue => exact .locked (by rwa [About, hthread]) (hqueue.trans queue)
  | running about leads => exact .running (by rwa [About, hthread]) (by rwa [hqueue])
  | gaveUp pc queue => exact .gaveUp (hthread.trans pc) (hqueue.trans queue)

/-- A thread goes elsewhere without the mutex, in both machines. -/
theorem Matches.aside (h : Matches s a) (ht : (s.points t).inside = false) {pc : Pc α}
    (hpc : pc.notify = pc) : Matches (s.set t pc.point) (a.set t pc) := by
  cases h with
  | free mutex queue points =>
      refine .free mutex queue fun u => ?_
      rw [Monitor.State.set_points]
      by_cases hut : u = t
      · rw [hut, Function.update_self, State.set_threads_self]
      · rw [Function.update_of_ne hut, State.set_threads_of_ne a hut]
        exact points u
  | held mutex holder others =>
      rename_i owner told
      have hne : owner ≠ t := by
        rintro rfl
        rw [holder.inside] at ht
        cases ht
      have hmutex : (s.set t pc.point).mutex = some owner := mutex
      apply Matches.held hmutex
      · rw [Monitor.State.set_points, Function.update_of_ne hne]
        exact holder.congr rfl (State.set_threads_of_ne a hne pc)
      · intro u hu
        rw [Monitor.State.set_points]
        by_cases hut : u = t
        · rw [hut, Function.update_self, State.set_threads_self, Pc.hear_of_notify hpc]
        · rw [Function.update_of_ne hut, State.set_threads_of_ne a hut]
          exact others u hu

/-- A thread takes the free mutex; the other machine waits. -/
theorem Matches.take (h : Matches s a) (free : s.mutex = none)
    (hwithin : a.queue = s.fields.toQueue → Within a t s.fields p false) :
    Matches (s.take t p) a := by
  cases h with
  | free _ queue points =>
      apply Matches.held (Monitor.State.take_mutex s t p)
      · rw [Monitor.State.take_points, Function.update_self]
        exact hwithin queue
      · intro u hu
        rw [Monitor.State.take_points, Function.update_of_ne hu]
        exact points u
  | held mutex _ _ =>
      rw [free] at mutex
      cases mutex

/-- The thread gives the mutex back; the other machine has run the section. -/
theorem matches_release (pc : Pc α) (hqueue : b.queue = s.fields.toQueue)
    (hothers : ∀ u, u ≠ t → s.points u = (b.threads u).point) :
    Matches (s.free t pc.point) (b.set t pc) := by
  refine .free (Monitor.State.free_mutex s t pc.point) hqueue fun u => ?_
  rw [Monitor.State.free_points]
  by_cases hut : u = t
  · rw [hut, Function.update_self, State.set_threads_self]
  · rw [Function.update_of_ne hut, State.set_threads_of_ne b hut]
    exact hothers u hut

/-- What an observer sees of a step. -/
def returned (exit : Option (Monitor.Exit ThreadId (Op α) (Ret α))) : Option (Returned α) :=
  exit.bind fun exit => exit.result.map fun ret => ⟨exit.thread, exit.op, ret⟩

/-- The machine of the sections has an answer to a step. -/
def Answers (capacity : Nat) (a : State α)
    (s' : Monitor.State ThreadId (Fields α w) (Op α) (Statement α) (Ret α))
    (exit : Option (Monitor.Exit ThreadId (Op α) (Ret α))) : Prop :=
  ∃ trace b, (machine α capacity).Run (fun _ _ => True) a trace b ∧
    trace.filterMap (fun x => x.2) = (returned exit).toList ∧ Matches s' b

theorem answers_silently {n : Nat} (h : Matches s' a) : Answers n a s' none :=
  ⟨[], a, .nil, rfl, h⟩

theorem answers_of_step {n : Nat} {e : Event α} {out : Option (Returned α)}
    {exit : Option (Monitor.Exit ThreadId (Op α) (Ret α))} (move : a.step e = some (b, out))
    (hout : out = returned exit) (h : Matches s' b) : Answers n a s' exit := by
  refine ⟨[(e, out)], b, .single trivial move, ?_, h⟩
  rw [← hout]
  cases out <;> rfl

theorem Matches.aside_answered {n : Nat} {e : Event α}
    {exit : Option (Monitor.Exit ThreadId (Op α) (Ret α))} (h : Matches s a)
    (at' : s.points t = p) (hp : p.inside = false) (pc : Pc α) (hpc : pc.notify = pc)
    (move : a.step e = some (a.set t pc, returned exit)) : Answers n a (s.set t pc.point) exit := by
  apply answers_of_step move rfl
  apply h.aside _ hpc
  rw [at']
  exact hp

theorem refused_inv (h : (code α w).refused op = some ret) : op = .tryPop ∧ ret = .failed := by
  cases op with
  | tryPop => exact ⟨rfl, (Option.some.inj h).symm⟩
  | _ => cases h

theorem timedOut_inv (h : (code α w).timedOut op = some ret) : op = .timedPop ∧ ret = .failed := by
  cases op with
  | timedPop => exact ⟨rfl, (Option.some.inj h).symm⟩
  | _ => cases h

/-- A thread in a wait leaves it, notified or not. -/
theorem wakes_of_asleep {notified : Bool} (h : a.threads t = .asleep op notified) :
    ∃ e, a.step e = some (a.set t (.waking op false), none) := by
  cases notified with
  | true => exact ⟨.wake t, by rw [State.step, h]⟩
  | false => exact ⟨.spurious t, by rw [State.step, h]⟩

theorem agrees_of_locked (hs : (code α w).Guarded Safe (Kept capacity) s)
    (at' : s.points t = .locked op) : s.fields.Agrees := by
  have hmeets := hs.meets t
  rw [at'] at hmeets
  exact hmeets.1

/-- The loop of an operation sends the thread to sleep. -/
theorem Matches.sleep_answered {n : Nat} (h : Matches s a) (at' : s.points t = .locked op)
    (hagrees : s.fields.Agrees) (sleeps : enter op s.fields = none) :
    Answers n a (s.free t (.asleep op false)) none := by
  obtain ⟨told, -, hwithin, hothers⟩ := h.within at' rfl
  cases hwithin with
  | locked about queue =>
      have hwait : a.queue.criticalSection op = .wait := by
        rw [queue, criticalSection_toQueue hagrees, sleeps]
      obtain ⟨e, hstep⟩ := about.step
      rw [attempt_of_wait hwait] at hstep
      apply answers_of_step hstep rfl
      exact matches_release (.asleep op false) queue hothers

/-- The operation goes on behind its loop. -/
theorem Matches.enter (h : Matches s a) (at' : s.points t = .locked op)
    (hagrees : s.fields.Agrees) {rest : List (Statement α)}
    (enters : enter op s.fields = some (ret, rest)) :
    Matches (s.set t (.running op ret rest)) a := by
  obtain ⟨told, hmutex, hwithin, hothers⟩ := h.within at' rfl
  cases hwithin with
  | locked about queue =>
      have hset : (s.set t (.running op ret rest)).mutex = some t := hmutex
      apply Matches.held hset
      · rw [Monitor.State.set_points, Function.update_self]
        apply Within.running about
        rw [queue, criticalSection_toQueue hagrees, enters]
        rfl
      · intro u hu
        rw [Monitor.State.set_points, Function.update_of_ne hu]
        exact hothers u hu

/-- A statement of the section. -/
theorem Matches.execute (h : Matches s a) {k : Statement α} {rest : List (Statement α)}
    (at' : s.points t = .running op ret (k :: rest)) :
    Matches ((code α w).execute s t op ret k rest) a := by
  obtain ⟨told, hmutex, hwithin, hothers⟩ := h.within at' rfl
  cases hwithin with
  | running about leads =>
      have hstays : ((code α w).execute s t op ret k rest).mutex = some t := hmutex
      apply Matches.held hstays
      · rw [Monitor.execute_points_self]
        exact .running about leads
      · intro u hu
        rw [Monitor.execute_points_of_ne _ s t op ret k rest hu, hothers u hu]
        exact ((a.threads u).hear_or told k.notifies).symm

/-- The end of the section. -/
theorem Matches.leave_answered {n : Nat} (h : Matches s a)
    (at' : s.points t = .running op ret []) :
    Answers n a (s.free t .idle) (some ⟨t, op, some ret⟩) := by
  obtain ⟨told, -, hwithin, hothers⟩ := h.within at' rfl
  cases hwithin with
  | running about leads =>
      obtain ⟨e, hstep⟩ := about.step
      rw [attempt_of_done leads] at hstep
      apply answers_of_step hstep rfl
      exact matches_release .idle rfl hothers
  | gaveUp pc queue =>
      have hstep : a.step (.resume t) = some (a.return' t .timedPop .failed) := by
        simp only [State.step, pc]
      apply answers_of_step hstep rfl
      exact matches_release .idle queue hothers

theorem move_answered {e : Monitor.Event ThreadId (Op α)}
    {exit : Option (Monitor.Exit ThreadId (Op α) (Ret α))} (n : Nat)
    (hs : (code α w).Guarded Safe (Kept capacity) s) (h : Matches s a)
    (quiet : ∀ t, e ≠ .throw t) (move : (code α w).Move s e s' exit) : Answers n a s' exit := by
  cases move with
  | call op at' =>
      rename_i t
      have hidle : a.threads t = .idle := h.seen at' rfl
      apply h.aside_answered (e := .call t op) at' rfl (.entering op) rfl
      rw [State.step, hidle]
      rfl
  | lock at' free =>
      apply answers_silently
      apply h.take free
      exact .locked (.inl (h.seen at' rfl))
  | refuse at' refused =>
      rename_i t op ret
      obtain ⟨rfl, rfl⟩ := refused_inv refused
      have hentering : a.threads t = .entering .tryPop := h.seen at' rfl
      apply h.aside_answered (e := .contend t) at' rfl .idle rfl
      rw [State.step, hentering]
      rfl
  | sleep at' sleeps => exact h.sleep_answered at' (agrees_of_locked hs at') sleeps
  | enter at' enters => exact answers_silently (h.enter at' (agrees_of_locked hs at') enters)
  | run at' => exact answers_silently (h.execute at')
  | throw at' throws => exact absurd rfl (quiet _)
  | leave at' => exact h.leave_answered at'
  | wake at' | spurious at' =>
      rename_i t op
      obtain ⟨notified, hasleep⟩ : ∃ notified, a.threads t = .asleep op notified :=
        h.seen at' rfl
      obtain ⟨e, hstep⟩ := wakes_of_asleep hasleep
      exact h.aside_answered at' rfl (.waking op false) rfl hstep
  | timeOut at' timed =>
      rename_i t op notified ret
      obtain ⟨rfl, -⟩ := timedOut_inv timed
      obtain ⟨notified', hasleep⟩ : ∃ notified, a.threads t = .asleep .timedPop notified :=
        h.seen at' rfl
      apply h.aside_answered (e := .timeOut t) at' rfl (.waking .timedPop true) rfl
      rw [State.step, hasleep]
      rfl
  | relock at' free =>
      apply answers_silently
      apply h.take free
      exact .locked (.inr (h.seen at' rfl))
  | giveUp at' free timed =>
      rename_i t op ret
      obtain ⟨rfl, rfl⟩ := timedOut_inv timed
      apply answers_silently
      apply h.take free
      exact .gaveUp (h.seen at' rfl)

theorem sections_simulate (capacity : BitVec w) :
    (machine α capacity.toNat).Simulates id (threads α capacity) (fun _ e => ∀ t, e ≠ .throw t)
      returned fun s a => (code α w).Guarded Safe (Kept capacity) s ∧ Matches s a where
  move s a e s' exit hR quiet hstep := by
    obtain ⟨hs, hmatches⟩ := hR
    have hs' := Monitor.step_guarded (code_keeps capacity) hs hstep
    obtain ⟨trace, b, run, hshown, hb⟩ :=
      move_answered capacity.toNat hs hmatches quiet (Monitor.step_move hstep)
    exact ⟨trace, b, run, hshown, hs', hb⟩

/-- **Sections are atomic.** For every run statement by statement, there is a run section by
section in which the same calls return the same results in the same order. Whenever the mutex is
free, the fields and the threads are the same too. -/
theorem sections_atomic {trace : List (Monitor.Event ThreadId (Op α) ×
      Option (Monitor.Exit ThreadId (Op α) (Ret α)))}
    (run : (threads α capacity).Run (fun _ e => ∀ t, e ≠ .throw t) (Monitor.initial (.new capacity))
      trace s) :
    ∃ sections a, (machine α capacity.toNat).Run (fun _ _ => True) (.initial capacity.toNat)
        sections a ∧
      sections.filterMap (fun x => x.2) = trace.filterMap (fun x => returned x.2) ∧
      (s.mutex = none → a.queue = s.fields.toQueue ∧ ∀ t, s.points t = (a.threads t).point) := by
  have hstart : (code α w).Guarded Safe (Kept capacity)
      (Monitor.initial (.new capacity) : Monitor.State ThreadId _ _ _ _) :=
    Monitor.initial_guarded ⟨Fields.new_agrees capacity, rfl⟩
  have hinitial : Matches (Monitor.initial (.new capacity) :
      Monitor.State ThreadId (Fields α w) (Op α) (Statement α) (Ret α))
      (.initial capacity.toNat) :=
    .free rfl (Fields.new_toQueue capacity).symm fun _ => rfl
  obtain ⟨sections, a, hrun, hshown, -, hmatches⟩ :=
    (sections_simulate capacity).run run ⟨hstart, hinitial⟩
  refine ⟨sections, a, hrun, hshown, fun hfree => ?_⟩
  cases hmatches with
  | free _ queue points => exact ⟨queue, points⟩
  | held mutex _ _ =>
      rw [hfree] at mutex
      cases mutex

/-- What returned calls did to the channel. -/
def account (calls : List (Returned α)) : List (Entry α) :=
  calls.flatMap fun r => entries (.enter r.thread, some r)

theorem history_eq_account (trace : List (Event α × Option (Returned α))) :
    history trace = account (trace.filterMap fun x => x.2) := by
  induction trace with
  | nil => rfl
  | cons x rest ih =>
      obtain ⟨e, out⟩ := x
      have hrest : rest.flatMap entries = account (rest.filterMap fun x => x.2) := ih
      cases out with
      | none =>
          rw [history, List.flatMap_cons, hrest]
          rfl
      | some r =>
          have hentry : entries (e, some r) = entries (.enter r.thread, some r) := by
            obtain ⟨t, op, ret⟩ := r
            cases op <;> cases ret <;> rfl
          rw [history, List.flatMap_cons, hrest, hentry]
          rfl

/-- Statement by statement, too, no element is lost, and none is delivered twice. -/
theorem statements_balance {trace : List (Monitor.Event ThreadId (Op α) ×
      Option (Monitor.Exit ThreadId (Op α) (Ret α)))}
    (run : (threads α capacity).Run (fun _ e => ∀ t, e ≠ .throw t) (Monitor.initial (.new capacity))
      trace s) (hfree : s.mutex = none) :
    let calls := account (trace.filterMap fun x => returned x.2)
    puts (sinceClear calls) = takes (sinceClear calls) ++ s.fields.deque := by
  obtain ⟨sections, a, hrun, hshown, hagree⟩ := sections_atomic run
  obtain ⟨hqueue, -⟩ := hagree hfree
  obtain ⟨l, channelRun, -, hdeque⟩ := run_channel hrun
  have hcontents : s.fields.deque = l.contents := by
    rw [← hdeque, hqueue]
    rfl
  rw [history_eq_account, hshown] at channelRun
  rw [hcontents]
  exact run_balance channelRun

end Netbroker.SyncFifoQueue
