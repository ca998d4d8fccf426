import Netbroker.Dispatcher.Halt

/-!
# What `stop` waits for

A user in `stop`'s `timed_join` keeps `m_dispatcherMutex`, which the worker it waits for
needs at the top of its loop and for routing. Where the worker stands when the wait
begins decides, together with the frames that its session has ahead of the halt message:
one frame that `receiveFromGroup` hands out, and each waits for the other until the
time-out.

`Leaves` counts the steps that are left on the way out, the worker's own and those in which
the daemon orders what the session has multicast, and each such step makes the count smaller.
A frame of somebody else's, or another worker that reads from the same session, may turn the
worker back: there the condition is asked again.
-/

namespace Netbroker

open Spread Transition

/-- Out of the loop: the worker has ended or is in its connection-lost branch. -/
def WorkerPc.hasLeft : WorkerPc → Bool
  | .stopping | .disconnecting | .done _ => true
  | _ => false

/-- At most `n` calls of `SP_receive` on the frames discard what is there until
`receiveFromGroup` returns with a buffer that says halt or, on a closed stream, until
there is nothing left. -/
def Reading.drains (l : Listener) (controlGroup : Str) (closed : Bool) :
    Nat → Reading → List Frame → Bool
  | 0, _, _ => false
  | _ + 1, _, [] => closed
  | n + 1, r, f :: rest =>
      let x := r.receive l.privateGroup f
      match r.resume l x with
      | .call r => drains l controlGroup closed n r (if x.consumed then rest else f :: rest)
      | .returned _ b => b.opCode = sigHaltMsg && b.groupName = controlGroup

section Drains

variable {l : Listener} {controlGroup : Str} {n : Nat} {r : Reading} {frames : List Frame}

/-- If the stream ends earlier, the end of it leads out too. -/
theorem drains_closed {closed : Bool} {more : List Frame}
    (h : r.drains l controlGroup closed n (frames ++ more) = true) :
    r.drains l controlGroup true n frames = true := by
  induction n generalizing r frames with
  | zero => cases h
  | succ n ih =>
      cases frames with
      | nil => rfl
      | cons f rest =>
          simp only [List.cons_append, Reading.drains] at h ⊢
          split at h
          · rename_i r' hresume
            have hframes : (if (r.receive l.privateGroup f).consumed then rest ++ more
                else f :: (rest ++ more)) =
                  (if (r.receive l.privateGroup f).consumed then rest else f :: rest) ++ more := by
              split <;> rfl
            rw [hframes] at h
            exact ih h
          · exact h

end Drains

namespace Spread.Session

/-- What is still to be read if the daemon puts nothing else in front of the session's own
multicasts. -/
def coming (x : Session) : List Frame :=
  if x.closed then x.pending else x.pending ++ x.unordered

theorem coming_of_open {x : Session} (h : x.closed = false) :
    x.coming = x.pending ++ x.unordered := by
  simp [coming, h]

/-- A call works on the head of what is coming. -/
theorem coming_head (x : Session) (f : Frame) (rest : List Frame) (consumed : Bool) :
    ({ x with pending := if consumed then rest else f :: rest } : Session).coming =
      if consumed then ({ x with pending := rest } : Session).coming
      else f :: ({ x with pending := rest } : Session).coming := by
  cases consumed with
  | true => rfl
  | false =>
      simp only [coming, Bool.false_eq_true, if_false]
      split <;> rfl

/-- What a `recv` that ends leaves of its session: a frame that stays or is gone, or the end of
the stream. -/
def readBy (x : Session) (r : Reading) : Session :=
  match x.pending with
  | f :: rest =>
      { x with pending := if (r.receive x.privateGroup f).consumed then rest else f :: rest }
  | [] => { x with active := false }

end Spread.Session

/-- The worker leaves the loop after fewer than `n` steps, its own and those in which the
daemon orders the session's multicasts, without a need of the mutex. -/
inductive Leaves (d : Dispatcher) (n : Nat) : WorkerPc → Prop
  | left {pc : WorkerPc} (left : pc.hasLeft = true) : Leaves d n pc
  /-- The second call fails on the broken session, and its code is returned. -/
  | refused {r : Reading} {x : Session} (session : d.connection.session = some x)
      (broken : x.active = false) (second : r.phase = .second) (enough : 0 < n) :
      Leaves d n (.call r)
  /-- The failure of the first call is ignored. -/
  | broken {r : Reading} {x : Session} (session : d.connection.session = some x)
      (broken : x.active = false) (enough : 1 < n) : Leaves d n (.call r)
  | call {k : Nat} {r : Reading} {x : Session} (session : d.connection.session = some x)
      (drains : r.drains (d.listener x.privateGroup) d.controlGroup x.closed k x.coming = true)
      (enough : 2 * k + 1 + x.unordered.length < n) : Leaves d n (.call r)
  | inside {k : Nat} {r : Reading} {x : Session} (session : d.connection.session = some x)
      (drains : r.drains (d.listener x.privateGroup) d.controlGroup x.closed k x.coming = true)
      (enough : 2 * k + x.unordered.length < n) :
      Leaves d n (.inside d.connection.connector.spreadMbox r)

namespace Leaves

variable {d : Dispatcher} {n : Nat} {pc : WorkerPc}

theorem isReading (h : Leaves d n pc) (inside : ¬ pc.hasLeft = true) : pc.isReading = true := by
  cases h with
  | left left => exact absurd left inside
  | _ => rfl

theorem setQueue (h : Leaves d n pc) (q : QueueId) (queue : SyncFifoQueue Buffer) :
    Leaves (d.setQueue q queue) n pc := by
  cases h with
  | left left => exact .left left
  | refused session broken second enough => exact .refused session broken second enough
  | broken session broken enough => exact .broken session broken enough
  | call session drains enough => exact .call session drains enough
  | inside session drains enough => exact .inside session drains enough

/-- The network changes the session: it breaks or stays broken, and what is coming on an
intact one still leads out. -/
theorem network {spread : Library} (h : Leaves d n pc)
    (changes : ∀ x, d.connection.session = some x →
      ∃ x', Connection.session { d.connection with spread } = some x' ∧
        x'.privateGroup = x.privateGroup ∧ x'.active = x.active ∧
        x'.unordered.length ≤ x.unordered.length ∧
        ∀ l controlGroup k r, Reading.drains l controlGroup x.closed k r x.coming = true →
          Reading.drains l controlGroup x'.closed k r x'.coming = true) :
    Leaves { d with connection := { d.connection with spread } } n pc := by
  cases h with
  | left left => exact .left left
  | refused session broken second enough =>
      obtain ⟨x', hsession, -, hactive, -⟩ := changes _ session
      exact .refused hsession (hactive.trans broken) second enough
  | broken session broken enough =>
      obtain ⟨x', hsession, -, hactive, -⟩ := changes _ session
      exact .broken hsession (hactive.trans broken) enough
  | call session drains enough =>
      obtain ⟨x', hsession, hprivate, -, hle, hdrains⟩ := changes _ session
      exact .call hsession (hprivate ▸ hdrains _ _ _ _ drains) (by omega)
  | inside session drains enough =>
      obtain ⟨x', hsession, hprivate, -, hle, hdrains⟩ := changes _ session
      exact .inside hsession (hprivate ▸ hdrains _ _ _ _ drains) (by omega)

theorem order {mbox : Mailbox} {spread : Library} (h : Leaves d n pc)
    (horder : Spread.order d.connection.spread mbox = some spread) :
    Leaves { d with connection := { d.connection with spread } } n pc := by
  refine h.network fun x hx => ?_
  rw [Spread.order] at horder
  split at horder
  · cases horder
  · rename_i y hy
    split at horder
    · cases horder
    · rename_i f rest hunordered
      split at horder
      · cases horder
      · rename_i hopen
        obtain rfl := Option.some.inj horder
        by_cases hmbox : d.connection.connector.spreadMbox = mbox
        · subst hmbox
          obtain rfl : x = y := Option.some.inj (hx.symm.trans hy)
          refine ⟨_, Library.set_sessions_self .., rfl, rfl, by simp [hunordered],
            fun l controlGroup k r hdrains => ?_⟩
          simpa [Session.coming, hopen, hunordered] using hdrains
        · exact ⟨x, (Library.set_sessions_of_ne _ hmbox _).trans hx, rfl, rfl, le_rfl,
            fun _ _ _ _ hdrains => hdrains⟩

theorem hangUp {mbox : Mailbox} {spread : Library} (h : Leaves d n pc)
    (hhang : Spread.hangUp d.connection.spread mbox = some spread) :
    Leaves { d with connection := { d.connection with spread } } n pc := by
  refine h.network fun x hx => ?_
  rw [Spread.hangUp] at hhang
  split at hhang
  · cases hhang
  · rename_i y hy
    obtain rfl := Option.some.inj hhang
    by_cases hmbox : d.connection.connector.spreadMbox = mbox
    · subst hmbox
      obtain rfl : x = y := Option.some.inj (hx.symm.trans hy)
      refine ⟨_, Library.set_sessions_self .., rfl, rfl, le_rfl,
        fun l controlGroup k r hdrains => ?_⟩
      -- what has no place yet never gets one
      cases hclosed : x.closed with
      | true => simpa [Session.coming, hclosed] using hdrains
      | false =>
          rw [Session.coming_of_open hclosed, hclosed] at hdrains
          exact drains_closed hdrains
    · exact ⟨x, (Library.set_sessions_of_ne _ hmbox _).trans hx, rfl, rfl, le_rfl,
        fun _ _ _ _ hdrains => hdrains⟩

end Leaves

namespace Dispatcher

variable {d : Dispatcher}

@[simp] theorem setSession_session (d : Dispatcher) (x : Session) :
    (d.setSession d.connection.connector.spreadMbox x).connection.session = some x :=
  Library.set_sessions_self ..

/-- What is coming on the session leads the reader out. A call takes a frame off or is
followed by one that does, so twice as many calls as there are frames are enough. -/
def drained (d : Dispatcher) (x : Session) (r : Reading) : Bool :=
  r.drains (d.listener x.privateGroup) d.controlGroup x.closed (2 * x.coming.length + 2) x.coming

/-- The worker has left the loop, or reads a session that is broken or leads it out. -/
def leadsOut (d : Dispatcher) : WorkerPc → Bool
  | .call r => d.connection.session.any fun x => !x.active || d.drained x r
  | .inside mbox r =>
      mbox = d.connection.connector.spreadMbox && d.connection.session.any fun x => d.drained x r
  | pc => pc.hasLeft

theorem leadsOut_leaves {pc : WorkerPc} (h : d.leadsOut pc = true) : ∃ n, Leaves d n pc := by
  cases pc with
  | call r =>
      obtain ⟨x, hsession, hx⟩ := (Option.any_eq_true _ _).mp h
      cases hactive : x.active with
      | true =>
          have hdrains : d.drained x r = true := by simpa [hactive] using hx
          exact ⟨_, .call hsession hdrains (Nat.lt_succ_self _)⟩
      | false => exact ⟨2, .broken hsession hactive Nat.one_lt_two⟩
  | inside mbox r =>
      obtain ⟨hmbox, hany⟩ := (Bool.and_eq_true _ _).mp h
      obtain rfl := of_decide_eq_true hmbox
      obtain ⟨x, hsession, hx⟩ := (Option.any_eq_true _ _).mp hany
      exact ⟨_, .inside hsession hx (Nat.lt_succ_self _)⟩
  | _ => exact ⟨0, .left h⟩

end Dispatcher

namespace World

variable {s : World} {w : WorkerId} {t : ThreadId}

/-- A call that fails on a broken session goes on to the second call, and after that out
of the loop. -/
theorem failed_leaves {d : Dispatcher} {x : Session} (s : World) (w : WorkerId) (r : Reading)
    {code : Int} (hcode : code = connectionClosed ∨ code = netErrorOnSession)
    (session : d.connection.session = some x) (broken : x.active = false) :
    ∃ pc o m, (s.setDispatcher d).resume w x.privateGroup r (r.failed code) =
        ((s.setDispatcher d).setWorker w pc, o) ∧
      m ≤ 1 ∧ (r.phase = .second → m = 0) ∧ Leaves d m pc := by
  cases hphase : r.phase with
  | first =>
      refine ⟨.call { phase := .second, slots := r.slots }, .silent, 1, ?_, le_rfl, ?_,
        .refused session broken rfl Nat.one_pos⟩
      · simp only [resume, Reading.resume, hphase, Reading.failed]
      · intro hsecond
        cases hsecond
  | second =>
      have hverdict : verdict (d.listener x.privateGroup) (r.failed code) = some code := by
        rcases hcode with rfl | rfl <;> rfl
      have hnegative : ¬ 0 ≤ code := by rcases hcode with rfl | rfl <;> decide
      have hleft : (d.afterReceive code (filledBuffer (r.failed code))).hasLeft = true := by
        rw [Dispatcher.afterReceive]
        rw [if_neg hnegative, if_pos hcode]
        split <;> rfl
      refine ⟨_, .received w code (filledBuffer (r.failed code)), 0, ?_, Nat.zero_le 1,
        fun _ => rfl, .left hleft⟩
      simp only [resume, Reading.resume, hphase, hverdict, setDispatcher_dispatcher]

/-- The worker's next step is one on its way out, with fewer than `n` left after it. -/
def StepsOut (s : World) (w : WorkerId) (sent : Bool) (n : Nat) : Prop :=
  ∃ d pc o m, s.step (.job w sent) = some ((s.setDispatcher d).setWorker w pc, o) ∧
    d.thread = s.dispatcher.thread ∧ m < n ∧ Leaves d m pc

section Steps

variable {n k : Nat} {r : Reading} {x : Session} {sent : Bool}

/-- A call on a broken session, by the number of the call. -/
theorem broken_stepsOut (at' : s.workers w = some (.call r))
    (session : s.dispatcher.connection.session = some x) (broken : x.active = false)
    (enough : r.phase = .second ∧ 0 < n ∨ 1 < n) : s.StepsOut w sent n := by
  obtain ⟨pc, o, m, hresume, hm, hsecond, hleaves⟩ :=
    s.failed_leaves w r (.inr rfl) session broken
  refine ⟨s.dispatcher, pc, o, m, ?_, rfl, ?_, hleaves⟩
  · simp only [step, at', jobStep, enterReceive, session, broken]
    exact congrArg some hresume
  · rcases enough with ⟨hphase, hpos⟩ | hone
    · rw [hsecond hphase]
      exact hpos
    · omega

theorem enter_stepsOut (at' : s.workers w = some (.call r))
    (session : s.dispatcher.connection.session = some x) (active : x.active = true)
    (drains : r.drains (s.dispatcher.listener x.privateGroup) s.dispatcher.controlGroup x.closed k
      x.coming = true) (enough : 2 * k + 1 + x.unordered.length < n) : s.StepsOut w sent n := by
  refine ⟨s.dispatcher, _, .silent, 2 * k + 1 + x.unordered.length, ?_, rfl, enough,
    .inside session drains (by omega)⟩
  simp only [step, at', jobStep, enterReceive, session, active, if_true]
  rfl

/-- The `recv` meets the end of the stream, and the session breaks. -/
theorem end_stepsOut
    (at' : s.workers w = some (.inside s.dispatcher.connection.connector.spreadMbox r))
    (session : s.dispatcher.connection.session = some x) (pending : x.pending = [])
    (closed : x.closed = true) (enough : 1 < n) : s.StepsOut w sent n := by
  obtain ⟨d, hd⟩ : ∃ d, d = s.dispatcher.setSession s.dispatcher.connection.connector.spreadMbox
      { x with active := false, pending := [], closed := true } := ⟨_, rfl⟩
  have hsession : d.connection.session =
      some { x with active := false, pending := [], closed := true } := by
    rw [hd, Dispatcher.setSession_session]
  obtain ⟨pc, o, m, hresume, hm, -, hleaves⟩ := s.failed_leaves w r (.inl rfl) hsession rfl
  refine ⟨d, pc, o, m, ?_, by rw [hd]; rfl, by omega, hleaves⟩
  have hsessions : s.dispatcher.connection.spread.sessions
      s.dispatcher.connection.connector.spreadMbox = some x := session
  simp only [step, at', jobStep, endReceive, hsessions, pending, closed, if_true, ← hd]
  exact congrArg some hresume

/-- The `recv` gets a frame. -/
theorem frame_stepsOut {f : Frame} {rest : List Frame}
    (at' : s.workers w = some (.inside s.dispatcher.connection.connector.spreadMbox r))
    (session : s.dispatcher.connection.session = some x) (pending : x.pending = f :: rest)
    (drains : r.drains (s.dispatcher.listener x.privateGroup) s.dispatcher.controlGroup x.closed
      (k + 1) x.coming = true) (enough : 2 * (k + 1) + x.unordered.length < n) :
    s.StepsOut w sent n := by
  generalize hy : r.receive x.privateGroup f = y
  obtain ⟨x', hx'⟩ : ∃ x' : Session,
      x' = { x with pending := if y.consumed then rest else f :: rest } := ⟨_, rfl⟩
  obtain ⟨d, hd⟩ : ∃ d, d = s.dispatcher.setSession
      s.dispatcher.connection.connector.spreadMbox x' := ⟨_, rfl⟩
  have hsession : d.connection.session = some x' := by rw [hd, Dispatcher.setSession_session]
  have hsessions : s.dispatcher.connection.spread.sessions
      s.dispatcher.connection.connector.spreadMbox = some x := session
  have hend : s.step (.job w sent) = some ((s.setDispatcher d).resume w x.privateGroup r y) := by
    simp only [step, at', jobStep, endReceive, hsessions, pending, hy, ← hx', ← hd]
  -- only the session is another one
  have hsame : d.listener x'.privateGroup = s.dispatcher.listener x.privateGroup ∧
      d.controlGroup = s.dispatcher.controlGroup ∧ d.thread = s.dispatcher.thread := by
    subst hd hx'
    exact ⟨rfl, rfl, rfl⟩
  have hlistener : d.listener x.privateGroup = s.dispatcher.listener x.privateGroup := by
    subst hd
    rfl
  have hclosed : x'.closed = x.closed := by rw [hx']
  have hlength : x'.unordered.length = x.unordered.length := by rw [hx']
  have hreceive : r.receive (d.listener x'.privateGroup).privateGroup f = y := by
    rw [hsame.1]
    exact hy
  have hcoming : x.coming = f :: ({ x with pending := rest } : Session).coming := by
    have hhead := Session.coming_head x f rest false
    rw [if_neg Bool.false_ne_true, if_neg Bool.false_ne_true, ← pending] at hhead
    exact hhead
  have hcoming' : x'.coming = if y.consumed then ({ x with pending := rest } : Session).coming
      else f :: ({ x with pending := rest } : Session).coming := by
    rw [hx', Session.coming_head]
  rw [← hsame.1, ← hsame.2.1, ← hclosed, hcoming, Reading.drains] at drains
  simp only [hreceive, ← hcoming'] at drains
  split at drains
  · rename_i r' hresume
    rw [hsame.1, ← hlistener] at hresume
    refine ⟨d, .call r', .silent, 2 * k + 2 + x'.unordered.length, ?_, hsame.2.2, by omega,
      .call hsession drains (by omega)⟩
    rw [hend, resume, setDispatcher_dispatcher, hresume]
  · rename_i ret b hresume
    rw [hsame.1, ← hlistener] at hresume
    refine ⟨d, d.afterReceive ret b, .received w ret b, 0, ?_, hsame.2.2, by omega, .left ?_⟩
    · rw [hend, resume, setDispatcher_dispatcher, hresume]
    · rw [Dispatcher.afterReceive, if_pos (by simpa using drains)]
      rfl

/-- The daemon can order the session's oldest multicast, and fewer steps are left then. -/
def OrdersOut (s : World) (n : Nat) (pc : WorkerPc) : Prop :=
  ∃ mbox d m, s.step (.order mbox) = some (s.setDispatcher d, .silent) ∧ m < n ∧ Leaves d m pc

/-- The `recv` waits for a multicast that the daemon has not ordered yet. -/
theorem inside_ordersOut (session : s.dispatcher.connection.session = some x)
    (pending : x.pending = []) (hopen : x.closed = false)
    (drains : r.drains (s.dispatcher.listener x.privateGroup) s.dispatcher.controlGroup x.closed
      (k + 1) x.coming = true) (enough : 2 * (k + 1) + x.unordered.length < n) :
    s.OrdersOut n (.inside s.dispatcher.connection.connector.spreadMbox r) := by
  have hcoming : x.coming = x.unordered := by
    rw [Session.coming_of_open hopen, pending, List.nil_append]
  cases hunordered : x.unordered with
  | nil =>
      rw [hcoming, hunordered, hopen] at drains
      cases drains
  | cons f rest =>
      obtain ⟨x', hx'⟩ : ∃ x' : Session, x' = { x with pending := [f], unordered := rest } :=
        ⟨_, rfl⟩
      obtain ⟨d, hd⟩ : ∃ d, d = s.dispatcher.setSession
          s.dispatcher.connection.connector.spreadMbox x' := ⟨_, rfl⟩
      have hsession : d.connection.session = some x' := by rw [hd, Dispatcher.setSession_session]
      have hsessions : s.dispatcher.connection.spread.sessions
          s.dispatcher.connection.connector.spreadMbox = some x := session
      have hcoming' : x'.coming = x.coming := by
        rw [hcoming, hunordered, hx']
        simp [Session.coming, hopen]
      have hlength : x'.unordered.length + 1 = x.unordered.length := by
        rw [hx', hunordered]
        rfl
      have hdrains : r.drains (d.listener x'.privateGroup) d.controlGroup x'.closed (k + 1)
          x'.coming = true := by
        rw [hcoming']
        subst hd hx'
        exact drains
      have hmbox : s.dispatcher.connection.connector.spreadMbox =
          d.connection.connector.spreadMbox := by rw [hd]; rfl
      refine ⟨s.dispatcher.connection.connector.spreadMbox, d, n - 1, ?_, by omega, ?_⟩
      · simp only [step, Spread.order, hsessions, hunordered, pending, hopen, List.nil_append,
          Bool.false_eq_true, if_false]
        rw [hd, hx', hopen]
        rfl
      · rw [hmbox]
        exact .inside hsession hdrains (by omega)

/-- One step of a worker that reads on its way out, or of the daemon ahead of it. -/
theorem leaves_step {pc : WorkerPc} (h : Leaves s.dispatcher n pc)
    (at' : s.workers w = some pc) (reading : pc.isReading = true) (sent : Bool) :
    s.StepsOut w sent n ∨ s.step (.job w sent) = none ∧ s.OrdersOut n pc := by
  cases h with
  | left left => cases pc <;> simp_all [WorkerPc.hasLeft, WorkerPc.isReading]
  | refused session broken second enough =>
      exact .inl (broken_stepsOut at' session broken (.inl ⟨second, enough⟩))
  | broken session broken enough => exact .inl (broken_stepsOut at' session broken (.inr enough))
  | @call k _ x session drains enough =>
      refine .inl ?_
      cases hactive : x.active with
      | true => exact enter_stepsOut at' session hactive drains enough
      | false => exact broken_stepsOut at' session hactive (.inr (by grind [Reading.drains]))
  | @inside k _ x session drains enough =>
      cases k with
      | zero => cases drains
      | succ k =>
          cases hpending : x.pending with
          | cons f rest => exact .inl (frame_stepsOut at' session hpending drains enough)
          | nil =>
              cases hclosed : x.closed with
              | true => exact .inl (end_stepsOut at' session hpending hclosed (by omega))
              | false =>
                  refine .inr ⟨?_, inside_ordersOut session hpending hclosed drains enough⟩
                  have hsessions : s.dispatcher.connection.spread.sessions
                      s.dispatcher.connection.connector.spreadMbox = some x := session
                  simp only [step, at', jobStep, endReceive, hsessions, hpending, hclosed,
                    Bool.false_eq_true, if_false]

end Steps

/-- What is coming on the session of `d` takes the worker that `stop` joins out of its loop. -/
def goesOut (s : World) (d : Dispatcher) : Bool :=
  s.dispatcher.thread.all fun w => (s.workers w).any d.leadsOut

/-- A user waits in `stop`. -/
def userWaits (s : World) : Bool :=
  match s.holder with
  | some (.user _) => true
  | _ => false

/-- What a worker that is in its `recv` leaves of the sessions. -/
def leftBy (s : World) (w : WorkerId) : Option Dispatcher :=
  match s.workers w with
  | some (.inside mbox r) =>
      (s.dispatcher.connection.spread.sessions mbox).map fun x =>
        s.dispatcher.setSession mbox (x.readBy r)
  | _ => none

/-- `stop` finds its worker where what is coming, the halt message behind it, takes that worker
out of the loop. While a user waits the same holds with a frame of somebody else's that the
daemon orders, and of what is left by another worker that reads from a session. -/
def undisturbed (s : World) : Event → Bool
  | .stop _ sent =>
      match s.dispatcher.requestStop sent with
      | (.ok _, d) => s.goesOut d
      | (.error _, _) => true
  | .deliver mbox f =>
      !s.userWaits || (Spread.deliver s.dispatcher.connection.spread mbox f).all fun spread =>
        s.goesOut { s.dispatcher with connection := { s.dispatcher.connection with spread } }
  | .job w _ => !s.userWaits || s.dispatcher.thread = some w || (s.leftBy w).all s.goesOut
  | _ => true

/-- The worker that a user waits for leaves the loop by itself. -/
def WaitedLeaves (s : World) : Prop :=
  ∀ t w, s.holder = some (.user t) → s.dispatcher.thread = some w →
    ∃ n pc, s.workers w = some pc ∧ Leaves s.dispatcher n pc

theorem WaitedLeaves.of_goesOut {s' : World} (h : s.goesOut s'.dispatcher = true)
    (hthread : s'.dispatcher.thread = s.dispatcher.thread)
    (hsame : ∀ w, s.dispatcher.thread = some w → s'.workers w = s.workers w) :
    s'.WaitedLeaves := by
  intro t w _ hw
  have hw : s.dispatcher.thread = some w := hthread.symm.trans hw
  simp only [goesOut, hw, Option.all_some] at h
  obtain ⟨pc, hpc, hleads⟩ := (Option.any_eq_true _ _).mp h
  obtain ⟨n, hleaves⟩ := Dispatcher.leadsOut_leaves hleads
  exact ⟨n, pc, (hsame w hw).trans hpc, hleaves⟩

theorem WaitedLeaves.free (hfree : s.holder = none) : s.WaitedLeaves := by
  intro t w hholder
  rw [hfree] at hholder
  cases hholder

theorem WaitedLeaves.deliver {s' : World} {mbox : Mailbox} {f : Frame} {o : Observation}
    (undisturbed : s.undisturbed (.deliver mbox f) = true)
    (hstep : s.step (.deliver mbox f) = some (s', o)) : s'.WaitedLeaves := by
  simp only [step] at hstep
  split at hstep
  · cases hstep
  · rename_i spread hdeliver
    obtain ⟨rfl, -⟩ := Prod.mk.inj (Option.some.inj hstep)
    intro t w hholder
    have held : s.holder = some (.user t) := hholder
    simp only [World.undisturbed, userWaits, held, hdeliver, Bool.not_true, Bool.false_or,
      Option.all_some] at undisturbed
    have hwaited : (s.setDispatcher { s.dispatcher with
        connection := { s.dispatcher.connection with spread } }).WaitedLeaves :=
      of_goesOut (s := s) undisturbed rfl fun _ _ => rfl
    exact hwaited t w hholder

theorem WaitedLeaves.order {s' : World} {mbox : Mailbox} {o : Observation}
    (h : s.WaitedLeaves) (hstep : s.step (.order mbox) = some (s', o)) : s'.WaitedLeaves := by
  simp only [step] at hstep
  split at hstep
  · cases hstep
  · rename_i spread horder
    obtain ⟨rfl, -⟩ := Prod.mk.inj (Option.some.inj hstep)
    intro t w hholder hthread
    obtain ⟨n, pc, at', hleaves⟩ := h t w hholder hthread
    exact ⟨n, pc, at', hleaves.order horder⟩

theorem WaitedLeaves.hangUp {s' : World} {mbox : Mailbox} {o : Observation}
    (h : s.WaitedLeaves) (hstep : s.step (.hangUp mbox) = some (s', o)) : s'.WaitedLeaves := by
  simp only [step] at hstep
  split at hstep
  · cases hstep
  · rename_i spread hhang
    obtain ⟨rfl, -⟩ := Prod.mk.inj (Option.some.inj hstep)
    intro t w hholder hthread
    obtain ⟨n, pc, at', hleaves⟩ := h t w hholder hthread
    exact ⟨n, pc, at', hleaves.hangUp hhang⟩

theorem jobMove_holder {s' : World} {pc : WorkerPc} {o : Observation} (h : JobMove s w pc s' o) :
    s'.holder = s.holder ∨ s'.holder = some (.worker w) := by
  cases h with
  | stopSends => exact .inr rfl
  | _ => exact .inl rfl

/-- A step of the worker waited for. -/
theorem WaitedLeaves.job {s' : World} {pc : WorkerPc} {sent : Bool} {o : Observation}
    (h : s.WaitedLeaves) (thread : s.dispatcher.thread = some w) (at' : s.workers w = some pc)
    (move : JobMove s w pc s' o) (hstep : s.step (.job w sent) = some (s', o)) :
    s'.WaitedLeaves := by
  intro t w' hholder hthread
  have hheld : s.holder = some (.user t) := by
    obtain hsame | hself := jobMove_holder move
    · exact hsame ▸ hholder
    · rw [hself] at hholder
      cases hholder
  obtain ⟨n, pc₀, at₀, hleaves⟩ := h t w hheld thread
  obtain rfl : pc = pc₀ := Option.some.inj (at'.symm.trans at₀)
  by_cases hleft : pc.hasLeft = true
  · -- what is left of its way needs the mutex
    cases pc <;> simp_all [step, jobStep, WorkerPc.hasLeft]
  · obtain ⟨d, pc', o', m, hmove, hsame, -, hleaves'⟩ | ⟨hwaits, -⟩ :=
      leaves_step hleaves at' (hleaves.isReading hleft) sent
    · obtain ⟨rfl, -⟩ := Prod.mk.inj (Option.some.inj (hmove.symm.trans hstep))
      have hthread : d.thread = some w' := hthread
      obtain rfl : w = w' := Option.some.inj (thread.symm.trans (hsame.symm.trans hthread))
      exact ⟨m, pc', Function.update_self .., hleaves'⟩
    · rw [hwaits] at hstep
      cases hstep

/-- What another worker can do meanwhile: it has no use of the mutex. -/
theorem job_aside {s' : World} {pc : WorkerPc} {sent : Bool} {o : Observation}
    (held : s.holder = some (.user t)) (at' : s.workers w = some pc)
    (hstep : s.step (.job w sent) = some (s', o)) :
    ∃ d pc', s' = (s.setDispatcher d).setWorker w pc' ∧
      (d = s.dispatcher ∨ (∃ q queue, d = s.dispatcher.setQueue q queue) ∨ s.leftBy w = some d) := by
  have resumed : ∀ {d : Dispatcher} {privateGroup : Str} {r : Reading} {x : Reception},
      (s.setDispatcher d).resume w privateGroup r x = (s', o) →
        ∃ pc', s' = (s.setDispatcher d).setWorker w pc' := by
    intro d privateGroup r x h
    rw [resume] at h
    split at h
    · exact ⟨_, (congrArg Prod.fst h).symm⟩
    · exact ⟨_, (congrArg Prod.fst h).symm⟩
  have blocked : s.holder.isSome = true := by rw [held]; rfl
  simp only [step, at'] at hstep
  cases pc with
  | call r =>
      have h := Option.some.inj hstep
      rw [enterReceive] at h
      split at h
      · obtain ⟨pc', hs⟩ := resumed (d := s.dispatcher) h
        exact ⟨_, pc', hs, .inl rfl⟩
      · split at h
        · exact ⟨s.dispatcher, _, (congrArg Prod.fst h).symm, .inl rfl⟩
        · obtain ⟨pc', hs⟩ := resumed (d := s.dispatcher) h
          exact ⟨_, pc', hs, .inl rfl⟩
  | inside mbox r =>
      simp only [jobStep, endReceive] at hstep
      split at hstep
      · obtain ⟨pc', hs⟩ := resumed (d := s.dispatcher) (Option.some.inj hstep)
        exact ⟨_, pc', hs, .inl rfl⟩
      · rename_i x hsession
        have hleft : s.leftBy w = some (s.dispatcher.setSession mbox (x.readBy r)) := by
          simp only [leftBy, at', hsession, Option.map_some]
        split at hstep
        · rename_i f rest hpending
          obtain ⟨pc', hs⟩ := resumed (Option.some.inj hstep)
          rw [Session.readBy, hpending] at hleft
          exact ⟨_, pc', hs, .inr (.inr hleft)⟩
        · rename_i hpending
          have hread : x.readBy r = { x with active := false } := by
            simp only [Session.readBy, hpending]
          split at hstep
          · obtain ⟨pc', hs⟩ := resumed (Option.some.inj hstep)
            exact ⟨_, pc', hs, .inr (.inr (hread ▸ hleft))⟩
          · cases hstep
  | push q b =>
      simp only [jobStep] at hstep
      split at hstep
      · cases hstep
      · obtain ⟨rfl, -⟩ := Prod.mk.inj (Option.some.inj hstep)
        exact ⟨_, _, rfl, .inr (.inl ⟨q, _, rfl⟩)⟩
  | done => cases hstep
  | _ =>
      simp only [jobStep, blocked, if_true] at hstep
      cases hstep

theorem WaitedLeaves.aside {s' : World} {pc : WorkerPc} {sent : Bool} {o : Observation}
    (h : s.WaitedLeaves) (hthread : s.dispatcher.thread ≠ some w) (held : s.holder = some (.user t))
    (undisturbed : (s.leftBy w).all s.goesOut = true) (at' : s.workers w = some pc)
    (hstep : s.step (.job w sent) = some (s', o)) : s'.WaitedLeaves := by
  obtain ⟨d, pc', rfl, hd⟩ := job_aside held at' hstep
  have hother : ∀ {w'}, s.dispatcher.thread = some w' →
      ((s.setDispatcher d).setWorker w pc').workers w' = s.workers w' := by
    intro w' hw'
    exact Function.update_of_ne (by rintro rfl; exact hthread hw') ..
  obtain rfl | ⟨q, queue, rfl⟩ | hleft := hd
  · intro t' w' hholder hw'
    obtain ⟨n, pc₀, at₀, hleaves⟩ := h t' w' hholder hw'
    exact ⟨n, pc₀, (hother hw').trans at₀, hleaves⟩
  · intro t' w' hholder hw'
    obtain ⟨n, pc₀, at₀, hleaves⟩ := h t' w' hholder hw'
    exact ⟨n, pc₀, (hother hw').trans at₀, hleaves.setQueue q queue⟩
  · rw [hleft, Option.all_some] at undisturbed
    refine .of_goesOut (s := s) undisturbed ?_ fun w' hw' => hother hw'
    -- a session is all that has changed
    rw [leftBy] at hleft
    split at hleft
    · obtain ⟨x, -, rfl⟩ := Option.map_eq_some_iff.mp hleft
      rfl
    · cases hleft

end World

end Netbroker
