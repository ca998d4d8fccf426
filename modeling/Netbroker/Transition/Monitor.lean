import Mathlib.Logic.Function.Basic
import Netbroker.Transition.Machine

/-!
# Monitors

Fields behind one mutex and one condition variable, and any number of threads that call. A call
takes the mutex and looks at the fields. Either it goes to sleep, which gives the mutex back, or
it executes statements, one a step, and gives the mutex back behind the last of them. Threads
without the mutex move in between.

What holds of the fields while the mutex is free is an invariant of the monitor if the
statements of a call lead from it back to it. `Restores` is that condition on the statements
left to execute, with what each of them needs to be safe.

`Move` tells the steps apart by where the thread stands. `reachable_guarded` is the rule: if
each call, by itself, restores the invariant, the threads may interleave as they like.
-/

namespace Transition

/-- The code of a monitor with fields `σ`, calls `ι`, statements `κ` and results `ρ`. -/
structure Monitor (σ ι κ ρ : Type*) where
  /-- A call with the mutex has a reason to sleep (`none`), or a result so far and statements. -/
  enter : ι → σ → Option (ρ × List κ)
  exec : κ → σ → σ
  /-- The result behind a statement. -/
  result : κ → σ → ρ → ρ
  notifies : κ → Bool
  /-- The statement may throw; the fields are then what they were ahead of it. -/
  throws : κ → Bool
  /-- The result of a call that finds the mutex taken and does not wait for it. -/
  refused : ι → Option ρ
  /-- The result of a call whose timed wait is over; `none` where the wait has no time. -/
  timedOut : ι → Option ρ

namespace Monitor

/-- Where a thread stands. -/
inductive Point (ι κ ρ : Type*) where
  | idle
  /-- It has called, and waits for the mutex. -/
  | entering (op : ι)
  /-- It has the mutex, and is about to look at the fields. -/
  | locked (op : ι)
  /-- It has the mutex, and statements to execute. -/
  | running (op : ι) (result : ρ) (rest : List κ)
  | asleep (op : ι) (notified : Bool)
  /-- It has left the wait, and waits for the mutex. -/
  | waking (op : ι) (timedOut : Bool)
  deriving DecidableEq

structure State (θ σ ι κ ρ : Type*) where
  fields : σ
  mutex : Option θ
  points : θ → Point ι κ ρ

inductive Event (θ ι : Type*) where
  | call (t : θ) (op : ι)
  | lock (t : θ)
  | refuse (t : θ)
  /-- Look at the fields. -/
  | check (t : θ)
  /-- Execute a statement. -/
  | run (t : θ)
  | throw (t : θ)
  | leave (t : θ)
  | wake (t : θ)
  /-- A wait may end without a notification. -/
  | spurious (t : θ)
  | timeOut (t : θ)
  | relock (t : θ)
  deriving DecidableEq

/-- The end of a call, by an exception if there is no result. -/
structure Exit (θ ι ρ : Type*) where
  thread : θ
  op : ι
  result : Option ρ
  deriving DecidableEq

variable {θ σ ι κ ρ : Type*}

namespace Point

/-- A notification reaches every sleeper. -/
def notify : Point ι κ ρ → Point ι κ ρ
  | .asleep op _ => .asleep op true
  | p => p

/-- The thread is between taking the mutex and giving it back. -/
def inside : Point ι κ ρ → Bool
  | .locked _ | .running .. => true
  | _ => false

@[simp] theorem notify_inside (p : Point ι κ ρ) : p.notify.inside = p.inside := by
  cases p <;> rfl

end Point

namespace State

variable [DecidableEq θ]

def set (s : State θ σ ι κ ρ) (t : θ) (p : Point ι κ ρ) : State θ σ ι κ ρ :=
  { s with points := Function.update s.points t p }

/-- The thread takes the mutex. -/
def take (s : State θ σ ι κ ρ) (t : θ) (p : Point ι κ ρ) : State θ σ ι κ ρ :=
  { s.set t p with mutex := some t }

/-- The thread gives the mutex back. -/
def free (s : State θ σ ι κ ρ) (t : θ) (p : Point ι κ ρ) : State θ σ ι κ ρ :=
  { s.set t p with mutex := none }

section Fields

variable (s : State θ σ ι κ ρ) (t : θ) (p : Point ι κ ρ)

@[simp] theorem set_fields : (s.set t p).fields = s.fields := rfl
@[simp] theorem set_mutex : (s.set t p).mutex = s.mutex := rfl
@[simp] theorem set_points : (s.set t p).points = Function.update s.points t p := rfl

@[simp] theorem take_fields : (s.take t p).fields = s.fields := rfl
@[simp] theorem take_mutex : (s.take t p).mutex = some t := rfl
@[simp] theorem take_points : (s.take t p).points = Function.update s.points t p := rfl

@[simp] theorem free_fields : (s.free t p).fields = s.fields := rfl
@[simp] theorem free_mutex : (s.free t p).mutex = none := rfl
@[simp] theorem free_points : (s.free t p).points = Function.update s.points t p := rfl

end Fields

omit [DecidableEq θ] in
/-- The statement that the thread is about to execute. -/
def executes (s : State θ σ ι κ ρ) (t : θ) : Option κ :=
  match s.points t with
  | .running _ _ (k :: _) => some k
  | _ => none

end State

variable [DecidableEq θ] (M : Monitor σ ι κ ρ)

/-- The thread executes a statement and has `rest` left. -/
def execute (s : State θ σ ι κ ρ) (t : θ) (op : ι) (r : ρ) (k : κ) (rest : List κ) :
    State θ σ ι κ ρ :=
  let points := if M.notifies k then fun u => (s.points u).notify else s.points
  { s with fields := M.exec k s.fields, points }.set t (.running op (M.result k s.fields r) rest)

section Execute

variable (s : State θ σ ι κ ρ) (t : θ) (op : ι) (r : ρ) (k : κ) (rest : List κ)

@[simp] theorem execute_fields : (M.execute s t op r k rest).fields = M.exec k s.fields := rfl
@[simp] theorem execute_mutex : (M.execute s t op r k rest).mutex = s.mutex := rfl

@[simp] theorem execute_points_self :
    (M.execute s t op r k rest).points t = .running op (M.result k s.fields r) rest :=
  Function.update_self ..

theorem execute_points_of_ne {u : θ} (hu : u ≠ t) : (M.execute s t op r k rest).points u =
    if M.notifies k then (s.points u).notify else s.points u := by
  refine (Function.update_of_ne hu ..).trans ?_
  split <;> rfl

end Execute

/-- The fields and the result behind the statements, and whether a notification goes out, given
that one has (`told`). -/
def finish : List κ → σ → ρ → Bool → σ × ρ × Bool
  | [], f, r, told => (f, r, told)
  | k :: rest, f, r, told => finish rest (M.exec k f) (M.result k f r) (told || M.notifies k)

def step (s : State θ σ ι κ ρ) :
    Event θ ι → Option (State θ σ ι κ ρ × Option (Exit θ ι ρ))
  | .call t op =>
      match s.points t with
      | .idle => some (s.set t (.entering op), none)
      | _ => none
  | .lock t =>
      match s.points t, s.mutex with
      | .entering op, none => some (s.take t (.locked op), none)
      | _, _ => none
  | .refuse t =>
      match s.points t, s.mutex with
      | .entering op, some _ =>
          (M.refused op).map fun r => (s.set t .idle, some ⟨t, op, some r⟩)
      | _, _ => none
  | .check t =>
      match s.points t with
      | .locked op =>
          match M.enter op s.fields with
          | none => some (s.free t (.asleep op false), none)
          | some (r, rest) => some (s.set t (.running op r rest), none)
      | _ => none
  | .run t =>
      match s.points t with
      | .running op r (k :: rest) => some (M.execute s t op r k rest, none)
      | _ => none
  | .throw t =>
      match s.points t with
      | .running op _ (k :: _) =>
          if M.throws k then some (s.free t .idle, some ⟨t, op, none⟩) else none
      | _ => none
  | .leave t =>
      match s.points t with
      | .running op r [] => some (s.free t .idle, some ⟨t, op, some r⟩)
      | _ => none
  | .wake t =>
      match s.points t with
      | .asleep op true => some (s.set t (.waking op false), none)
      | _ => none
  | .spurious t =>
      match s.points t with
      | .asleep op false => some (s.set t (.waking op false), none)
      | _ => none
  | .timeOut t =>
      match s.points t with
      | .asleep op _ =>
          if (M.timedOut op).isSome then some (s.set t (.waking op true), none) else none
      | _ => none
  | .relock t =>
      match s.points t, s.mutex with
      | .waking op false, none => some (s.take t (.locked op), none)
      | .waking op true, none =>
          (M.timedOut op).map fun r => (s.take t (.running op r []), none)
      | _, _ => none

/-- The fields at the start, and nobody in a call. -/
def initial (f : σ) : State θ σ ι κ ρ := { fields := f, mutex := none, points := fun _ => .idle }

def machine (θ : Type*) [DecidableEq θ] (f : σ) :
    Machine (State θ σ ι κ ρ) (Event θ ι) (Option (Exit θ ι ρ)) where
  init s := s = initial f
  step := M.step

/-- The steps, by where the thread stands. -/
inductive Move (s : State θ σ ι κ ρ) :
    Event θ ι → State θ σ ι κ ρ → Option (Exit θ ι ρ) → Prop
  | call {t : θ} (op : ι) (at' : s.points t = .idle) :
      Move s (.call t op) (s.set t (.entering op)) none
  | lock {t : θ} {op : ι} (at' : s.points t = .entering op) (free : s.mutex = none) :
      Move s (.lock t) (s.take t (.locked op)) none
  | refuse {t : θ} {op : ι} {r : ρ} (at' : s.points t = .entering op)
      (refused : M.refused op = some r) :
      Move s (.refuse t) (s.set t .idle) (some ⟨t, op, some r⟩)
  | sleep {t : θ} {op : ι} (at' : s.points t = .locked op) (sleeps : M.enter op s.fields = none) :
      Move s (.check t) (s.free t (.asleep op false)) none
  | enter {t : θ} {op : ι} {r : ρ} {rest : List κ} (at' : s.points t = .locked op)
      (enters : M.enter op s.fields = some (r, rest)) :
      Move s (.check t) (s.set t (.running op r rest)) none
  | run {t : θ} {op : ι} {r : ρ} {k : κ} {rest : List κ}
      (at' : s.points t = .running op r (k :: rest)) :
      Move s (.run t) (M.execute s t op r k rest) none
  | throw {t : θ} {op : ι} {r : ρ} {k : κ} {rest : List κ}
      (at' : s.points t = .running op r (k :: rest)) (throws : M.throws k = true) :
      Move s (.throw t) (s.free t .idle) (some ⟨t, op, none⟩)
  | leave {t : θ} {op : ι} {r : ρ} (at' : s.points t = .running op r []) :
      Move s (.leave t) (s.free t .idle) (some ⟨t, op, some r⟩)
  | wake {t : θ} {op : ι} (at' : s.points t = .asleep op true) :
      Move s (.wake t) (s.set t (.waking op false)) none
  | spurious {t : θ} {op : ι} (at' : s.points t = .asleep op false) :
      Move s (.spurious t) (s.set t (.waking op false)) none
  | timeOut {t : θ} {op : ι} {notified : Bool} {r : ρ} (at' : s.points t = .asleep op notified)
      (timed : M.timedOut op = some r) : Move s (.timeOut t) (s.set t (.waking op true)) none
  | relock {t : θ} {op : ι} (at' : s.points t = .waking op false) (free : s.mutex = none) :
      Move s (.relock t) (s.take t (.locked op)) none
  | giveUp {t : θ} {op : ι} {r : ρ} (at' : s.points t = .waking op true) (free : s.mutex = none)
      (timed : M.timedOut op = some r) :
      Move s (.relock t) (s.take t (.running op r [])) none

theorem step_move {M : Monitor σ ι κ ρ} {s s' : State θ σ ι κ ρ} {e : Event θ ι}
    {o : Option (Exit θ ι ρ)} (h : M.step s e = some (s', o)) : M.Move s e s' o := by
  cases e with
  | call t op =>
      rw [step] at h
      split at h
      · obtain ⟨rfl, rfl⟩ := Prod.mk.inj (Option.some.inj h)
        exact .call op ‹_›
      · cases h
  | lock t =>
      rw [step] at h
      split at h
      · obtain ⟨rfl, rfl⟩ := Prod.mk.inj (Option.some.inj h)
        exact .lock ‹_› ‹_›
      · cases h
  | refuse t =>
      rw [step] at h
      split at h
      · obtain ⟨r, hrefused, heq⟩ := Option.map_eq_some_iff.mp h
        obtain ⟨rfl, rfl⟩ := Prod.mk.inj heq
        exact .refuse ‹_› hrefused
      · cases h
  | check t =>
      rw [step] at h
      split at h
      · split at h
        · obtain ⟨rfl, rfl⟩ := Prod.mk.inj (Option.some.inj h)
          exact .sleep ‹_› ‹_›
        · obtain ⟨rfl, rfl⟩ := Prod.mk.inj (Option.some.inj h)
          exact .enter ‹_› ‹_›
      · cases h
  | run t =>
      rw [step] at h
      split at h
      · obtain ⟨rfl, rfl⟩ := Prod.mk.inj (Option.some.inj h)
        exact .run ‹_›
      · cases h
  | throw t =>
      rw [step] at h
      split at h
      · split at h
        · obtain ⟨rfl, rfl⟩ := Prod.mk.inj (Option.some.inj h)
          exact .throw ‹_› ‹_›
        · cases h
      · cases h
  | leave t =>
      rw [step] at h
      split at h
      · obtain ⟨rfl, rfl⟩ := Prod.mk.inj (Option.some.inj h)
        exact .leave ‹_›
      · cases h
  | wake t =>
      rw [step] at h
      split at h
      · obtain ⟨rfl, rfl⟩ := Prod.mk.inj (Option.some.inj h)
        exact .wake ‹_›
      · cases h
  | spurious t =>
      rw [step] at h
      split at h
      · obtain ⟨rfl, rfl⟩ := Prod.mk.inj (Option.some.inj h)
        exact .spurious ‹_›
      · cases h
  | timeOut t =>
      rw [step] at h
      split at h
      · split at h
        · rename_i htimed
          obtain ⟨r, hr⟩ := Option.isSome_iff_exists.mp htimed
          obtain ⟨rfl, rfl⟩ := Prod.mk.inj (Option.some.inj h)
          exact .timeOut ‹_› hr
        · cases h
      · cases h
  | relock t =>
      rw [step] at h
      split at h
      · obtain ⟨rfl, rfl⟩ := Prod.mk.inj (Option.some.inj h)
        exact .relock ‹_› ‹_›
      · obtain ⟨r, htimed, heq⟩ := Option.map_eq_some_iff.mp h
        obtain ⟨rfl, rfl⟩ := Prod.mk.inj heq
        exact .giveUp ‹_› ‹_› htimed
      · cases h

/-- From these fields the statements can be executed, each of them safely, and lead to `I`, also
where one of them throws. -/
def Restores (safe : κ → σ → Prop) (I : σ → Prop) : List κ → σ → Prop
  | [], f => I f
  | k :: rest, f => safe k f ∧ (M.throws k = true → I f) ∧ Restores safe I rest (M.exec k f)

/-- Every call that finds `I` can execute its statements, and they lead back to `I`. -/
def Keeps (safe : κ → σ → Prop) (I : σ → Prop) : Prop :=
  ∀ op f r rest, I f → M.enter op f = some (r, rest) → M.Restores safe I rest f

/-- What a thread knows of the fields. -/
def Meets (safe : κ → σ → Prop) (I : σ → Prop) : Point ι κ ρ → σ → Prop
  | .locked _, f => I f
  | .running _ _ rest, f => M.Restores safe I rest f
  | _, _ => True

/-- `I` holds while the mutex is free. Only the thread that has it is inside, and what that one
has left to execute will restore `I`. -/
structure Guarded (safe : κ → σ → Prop) (I : σ → Prop) (s : State θ σ ι κ ρ) : Prop where
  free : s.mutex = none → I s.fields
  owner : ∀ t, (s.points t).inside = true → s.mutex = some t
  meets : ∀ t, M.Meets safe I (s.points t) s.fields

variable {M} {safe : κ → σ → Prop} {I : σ → Prop} {s s' : State θ σ ι κ ρ} {t u : θ}
  {p : Point ι κ ρ} {f : σ}

omit [DecidableEq θ] in
theorem Guarded.exclusive (hs : M.Guarded safe I s) (ht : (s.points t).inside = true)
    (hu : (s.points u).inside = true) : t = u :=
  Option.some.inj ((hs.owner t ht).symm.trans (hs.owner u hu))

theorem meets_of_outside (hp : p.inside = false) : M.Meets safe I p f := by
  cases p with
  | locked op => cases hp
  | running op r rest => cases hp
  | idle | entering op | asleep op notified | waking op timedOut => trivial

omit [DecidableEq θ] in
theorem guarded_of_free (hI : I s.fields) (houtside : ∀ u, (s.points u).inside = false) :
    M.Guarded safe I s where
  free _ := hI
  owner u hu := by
    rw [houtside u] at hu
    cases hu
  meets u := meets_of_outside (houtside u)

omit [DecidableEq θ] in
theorem guarded_of_held (hmutex : s.mutex = some t) (hmeets : M.Meets safe I (s.points t) s.fields)
    (houtside : ∀ u, u ≠ t → (s.points u).inside = false) : M.Guarded safe I s where
  free hnone := by
    rw [hmutex] at hnone
    cases hnone
  owner u hu := by
    by_cases hut : u = t
    · rw [hut]
      exact hmutex
    · rw [houtside u hut] at hu
      cases hu
  meets u := by
    by_cases hut : u = t
    · rw [hut]
      exact hmeets
    · exact meets_of_outside (houtside u hut)

omit [DecidableEq θ] in
/-- While the mutex is free the threads are outside. -/
theorem Guarded.outside_of_free (hs : M.Guarded safe I s) (free : s.mutex = none) (u : θ) :
    (s.points u).inside = false := by
  apply Bool.eq_false_iff.mpr
  intro hinside
  have howner := hs.owner u hinside
  rw [free] at howner
  cases howner

omit [DecidableEq θ] in
/-- While one thread is inside the others are not. -/
theorem Guarded.outside_of_inside (hs : M.Guarded safe I s) (ht : (s.points t).inside = true)
    (hu : u ≠ t) : (s.points u).inside = false := by
  apply Bool.eq_false_iff.mpr
  intro hinside
  exact hu (hs.exclusive hinside ht)

/-- A thread goes elsewhere without the mutex. -/
theorem Guarded.aside (hs : M.Guarded safe I s) (hp : p.inside = false) :
    M.Guarded safe I (s.set t p) where
  free := hs.free
  owner u hu := by
    rw [State.set_points] at hu
    by_cases hut : u = t
    · rw [hut, Function.update_self, hp] at hu
      cases hu
    · rw [Function.update_of_ne hut] at hu
      exact hs.owner u hu
  meets u := by
    rw [State.set_points, State.set_fields]
    by_cases hut : u = t
    · rw [hut, Function.update_self]
      exact meets_of_outside hp
    · rw [Function.update_of_ne hut]
      exact hs.meets u

/-- A thread takes the free mutex. -/
theorem Guarded.take (hs : M.Guarded safe I s) (free : s.mutex = none)
    (hp : M.Meets safe I p s.fields) : M.Guarded safe I (s.take t p) := by
  apply guarded_of_held (State.take_mutex s t p)
  · rw [State.take_points, Function.update_self]
    exact hp
  · intro u hu
    rw [State.take_points, Function.update_of_ne hu]
    exact hs.outside_of_free free u

/-- The thread inside gives the mutex back. -/
theorem Guarded.release (hs : M.Guarded safe I s) (ht : (s.points t).inside = true)
    (hI : I s.fields) (hp : p.inside = false) : M.Guarded safe I (s.free t p) := by
  refine guarded_of_free hI fun u => ?_
  rw [State.free_points]
  by_cases hut : u = t
  · rw [hut, Function.update_self]
    exact hp
  · rw [Function.update_of_ne hut]
    exact hs.outside_of_inside ht hut

theorem Guarded.execute (hs : M.Guarded safe I s) {op : ι} {r : ρ} {k : κ} {rest : List κ}
    (at' : s.points t = .running op r (k :: rest)) :
    M.Guarded safe I (M.execute s t op r k rest) := by
  have hinside : (s.points t).inside = true := by
    rw [at']
    rfl
  refine guarded_of_held (hs.owner t hinside) ?_ fun u hu => ?_
  · have hmeets := hs.meets t
    rw [at'] at hmeets
    rw [execute_points_self, execute_fields]
    exact hmeets.2.2
  · have houtside := hs.outside_of_inside hinside hu
    rw [execute_points_of_ne M s t op r k rest hu]
    split
    · exact (Point.notify_inside _).trans houtside
    · exact houtside

theorem step_guarded (keeps : M.Keeps safe I) (hs : M.Guarded safe I s) {e : Event θ ι}
    {o : Option (Exit θ ι ρ)} (h : M.step s e = some (s', o)) : M.Guarded safe I s' := by
  have hknown : ∀ {t p}, s.points t = p → p.inside = true →
      (s.points t).inside = true ∧ M.Meets safe I p s.fields := by
    rintro t p rfl hp
    exact ⟨hp, hs.meets t⟩
  cases step_move h with
  | call => exact hs.aside rfl
  | refuse => exact hs.aside rfl
  | wake => exact hs.aside rfl
  | spurious => exact hs.aside rfl
  | timeOut => exact hs.aside rfl
  | lock at' free => exact hs.take free (hs.free free)
  | relock at' free => exact hs.take free (hs.free free)
  | giveUp at' free timed => exact hs.take free (hs.free free)
  | sleep at' sleeps =>
      obtain ⟨hinside, hI⟩ := hknown at' rfl
      exact hs.release hinside hI rfl
  | @enter t op r rest at' enters =>
      obtain ⟨hinside, hI⟩ := hknown at' rfl
      refine guarded_of_held (hs.owner t hinside) ?_ fun u hu => ?_
      · rw [State.set_points, Function.update_self]
        exact keeps op s.fields r rest hI enters
      · rw [State.set_points, Function.update_of_ne hu]
        exact hs.outside_of_inside hinside hu
  | run at' => exact hs.execute at'
  | throw at' throws =>
      obtain ⟨hinside, -, hI, -⟩ := hknown at' rfl
      exact hs.release hinside (hI throws) rfl
  | leave at' =>
      obtain ⟨hinside, hI⟩ := hknown at' rfl
      exact hs.release hinside hI rfl

omit [DecidableEq θ] in
theorem initial_guarded (hI : I f) : M.Guarded safe I (initial f : State θ σ ι κ ρ) :=
  guarded_of_free hI fun _ => rfl

/-- **Monitor invariants.** What the calls keep, each of them alone, is kept by any threads in
any interleaving. -/
theorem reachable_guarded (keeps : M.Keeps safe I) (hI : I f)
    (h : (M.machine θ f).Reachable (fun _ _ => True) s) : M.Guarded safe I s := by
  apply h.invariant
  · rintro _ rfl
    exact initial_guarded hI
  · intro a e b o ha _ move
    exact step_guarded keeps ha move

omit [DecidableEq θ] in
/-- The next statement of a thread is safe. -/
theorem Guarded.safe_of_executes (hs : M.Guarded safe I s) {k : κ}
    (h : s.executes t = some k) : safe k s.fields := by
  rw [State.executes] at h
  split at h
  · rename_i at'
    obtain rfl := Option.some.inj h
    have hmeets := hs.meets t
    rw [at'] at hmeets
    exact hmeets.1
  · cases h

end Monitor

end Transition
