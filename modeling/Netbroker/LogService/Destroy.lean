import Netbroker.LogService.Factory

/-!
# The end of the logging system

The factory and the logger hang on two static pointers. `getPtr` makes a factory where the
one pointer is null, and `Destroy` deletes the factory and the logger. It sets the logger's
pointer back, and not the factory's: from then on `getPtr` hands out a factory that is gone.

On its way `Destroy` stops the logger through the factory, and deletes it whether that
has worked or not. A logger that the factory does not know to be started is
halted by its destructor, and `halt` waits for itself.

`Known` holds of the factory up to its end: its mutex is free, and a logger that it takes for
started is. With that `Destroy` is a matter of the state it finds.
-/

namespace Netbroker

open Transition

/-- `LogFactory::PFactoryInstance`. -/
inductive FactoryPointer where
  | null
  | live (factoryStatus : FactoryStatus)
  | deleted
  deriving DecidableEq, Repr

/-- The static pointers and what they point to. -/
structure LogSystem where
  pFactoryInstance : FactoryPointer
  pInstance : Option Logger
  deriving DecidableEq, Repr

namespace LogSystem

def new : LogSystem where
  pFactoryInstance := .null
  pInstance := none

/-- `LogFactory::getPtr`, of which callers get `pFactoryInstance`. -/
def getPtr (s : LogSystem) : LogSystem :=
  match s.pFactoryInstance with
  | .null => { s with pFactoryInstance := .live .factoryNotInited }
  | .live _ | .deleted => s

/-- The factory behind the pointer, if it points to one. -/
def factory (s : LogSystem) : Option LogFactory :=
  match s.pFactoryInstance with
  | .live factoryStatus => some { factoryStatus, pInstance := s.pInstance }
  | .null | .deleted => none

/-- The system around a factory. -/
def ofFactory (f : LogFactory) : LogSystem where
  pFactoryInstance := .live f.factoryStatus
  pInstance := f.pInstance

@[simp] theorem factory_getPtr_ofFactory (f : LogFactory) : (ofFactory f).getPtr.factory = some f :=
  rfl

/-- `GetConfigTool`: the logger's configuration, or `none` for one that is made on the spot. -/
def getConfigTool (f : LogFactory) : Except LogException (Option Nat) :=
  if f.factoryStatus = .factoryNotInited then .error (.factory "Factory not inited!")
  else
    match f.pInstance with
    | none => .error (.service "ILogService not initialized!")
    | some l => .ok l.pCfg

/-- How `Destroy` ends. -/
inductive Destroyed where
  | returned (s : LogSystem)
  | threw (s : LogSystem)
  /-- The thread waits for a mutex it has itself. -/
  | blocked
  /-- A member of a deleted factory is used. -/
  | undefined
  deriving DecidableEq, Repr

/-- The second half of `Destroy`: the logger is deleted, and halted by that. -/
def deleteAll (f : LogFactory) : Destroyed :=
  let bare : LogSystem := { pFactoryInstance := .deleted, pInstance := none }
  match f.pInstance with
  | none => .returned bare
  | some l =>
      match l.halt.1 with
      | .returned _ => .returned bare
      | .blocked | .undefined => .blocked

/-- `LogFactory::Destroy`. Of the exceptions of `StopLogger` it catches the factory's. The status
it sets goes with the factory. -/
def destroy (s : LogSystem) : Destroyed :=
  match s.getPtr.factory with
  | none => .undefined
  | some f =>
      match f.stopLogger with
      | none => .blocked
      | some (.error (.service _), f) => .threw (ofFactory f)
      | some (.error (.factory _), f) => deleteAll f
      | some (.ok (), f) => deleteAll f

/-- The calls of a logging system. -/
inductive Operation where
  | getPtr
  | getConfigTool
  | call (e : LogFactory.Operation)
  | destroy
  deriving DecidableEq, Repr

/-- What a call answers. -/
inductive Answer where
  | pointer (p : FactoryPointer)
  | config (answer : Except LogException (Option Nat))
  | call (thrown : Thrown)
  | destroyed
  deriving DecidableEq

/-- A logging system from the start of the process on. A call that is not defined, or does not
come back, is not a step. -/
def machine : Machine LogSystem Operation Answer where
  init s := s = new
  step s
    | .getPtr => some (s.getPtr, .pointer s.getPtr.pFactoryInstance)
    | .getConfigTool => s.getPtr.factory.map fun f => (ofFactory f, .config (getConfigTool f))
    | .call e =>
        s.getPtr.factory.bind fun f =>
          (f.perform e).map fun (thrown, f') => (ofFactory f', .call thrown)
    | .destroy =>
        match s.destroy with
        | .returned s' => some (s', .destroyed)
        | .threw s' => some (s', .call (.error (.service "ILogService not initialized!")))
        | .blocked | .undefined => none

/-- `getPtr` returns a factory that is there and not inited, and the calls that start a
logging system can succeed on it. -/
def Fresh (s : LogSystem) : Prop :=
  ∃ f, s.getPtr.factory = some f ∧ f.factoryStatus = .factoryNotInited ∧
    ∃ loggerType config answer f₁ f₂ f₃, f.init loggerType = (.ok (), f₁) ∧
      f₁.initLogger (some config) answer = some (.ok (), f₂) ∧
      f₂.startLogger = some (.ok (), f₃)

/-- `Destroy` comes back and leaves a fresh system. -/
def Restarts (s : LogSystem) : Prop := ∃ s', s.destroy = .returned s' ∧ s'.Fresh

/-- The process starts with a fresh system. -/
theorem fresh_new : new.Fresh :=
  ⟨.new, rfl, rfl, .pantheios, { address := 1, processName := [], configMask := 0 },
    { pantheiosInit := 0, pid := 0, stamp := [] }, _, _, _, rfl, rfl, rfl⟩

/-- The logger is started, and the factory does not know it. -/
def Drifted (s : LogSystem) : Prop :=
  ∃ f, s.getPtr.factory = some f ∧ f.factoryStatus ≠ .logSystemStarted ∧
    f.loggerStatus = some .started

/-- The mutex is free, and a logger that the factory takes for started is. -/
structure Known (f : LogFactory) : Prop where
  free : f.Free
  started : f.factoryStatus = .logSystemStarted → f.loggerStatus = some .started

variable {f f' : LogFactory} {thrown : Thrown}

theorem initLogger_started {config : Option LogCfg} {answer : InitAnswer}
    (h : f.initLogger config answer = some (thrown, f'))
    (hstarted : f'.factoryStatus = .logSystemStarted)
    (hf : f.factoryStatus = .logSystemStarted → f.loggerStatus = some .started) :
    f'.loggerStatus = some .started := by
  rw [LogFactory.initLogger] at h
  split at h
  · obtain ⟨-, rfl⟩ := Prod.mk.inj (Option.some.inj h)
    exact hf hstarted
  · split at h
    · obtain ⟨-, rfl⟩ := Prod.mk.inj (Option.some.inj h)
      exact hf hstarted
    · obtain ⟨-, rfl⟩ | ⟨l, retVal, l', hl, hcall, hanswered⟩ := LogFactory.callLogger_inv h
      · exact hf hstarted
      · split at hanswered
        · -- a failed `init` leaves both statuses
          rename_i hfailure
          obtain ⟨-, rfl⟩ := Prod.mk.inj hanswered
          have hl' : l'.loggerStatus = l.loggerStatus := by
            obtain ⟨-, -, rfl⟩ | ⟨-, -, -, rfl⟩ | ⟨-, kept, -, -, -, rfl⟩ |
              ⟨-, kept, -, -, hsuccess, -⟩ := Logger.init_cases hcall
            · rfl
            · rfl
            · rfl
            · rw [hfailure] at hsuccess
              cases hsuccess
          have hloggerStatus := hf hstarted
          simp only [LogFactory.loggerStatus, hl, Option.map_some, hl'] at hloggerStatus ⊢
          exact hloggerStatus
        · split at hanswered
          · rename_i halready
            obtain ⟨-, rfl⟩ := Prod.mk.inj hanswered
            have hloggerStatus := hf hstarted
            obtain ⟨hinited, -⟩ | ⟨-, -, hother, -⟩ | ⟨-, kept, -, -, hother, -⟩ |
              ⟨-, kept, -, -, hother, -⟩ := Logger.init_cases hcall
            · simp [LogFactory.loggerStatus, hl, hinited] at hloggerStatus
            all_goals
              rw [halready] at hother
              cases hother
          · obtain ⟨-, rfl⟩ := Prod.mk.inj hanswered
            cases hstarted

theorem startLogger_started (h : f.startLogger = some (thrown, f'))
    (hstarted : f'.factoryStatus = .logSystemStarted)
    (hf : f.factoryStatus = .logSystemStarted → f.loggerStatus = some .started) :
    f'.loggerStatus = some .started := by
  rw [LogFactory.startLogger] at h
  split at h
  · obtain ⟨-, rfl⟩ := Prod.mk.inj (Option.some.inj h)
    exact hf hstarted
  · split at h
    · obtain ⟨-, rfl⟩ := Prod.mk.inj (Option.some.inj h)
      exact hf hstarted
    · rename_i hinited
      obtain ⟨-, rfl⟩ | ⟨l, retVal, l', hl, hcall, hanswered⟩ := LogFactory.callLogger_inv h
      · exact hf hstarted
      · split at hanswered
        · -- the factory is left as inited
          obtain ⟨-, rfl⟩ := Prod.mk.inj hanswered
          have hne : f.factoryStatus ≠ .logSystemStarted := by
            simp [not_not.mp hinited]
          exact absurd hstarted hne
        · rename_i hsuccess
          obtain ⟨-, rfl⟩ := Prod.mk.inj hanswered
          have hl' := Logger.start_success hcall (not_not.mp hsuccess)
          rw [LogFactory.loggerStatus, Option.map_some, hl']

/-- A factory that takes its logger for started stops it. -/
theorem Known.stopLogger_started (hf : Known f) (hstarted : f.factoryStatus = .logSystemStarted) :
    ∃ l, f.stopLogger = some (.ok (), { factoryStatus := .logSystemInited, pInstance := some l }) ∧
      l.loggerStatus = .inited ∧ l.held = false := by
  have hloggerStatus := hf.started hstarted
  obtain ⟨l, hl, hl'⟩ := Option.map_eq_some_iff.mp hloggerStatus
  have hfree := hf.free l hl
  refine ⟨{ l with loggerStatus := .inited }, ?_, rfl, hfree⟩
  simp [LogFactory.stopLogger, hstarted, LogFactory.callLogger, hl, Logger.stop, Logger.locked,
    hfree, hl']

theorem stopLogger_of_ne (h : f.factoryStatus ≠ .logSystemStarted) :
    f.stopLogger = some (.error (.factory "Logger not started!"), f) := if_pos h

theorem Known.perform {e : LogFactory.Operation} (hf : Known f)
    (h : f.perform e = some (thrown, f')) : Known f' := by
  have hfree : f'.Free := by
    obtain ⟨thrown', f'', hperform, hfree⟩ := hf.free.perform e
    rw [h] at hperform
    obtain ⟨-, rfl⟩ := Prod.mk.inj (Option.some.inj hperform)
    exact hfree
  refine ⟨hfree, fun hstarted => ?_⟩
  cases e with
  | init loggerType =>
      simp only [LogFactory.perform, LogFactory.init] at h
      split at h
      · obtain ⟨-, rfl⟩ := Prod.mk.inj (Option.some.inj h)
        exact hf.started hstarted
      · obtain ⟨-, rfl⟩ := Prod.mk.inj (Option.some.inj h)
        cases hstarted
  | initLogger config answer => exact initLogger_started h hstarted hf.started
  | startLogger => exact startLogger_started h hstarted hf.started
  | stopLogger =>
      by_cases hbefore : f.factoryStatus = .logSystemStarted
      · obtain ⟨l, hstop, -⟩ := hf.stopLogger_started hbefore
        obtain ⟨-, rfl⟩ := Prod.mk.inj (Option.some.inj (hstop.symm.trans h))
        cases hstarted
      · obtain ⟨-, rfl⟩ := Prod.mk.inj (Option.some.inj ((stopLogger_of_ne hbefore).symm.trans h))
        exact hf.started hstarted

variable {s s' : LogSystem}

theorem deleteAll_eq_blocked (hf : f.Free) :
    deleteAll f = .blocked ↔ f.loggerStatus = some .started := by
  cases hl : f.pInstance with
  | none => simp [deleteAll, LogFactory.loggerStatus, hl]
  | some l =>
      have hfree := hf l hl
      by_cases hstarted : l.loggerStatus = .started <;>
        simp [deleteAll, LogFactory.loggerStatus, hl, Logger.halt, hfree, hstarted]

theorem deleteAll_returned (h : deleteAll f = .returned s') :
    s' = { pFactoryInstance := .deleted, pInstance := none } := by
  rw [deleteAll] at h
  split at h
  · exact (Destroyed.returned.inj h).symm
  · split at h
    · exact (Destroyed.returned.inj h).symm
    · cases h
    · cases h

/-- Where `Destroy` comes back, both are deleted. -/
theorem destroy_returned (h : s.destroy = .returned s') :
    s' = { pFactoryInstance := .deleted, pInstance := none } := by
  rw [destroy] at h
  split at h
  · cases h
  · split at h
    · cases h
    · cases h
    · exact deleteAll_returned h
    · exact deleteAll_returned h

/-- It does not come back where the factory has lost sight of the logger. -/
theorem destroy_eq_blocked (hf : ∀ f, s.getPtr.factory = some f → Known f) :
    s.destroy = .blocked ↔ s.Drifted := by
  rw [destroy, Drifted]
  cases hfactory : s.getPtr.factory with
  | none => simp
  | some f =>
      have hknown := hf f hfactory
      by_cases hstarted : f.factoryStatus = .logSystemStarted
      · obtain ⟨l, hstop, hinited, hfree⟩ := hknown.stopLogger_started hstarted
        have hdelete : ¬ deleteAll
            { factoryStatus := .logSystemInited, pInstance := some l } = .blocked := by
          rw [deleteAll_eq_blocked]
          · simp [LogFactory.loggerStatus, hinited]
          · intro l' hl'
            obtain rfl := Option.some.inj hl'
            exact hfree
        simp [hstop, hdelete, hstarted]
      · simp [stopLogger_of_ne hstarted, deleteAll_eq_blocked hknown.free, hstarted]

/-- No exception gets through: the one it does not catch needs a started factory without a
logger. -/
theorem destroy_ne_threw (hf : ∀ f, s.getPtr.factory = some f → Known f) :
    s.destroy ≠ .threw s' := by
  rw [destroy]
  cases hfactory : s.getPtr.factory with
  | none => simp
  | some f =>
      have hdelete : ∀ f, deleteAll f ≠ .threw s' := by
        intro f
        rw [deleteAll]
        split
        · simp
        · split <;> simp
      by_cases hstarted : f.factoryStatus = .logSystemStarted
      · obtain ⟨l, hstop, -⟩ := (hf f hfactory).stopLogger_started hstarted
        simpa [hstop] using hdelete _
      · simpa [stopLogger_of_ne hstarted] using hdelete f

theorem getPtr_getPtr (s : LogSystem) : s.getPtr.getPtr = s.getPtr := by
  cases s with
  | mk pFactoryInstance pInstance => cases pFactoryInstance <;> rfl

theorem known_of_reachable (reach : machine.Reachable (fun _ _ => True) s) :
    ∀ f, s.getPtr.factory = some f → Known f := by
  apply reach.invariant (I := fun s => ∀ f, s.getPtr.factory = some f → Known f)
  · rintro s rfl f hf
    obtain rfl := Option.some.inj hf
    constructor
    · intro l hl
      cases hl
    · intro hstarted
      cases hstarted
  · intro a e b o ha _ move
    cases e with
    | getPtr =>
        obtain ⟨rfl, -⟩ := Prod.mk.inj (Option.some.inj move)
        rw [getPtr_getPtr]
        exact ha
    | getConfigTool =>
        obtain ⟨f, hf, hmove⟩ := Option.map_eq_some_iff.mp move
        obtain ⟨rfl, -⟩ := Prod.mk.inj hmove
        intro f' hf'
        obtain rfl := Option.some.inj ((factory_getPtr_ofFactory f).symm.trans hf')
        exact ha f hf
    | call e =>
        obtain ⟨f, hf, hmove⟩ := Option.bind_eq_some_iff.mp move
        obtain ⟨⟨thrown, f'⟩, hperform, heq⟩ := Option.map_eq_some_iff.mp hmove
        obtain ⟨rfl, -⟩ := Prod.mk.inj heq
        intro f'' hf''
        obtain rfl := Option.some.inj ((factory_getPtr_ofFactory f').symm.trans hf'')
        exact (ha f hf).perform hperform
    | destroy =>
        replace move : (match a.destroy with
          | .returned s' => some (s', Answer.destroyed)
          | .threw s' => some (s', .call (.error (.service "ILogService not initialized!")))
          | .blocked | .undefined => none) = some (b, o) := move
        split at move
        · rename_i s' hreturned
          obtain ⟨rfl, -⟩ := Prod.mk.inj (Option.some.inj move)
          rw [destroy_returned hreturned]
          intro f hf
          cases hf
        · rename_i s' hthrew
          exact absurd hthrew (destroy_ne_threw ha)
        · cases move
        · cases move

/-- **Destroy.** Whatever the calls before it, `Destroy` does not leave a fresh system. It
does not even come back exactly where the logger is started and the factory does not know
it. -/
theorem destroy_never_restarts (reach : machine.Reachable (fun _ _ => True) s) :
    ¬ s.Restarts ∧ (s.destroy = .blocked ↔ s.Drifted) := by
  refine ⟨?_, destroy_eq_blocked (known_of_reachable reach)⟩
  rintro ⟨s', hreturned, f, hf, -⟩
  rw [destroy_returned hreturned] at hf
  cases hf

/-- A logger that is started, and then configured with a null pointer. -/
def driftRun : List Operation :=
  let config : LogCfg := { address := 1, processName := [97], configMask := 2 }
  let answer : InitAnswer := { pantheiosInit := 0, pid := 42, stamp := [] }
  [.getPtr, .call (.init .pantheios), .call (.initLogger (some config) answer),
    .call .startLogger, .call (.initLogger none answer)]

theorem drifted_driftRun :
    ∃ s, machine.Reachable (fun _ _ => True) s ∧ s.pInstance.isSome = true ∧
      ¬ s.Restarts ∧ (s.destroy = .blocked ↔ s.Drifted) := by
  obtain ⟨s, reach, hs⟩ := Machine.Reachable.exists_of_exec (M := machine) (fun _ _ => True)
    (s := new) rfl driftRun (fun s => s.pInstance.isSome = true) (by decide)
  exact ⟨s, reach, hs, destroy_never_restarts reach⟩

/-- `Destroy` of such a logger waits for itself. -/
theorem driftRun_blocked : ∃ s, machine.Reachable (fun _ _ => True) s ∧ ¬ s.Restarts := by
  obtain ⟨s, reach, hs⟩ := Machine.Reachable.exists_of_exec (M := machine) (fun _ _ => True)
    (s := new) rfl driftRun (fun s => s.destroy = .blocked) (by decide)
  refine ⟨s, reach, ?_⟩
  rintro ⟨s', hreturned, -⟩
  rw [hs] at hreturned
  cases hreturned

end LogSystem

end Netbroker
