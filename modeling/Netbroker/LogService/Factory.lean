import Netbroker.LogService.Logger

/-!
# The factory

`LogFactory` has a status of its own beside the logger's, and moves it by what the logger
answers. A `start` or a `stop` has to answer with success. Of an `init` the factory knows two
answers that are none, and takes the third for one.

A `halt` that waits for itself would keep the logger's mutex, but in a run of a factory no
call comes to that, so all of them return. What is left is which calls keep the two statuses
in agreement and change nothing where they throw.
-/

namespace Netbroker

open Transition

/-- `LogFactory::Status`. -/
inductive FactoryStatus where
  | factoryNotInited
  | loggerNotInited
  | logSystemInited
  | logSystemStarted
  deriving DecidableEq, Repr

/-- `LogFactory::Loggertype`. -/
inductive Loggertype where
  | pantheios
  deriving DecidableEq, Repr

/-- What is thrown: a `LogFactoryException`, or an `ILogServiceException`. -/
inductive LogException where
  | factory (message : String)
  | service (message : String)
  deriving DecidableEq, Repr

/-- A call that returns, or throws. -/
abbrev Thrown := Except LogException Unit

/-- The factory, and the logger that `PInstance` points to. -/
structure LogFactory where
  factoryStatus : FactoryStatus
  pInstance : Option Logger
  deriving DecidableEq, Repr

namespace LogFactory

def new : LogFactory where
  factoryStatus := .factoryNotInited
  pInstance := none

def loggerStatus (f : LogFactory) : Option LoggerStatus := f.pInstance.map Logger.loggerStatus

def pCfg (f : LogFactory) : Option Nat := f.pInstance.bind Logger.pCfg

def init (f : LogFactory) (loggerType : Loggertype) : Thrown × LogFactory :=
  if f.factoryStatus ≠ .factoryNotInited then
    (.error (.factory "Factory already inited!"), f)
  else
    match loggerType with
    | .pantheios => (.ok (), { factoryStatus := .loggerNotInited, pInstance := some Logger.new })

/-- A call of the logger behind `ILogService::getPtr`, and what is made of its answer. -/
def callLogger (f : LogFactory) (call : Logger → Option (ReturnValues × Logger))
    (answered : ReturnValues → LogFactory → Thrown × LogFactory) : Option (Thrown × LogFactory) :=
  match f.pInstance with
  | none => some (.error (.service "ILogService not initialized!"), f)
  | some l => (call l).map fun (retVal, l') => answered retVal { f with pInstance := some l' }

def initLogger (f : LogFactory) (config : Option LogCfg) (answer : InitAnswer) :
    Option (Thrown × LogFactory) :=
  if f.factoryStatus = .factoryNotInited then some (.error (.factory "Factory not inited!"), f)
  else if f.factoryStatus = .logSystemInited then
    some (.error (.factory "Logger already inited!"), f)
  else
    f.callLogger (fun l => l.init config answer) fun retVal f =>
      if retVal = .failure then (.error (.factory "Failed to initiate logger"), f)
      else if retVal = .alreadyInited then (.error (.factory "Logger already inited!"), f)
      else (.ok (), { f with factoryStatus := .logSystemInited })

def startLogger (f : LogFactory) : Option (Thrown × LogFactory) :=
  if f.factoryStatus = .factoryNotInited then some (.error (.factory "Factory not inited!"), f)
  else if f.factoryStatus ≠ .logSystemInited then
    some (.error (.factory "Logger not inited!"), f)
  else
    f.callLogger Logger.start fun retVal f =>
      if retVal ≠ .success then (.error (.factory "Failed to start logger"), f)
      else (.ok (), { f with factoryStatus := .logSystemStarted })

def stopLogger (f : LogFactory) : Option (Thrown × LogFactory) :=
  if f.factoryStatus ≠ .logSystemStarted then
    some (.error (.factory "Logger not started!"), f)
  else
    f.callLogger Logger.stop fun retVal f =>
      if retVal ≠ .success then (.error (.factory "Failed to stop logger"), f)
      else (.ok (), { f with factoryStatus := .logSystemInited })

/-- The calls of a factory. -/
inductive Operation where
  | init (loggerType : Loggertype)
  | initLogger (config : Option LogCfg) (answer : InitAnswer)
  | startLogger
  | stopLogger
  deriving DecidableEq, Repr

def perform (f : LogFactory) : Operation → Option (Thrown × LogFactory)
  | .init loggerType => some (f.init loggerType)
  | .initLogger config answer => f.initLogger config answer
  | .startLogger => f.startLogger
  | .stopLogger => f.stopLogger

/-- A factory from its creation on. -/
def machine : Machine LogFactory Operation Thrown where
  init f := f = new
  step f e := (f.perform e).map Prod.swap

/-- No `halt` has kept the mutex. -/
def Free (f : LogFactory) : Prop := ∀ l, f.pInstance = some l → l.held = false

section Free

variable {f f' : LogFactory} {thrown : Thrown}

theorem Free.callLogger {call : Logger → Option (ReturnValues × Logger)}
    {answered : ReturnValues → LogFactory → Thrown × LogFactory} (hf : f.Free)
    (returns : ∀ l, l.held = false → (call l).isSome = true)
    (frees : ∀ l retVal l', call l = some (retVal, l') → l'.held = false)
    (keeps : ∀ retVal f, (answered retVal f).2.pInstance = f.pInstance) :
    ∃ thrown f', f.callLogger call answered = some (thrown, f') ∧ f'.Free := by
  rw [LogFactory.callLogger]
  split
  · exact ⟨_, f, rfl, hf⟩
  · rename_i l hl
    obtain ⟨⟨retVal, l'⟩, hcall⟩ := Option.isSome_iff_exists.mp (returns l (hf l hl))
    rw [hcall]
    refine ⟨_, _, rfl, fun l'' hl'' => ?_⟩
    rw [keeps] at hl''
    obtain rfl := Option.some.inj hl''
    exact frees l retVal l' hcall

theorem Free.init (hf : f.Free) (loggerType : Loggertype) : (f.init loggerType).2.Free := by
  rw [LogFactory.init]
  split
  · exact hf
  · cases loggerType
    intro l hl
    obtain rfl := Option.some.inj hl
    rfl

theorem Free.initLogger (hf : f.Free) (config : Option LogCfg) (answer : InitAnswer) :
    ∃ thrown f', f.initLogger config answer = some (thrown, f') ∧ f'.Free := by
  rw [LogFactory.initLogger]
  split
  · exact ⟨_, f, rfl, hf⟩
  · split
    · exact ⟨_, f, rfl, hf⟩
    · apply hf.callLogger
      · intro l free
        exact Logger.locked_isSome free
      · intro l retVal l' hcall
        exact Logger.init_free hcall
      · intro retVal f
        split
        · rfl
        · split <;> rfl

theorem Free.startLogger (hf : f.Free) :
    ∃ thrown f', f.startLogger = some (thrown, f') ∧ f'.Free := by
  rw [LogFactory.startLogger]
  split
  · exact ⟨_, f, rfl, hf⟩
  · split
    · exact ⟨_, f, rfl, hf⟩
    · apply hf.callLogger
      · intro l free
        exact Logger.locked_isSome free
      · intro l retVal l' hcall
        exact Logger.start_free hcall
      · intro retVal f
        split <;> rfl

theorem Free.stopLogger (hf : f.Free) :
    ∃ thrown f', f.stopLogger = some (thrown, f') ∧ f'.Free := by
  rw [LogFactory.stopLogger]
  split
  · exact ⟨_, f, rfl, hf⟩
  · apply hf.callLogger
    · intro l free
      exact Logger.locked_isSome free
    · intro l retVal l' hcall
      exact Logger.stop_free hcall
    · intro retVal f
      split <;> rfl

/-- Every call comes back, with the mutex free. -/
theorem Free.perform (hf : f.Free) (e : Operation) :
    ∃ thrown f', f.perform e = some (thrown, f') ∧ f'.Free := by
  cases e with
  | init loggerType => exact ⟨_, _, rfl, hf.init loggerType⟩
  | initLogger config answer => exact hf.initLogger config answer
  | startLogger => exact hf.startLogger
  | stopLogger => exact hf.stopLogger

/-- In a run of a factory no call waits for the mutex. -/
theorem perform_returns (reach : machine.Reachable (fun _ _ => True) f) (e : Operation) :
    (f.perform e).isSome = true := by
  have free : f.Free := by
    apply reach.invariant
    · rintro f rfl l hl
      cases hl
    · intro a e b o ha _ move
      obtain ⟨⟨thrown, f'⟩, hperform, hswap⟩ := Option.map_eq_some_iff.mp move
      obtain ⟨rfl, rfl⟩ := Prod.mk.inj hswap
      obtain ⟨thrown', f'', hperform', free⟩ := ha.perform e
      rw [hperform] at hperform'
      obtain ⟨-, rfl⟩ := Prod.mk.inj (Option.some.inj hperform')
      exact free
  obtain ⟨thrown, f', hperform, -⟩ := free.perform e
  rw [hperform]
  rfl

end Free

/-- The two statuses tell the same. -/
def Agrees (f : LogFactory) : Prop :=
  (f.factoryStatus = .logSystemInited ↔ f.loggerStatus = some .inited) ∧
    (f.factoryStatus = .logSystemStarted ↔ f.loggerStatus = some .started)

/-- After a call the statuses agree, and if it has thrown nothing has changed. -/
structure Consistent (f f' : LogFactory) (thrown : Thrown) : Prop where
  agrees : f'.Agrees
  unchanged : ∀ message, thrown = .error (.factory message) →
    f'.factoryStatus = f.factoryStatus ∧ f'.loggerStatus = f.loggerStatus ∧ f'.pCfg = f.pCfg

/-- An `InitLogger` that gets as far as the logger has a configuration, and if Pantheios fails
it is the one that the logger has already. -/
def Configures (f : LogFactory) : Operation → Prop
  | .initLogger config answer =>
      f.factoryStatus = .loggerNotInited ∨ f.factoryStatus = .logSystemStarted →
        config.isSome = true ∧
          (answer.pantheiosInit < 0 → f.pCfg = config.map LogCfg.address)
  | _ => True

instance (f : LogFactory) (e : Operation) : Decidable (f.Configures e) :=
  match e with
  | .initLogger _ _ => inferInstanceAs (Decidable (_ ∨ _ → _ ∧ (_ → _)))
  | .init _ | .startLogger | .stopLogger => inferInstanceAs (Decidable True)

/-- The statuses agree, and there is a logger once the factory has been inited. -/
structure Sound (f : LogFactory) : Prop where
  agrees : f.Agrees
  instance_iff : f.pInstance.isSome = true ↔ f.factoryStatus ≠ .factoryNotInited

variable {f f' : LogFactory} {thrown : Thrown}

theorem Sound.consistent (hf : f.Sound) (thrown : Thrown) : Consistent f f thrown :=
  ⟨hf.agrees, fun _ _ => ⟨rfl, rfl, rfl⟩⟩

/-- A call that returns, and leaves a status and a logger that tell the same. -/
theorem returned_sound {status : FactoryStatus} {l : Logger}
    (hstatus : status ≠ .factoryNotInited)
    (hinited : status = .logSystemInited ↔ l.loggerStatus = .inited)
    (hstarted : status = .logSystemStarted ↔ l.loggerStatus = .started) :
    Sound { factoryStatus := status, pInstance := some l } ∧
      Consistent f { factoryStatus := status, pInstance := some l } (.ok ()) := by
  have hagrees : Agrees { factoryStatus := status, pInstance := some l } := by
    simpa [Agrees, loggerStatus] using And.intro hinited hstarted
  exact ⟨⟨hagrees, by simpa using hstatus⟩, hagrees, by simp⟩

/-- A call of the logger, taken apart. -/
theorem callLogger_inv {call : Logger → Option (ReturnValues × Logger)}
    {answered : ReturnValues → LogFactory → Thrown × LogFactory}
    (h : f.callLogger call answered = some (thrown, f')) :
    (f.pInstance = none ∧ f' = f) ∨
      ∃ l retVal l', f.pInstance = some l ∧ call l = some (retVal, l') ∧
        answered retVal { f with pInstance := some l' } = (thrown, f') := by
  rw [callLogger] at h
  split at h
  · rename_i hnone
    exact .inl ⟨hnone, (Prod.mk.inj (Option.some.inj h)).2.symm⟩
  · rename_i l hl
    simp only [Option.map_eq_some_iff, Prod.exists] at h
    obtain ⟨retVal, l', hcall, hanswered⟩ := h
    exact .inr ⟨l, retVal, l', hl, hcall, hanswered⟩

/-- In an inited factory there is a logger to be called. -/
theorem callLogger_cases {call : Logger → Option (ReturnValues × Logger)}
    {answered : ReturnValues → LogFactory → Thrown × LogFactory}
    (hf : f.Sound) (hstatus : f.factoryStatus ≠ .factoryNotInited)
    (h : f.callLogger call answered = some (thrown, f')) :
    ∃ l retVal l', f.pInstance = some l ∧ call l = some (retVal, l') ∧
      answered retVal { f with pInstance := some l' } = (thrown, f') := by
  obtain ⟨hnone, -⟩ | hcall := callLogger_inv h
  · have hsome := hf.instance_iff.mpr hstatus
    simp [hnone] at hsome
  · exact hcall

/-- A logger that has been started, and its factory with it. -/
theorem startLogger_sound (hf : f.Sound) (h : f.startLogger = some (thrown, f')) :
    f'.Sound ∧ Consistent f f' thrown := by
  simp only [startLogger] at h
  split at h
  · obtain ⟨rfl, rfl⟩ := Prod.mk.inj (Option.some.inj h)
    exact ⟨hf, hf.consistent _⟩
  · rename_i hfactory
    split at h
    · obtain ⟨rfl, rfl⟩ := Prod.mk.inj (Option.some.inj h)
      exact ⟨hf, hf.consistent _⟩
    · rename_i hstatus
      obtain ⟨l, retVal, l', hl, hcall, hanswered⟩ := callLogger_cases hf hfactory h
      have hinited : l.loggerStatus = .inited := by
        simpa [loggerStatus, hl] using hf.agrees.1.mp (not_not.mp hstatus)
      obtain ⟨rfl, hl'⟩ := Logger.start_inited hinited hcall
      rw [if_neg (by simp)] at hanswered
      obtain ⟨rfl, rfl⟩ := Prod.mk.inj hanswered
      exact returned_sound (by simp) (by simp [hl']) (by simp [hl'])

theorem stopLogger_sound (hf : f.Sound) (h : f.stopLogger = some (thrown, f')) :
    f'.Sound ∧ Consistent f f' thrown := by
  simp only [stopLogger] at h
  split at h
  · obtain ⟨rfl, rfl⟩ := Prod.mk.inj (Option.some.inj h)
    exact ⟨hf, hf.consistent _⟩
  · rename_i hstatus
    have hfactory : f.factoryStatus ≠ .factoryNotInited := by
      simp_all
    obtain ⟨l, retVal, l', hl, hcall, hanswered⟩ := callLogger_cases hf hfactory h
    have hstarted : l.loggerStatus = .started := by
      simpa [loggerStatus, hl] using hf.agrees.2.mp (not_not.mp hstatus)
    obtain ⟨rfl, hl'⟩ := Logger.stop_started hstarted hcall
    rw [if_neg (by simp)] at hanswered
    obtain ⟨rfl, rfl⟩ := Prod.mk.inj hanswered
    exact returned_sound (by simp) (by simp [hl']) (by simp [hl'])

theorem init_sound (hf : f.Sound) (loggerType : Loggertype) :
    (f.init loggerType).2.Sound ∧ Consistent f (f.init loggerType).2 (f.init loggerType).1 := by
  rw [init]
  split
  · exact ⟨hf, hf.consistent _⟩
  · cases loggerType
    exact returned_sound (by simp) (by simp [Logger.new]) (by simp [Logger.new])

/-- An `InitLogger` of an inited logger is refused; any other one has the logger's answer. -/
theorem initLogger_cases {config : Option LogCfg} {answer : InitAnswer} (hf : f.Sound)
    (h : f.initLogger config answer = some (thrown, f')) :
    ((f.factoryStatus = .factoryNotInited ∨ f.factoryStatus = .logSystemInited) ∧ f' = f) ∨
      ((f.factoryStatus = .loggerNotInited ∨ f.factoryStatus = .logSystemStarted) ∧
        ∃ l retVal l', f.pInstance = some l ∧ l.loggerStatus ≠ .inited ∧
          l.init config answer = some (retVal, l') ∧
          (if retVal = .failure then
              (.error (.factory "Failed to initiate logger"), { f with pInstance := some l' })
            else if retVal = .alreadyInited then
              (.error (.factory "Logger already inited!"), { f with pInstance := some l' })
            else (.ok (), { factoryStatus := .logSystemInited, pInstance := some l' })) =
              (thrown, f')) := by
  rw [initLogger] at h
  split at h
  · rename_i hstatus
    exact .inl ⟨.inl hstatus, (Prod.mk.inj (Option.some.inj h)).2.symm⟩
  · rename_i hfactory
    split at h
    · rename_i hstatus
      exact .inl ⟨.inr hstatus, (Prod.mk.inj (Option.some.inj h)).2.symm⟩
    · rename_i hstatus
      obtain ⟨l, retVal, l', hl, hcall, hanswered⟩ := callLogger_cases hf hfactory h
      have hreached : f.factoryStatus = .loggerNotInited ∨ f.factoryStatus = .logSystemStarted := by
        cases hs : f.factoryStatus <;> simp_all
      have hnot : l.loggerStatus ≠ .inited := by
        intro hinited
        apply hstatus
        apply hf.agrees.1.mpr
        rw [loggerStatus, hl, Option.map_some, hinited]
      exact .inr ⟨hreached, l, retVal, l', hl, hnot, hcall, hanswered⟩

/-- Where an `InitLogger` gets, by the answer of the logger. -/
theorem initLogger_sound {config : Option LogCfg} {answer : InitAnswer} (hf : f.Sound)
    (h : f.initLogger config answer = some (thrown, f')) :
    (Consistent f f' thrown → f'.Sound) ∧
      (Consistent f f' thrown ↔ f.Configures (.initLogger config answer)) := by
  obtain ⟨hrefused, rfl⟩ | ⟨hreached, l, retVal, l', hl, hnot, hcall, hanswered⟩ :=
    initLogger_cases hf h
  · refine ⟨fun _ => hf, fun _ hreached => ?_, fun _ => hf.consistent thrown⟩
    obtain hstatus | hstatus := hrefused <;> simp [hstatus] at hreached
  · have hloggerStatus : f.loggerStatus = some l.loggerStatus := by
      rw [loggerStatus, hl, Option.map_some]
    obtain ⟨hinited, -, -⟩ | ⟨-, rfl, rfl, rfl⟩ | ⟨-, kept, rfl, hfailed, rfl, rfl⟩ |
      ⟨-, kept, rfl, hdone, rfl, hl'⟩ := Logger.init_cases hcall
    · exact absurd hinited hnot
    · -- the answer that the factory does not know
      rw [if_neg (by simp), if_neg (by simp)] at hanswered
      obtain ⟨rfl, rfl⟩ := Prod.mk.inj hanswered
      have hinconsistent : ¬ Consistent f
          { factoryStatus := .logSystemInited, pInstance := some l' } (.ok ()) := by
        intro hc
        have hinited := hc.agrees.1.mp rfl
        exact hnot (Option.some.inj hinited)
      refine ⟨fun hc => absurd hc hinconsistent, fun hc => absurd hc hinconsistent,
        fun hlegal => ?_⟩
      cases (hlegal hreached).1
    · rw [if_pos rfl] at hanswered
      obtain ⟨rfl, rfl⟩ := Prod.mk.inj hanswered
      have hagrees : Agrees { f with pInstance := some (l.configured kept) } := by
        have hf := hf.agrees
        simp only [Agrees, hloggerStatus] at hf
        exact hf
      have hinstance : ({ f with pInstance := some (l.configured kept) } : LogFactory).Sound := by
        refine ⟨hagrees, ?_⟩
        rw [← hf.instance_iff, hl]
        rfl
      refine ⟨fun _ => hinstance, fun hc _ => ⟨rfl, fun _ => ?_⟩,
        fun hlegal => ⟨hagrees, fun _ _ => ⟨rfl, hloggerStatus.symm, ?_⟩⟩⟩
      · exact (hc.unchanged _ rfl).2.2.symm
      · exact ((hlegal hreached).2 hfailed).symm
    · rw [if_neg (by simp), if_neg (by simp)] at hanswered
      obtain ⟨rfl, rfl⟩ := Prod.mk.inj hanswered
      have hdone' : Sound { factoryStatus := .logSystemInited, pInstance := some l' } ∧
          Consistent f { factoryStatus := .logSystemInited, pInstance := some l' } (.ok ()) :=
        returned_sound (by simp) (by simp [hl']) (by simp [hl'])
      exact ⟨fun _ => hdone'.1, fun _ _ => ⟨rfl, fun hfailed => absurd hfailed hdone⟩,
        fun _ => hdone'.2⟩

theorem perform_sound {e : Operation} (hf : f.Sound) (h : f.perform e = some (thrown, f')) :
    (Consistent f f' thrown → f'.Sound) ∧ (Consistent f f' thrown ↔ f.Configures e) := by
  have hkept : f'.Sound ∧ Consistent f f' thrown → f.Configures e →
      (Consistent f f' thrown → f'.Sound) ∧ (Consistent f f' thrown ↔ f.Configures e) :=
    fun hkept hlegal => ⟨fun _ => hkept.1, fun _ => hlegal, fun _ => hkept.2⟩
  cases e with
  | init loggerType =>
      obtain ⟨rfl, rfl⟩ := Prod.mk.inj (Option.some.inj h)
      exact hkept (init_sound hf loggerType) trivial
  | initLogger config answer => exact initLogger_sound hf h
  | startLogger => exact hkept (startLogger_sound hf h) trivial
  | stopLogger => exact hkept (stopLogger_sound hf h) trivial

theorem new_sound : new.Sound := by
  constructor <;> simp [Agrees, loggerStatus, new]

/-- **Agreement.** In every run of a factory the statuses agree after each call and a call
that throws changes nothing exactly when each `InitLogger` of the run that gets as far as the
logger has a configuration, and the one that the logger has already wherever Pantheios fails. -/
theorem consistent_iff_configures {trace : List (Operation × Thrown)}
    (run : machine.Run (fun _ _ => True) new trace f) :
    machine.EveryStep new trace (fun a _ b o => Consistent a b o) ↔
      machine.Run Configures new trace f := by
  have hsound : ∀ a e b o, Sound a → machine.step a e = some (b, o) →
      (Consistent a b o → b.Sound) ∧ (Consistent a b o ↔ a.Configures e) := by
    intro a e b o ha move
    obtain ⟨⟨thrown, f'⟩, hperform, hswap⟩ := Option.map_eq_some_iff.mp move
    obtain ⟨rfl, rfl⟩ := Prod.mk.inj hswap
    exact perform_sound ha hperform
  exact run.everyStep_iff new_sound (fun a e b o ha move => (hsound a e b o ha move).1)
    (fun a e b o ha move => (hsound a e b o ha move).2)

/-- A factory whose logger is started, configured again, and stopped. -/
def restartRun : List Operation :=
  let config : LogCfg := { address := 1, processName := [97], configMask := 2 }
  [.init .pantheios, .startLogger,
    .initLogger (some config) { pantheiosInit := 0, pid := 42, stamp := [] }, .startLogger,
    .initLogger (some config) { pantheiosInit := -1, pid := 42, stamp := [] }, .stopLogger]

theorem consistent_restartRun : ∃ trace f, machine.Run Configures new trace f ∧
    (trace.map Prod.fst = restartRun ∧ f.factoryStatus = .logSystemInited ∧
      trace.map Prod.snd = [.ok (), .error (.factory "Logger not inited!"), .ok (), .ok (),
        .error (.factory "Failed to initiate logger"), .ok ()]) ∧
    machine.EveryStep new trace fun a _ b o => Consistent a b o := by
  obtain ⟨trace, f, run, hevents⟩ := Machine.Run.exists_of_exec machine Configures new restartRun
    (fun trace f => trace.map Prod.fst = restartRun ∧ f.factoryStatus = .logSystemInited ∧
      trace.map Prod.snd = [.ok (), .error (.factory "Logger not inited!"), .ok (), .ok (),
        .error (.factory "Failed to initiate logger"), .ok ()]) (by decide)
  exact ⟨trace, f, run, hevents,
    (consistent_iff_configures (run.mono fun _ _ _ => trivial)).mpr run⟩

/-- Without a configuration the factory counts the logger as inited. -/
theorem null_inited : ∃ f trace, machine.Run (fun _ _ => True) new trace f ∧
    ¬ machine.EveryStep new trace fun a _ b o => Consistent a b o := by
  let f : LogFactory := { factoryStatus := .loggerNotInited, pInstance := some Logger.new }
  let f' : LogFactory := { factoryStatus := .logSystemInited, pInstance := some Logger.new }
  let answer : InitAnswer := { pantheiosInit := 0, pid := 42, stamp := [] }
  have first : machine.step new (.init .pantheios) = some (f, .ok ()) := rfl
  have second : machine.step f (.initLogger none answer) = some (f', .ok ()) := rfl
  refine ⟨f', _, .cons trivial first (.single trivial second), fun h => ?_⟩
  have hc := h [(.init .pantheios, .ok ())] _ _ [] _ _ rfl (.single trivial first) second
  have hinited : f'.loggerStatus = some .inited := hc.agrees.1.mp rfl
  cases hinited

end LogFactory

end Netbroker
