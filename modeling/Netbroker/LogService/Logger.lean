import Netbroker.LogService.Report
import Netbroker.Transition.Machine

/-!
# The logger

`Pantheios_Logger` puts a status in front of Pantheios. The status is moved by `init`,
`start`, `stop` and `halt`, and each `Log_*` call reads it for itself, under the mutex
that the others take as well.

The mutex is not recursive, and `halt` calls `stop` with the mutex in its hands: a `halt`
of a started logger neither returns nor lets go.

The calls of the life cycle and the sixteen `Log_*` calls are functions of the logger, `none`
where they wait for ever. `Log_NOTICE` of a format has a body of its own, since it is the one
that does not look at the status.
-/

namespace Netbroker

open Transition

/-- `ILogService::LoggerStatus`. -/
inductive LoggerStatus where
  | default
  | inited
  | stopped
  | started
  deriving DecidableEq, Repr

/-- `ILogService::ReturnValues`. -/
inductive ReturnValues where
  | failure
  | wrongConfiguration
  | notInited
  | alreadyInited
  | notStarted
  | alreadyStarted
  | success
  deriving DecidableEq, Repr

/-- What `init` reads of the `ILogCfg` at an address. -/
structure LogCfg where
  address : Nat
  processName : Str
  configMask : BitVec 8
  deriving DecidableEq, Repr

/-- `CFG_LOGTOFILE` is set. -/
def LogCfg.logToFile (config : LogCfg) : Bool := config.configMask &&& 0x02 ≠ 0

/-- The entries of `PAN_BE_N_BACKEND_LIST` ahead of its terminator. -/
inductive Backend where
  | file
  | fprintf
  deriving DecidableEq, Repr

/-- The severities of Pantheios. -/
inductive Severity where
  | debug
  | informational
  | notice
  | warning
  | error
  | critical
  | alert
  | emergency
  deriving DecidableEq, Repr

/-- What is handed to Pantheios: a text, or a format whose arguments Pantheios fills in. -/
structure Message where
  severity : Severity
  text : Str
  deriving DecidableEq, Repr

/-- What the system has to say in an `init`. -/
structure InitAnswer where
  pantheiosInit : Int
  pid : Int
  /-- The time of day as `strftime` prints it. -/
  stamp : Str
  deriving DecidableEq, Repr

/-- How a call ends. -/
inductive Logger.Ending where
  | returned (value : Option ReturnValues)
  /-- The mutex is not to be had. -/
  | blocked
  /-- `asctime` has been given a null pointer. -/
  | undefined
  deriving DecidableEq, Repr

structure Logger.Outcome where
  handed : List Message
  ending : Logger.Ending
  deriving DecidableEq, Repr

/-- A logger, with the backends and the log file it has set for Pantheios. -/
structure Logger where
  loggerStatus : LoggerStatus
  pCfg : Option Nat
  applicationName : Str
  backends : List Backend
  logFile : Option Str
  /-- A `halt` that waits for itself has the mutex. -/
  held : Bool
  deriving DecidableEq, Repr

namespace Logger

def new : Logger where
  loggerStatus := .default
  pCfg := none
  applicationName := []
  backends := []
  logFile := none
  held := false

/-- A body that takes the mutex first. -/
def locked {α : Type} (l : Logger) (body : α) : Option α := if l.held then none else some body

theorem locked_eq_some {α : Type} {l : Logger} {body x : α} :
    l.locked body = some x ↔ l.held = false ∧ body = x := by
  simp [locked]

theorem locked_isSome {α : Type} {l : Logger} {body : α} (free : l.held = false) :
    (l.locked body).isSome = true := by
  simp [locked, free]

/-- The mutex is given back where the body has not put its hands on it. -/
theorem locked_free {l l' : Logger} {body : ReturnValues × Logger} {retVal : ReturnValues}
    (hbody : body.2.held = l.held) (h : l.locked body = some (retVal, l')) : l'.held = false := by
  obtain ⟨free, rfl⟩ := locked_eq_some.mp h
  exact hbody.trans free

/-- The path of the log file. -/
def finalFileName (config : LogCfg) (answer : InitAnswer) : Str :=
  (if config.processName = [] then literal "noname" else config.processName) ++
    literal "_" ++ literal (toString answer.pid) ++ literal "_" ++
    answer.stamp ++ literal ".log"

/-- The configuration is kept before Pantheios has had its say. -/
def configured (l : Logger) (config : LogCfg) : Logger :=
  { l with
    pCfg := some config.address
    applicationName := config.processName
    backends := if config.logToFile then [.fprintf, .file] else [.fprintf] }

def init (l : Logger) (config : Option LogCfg) (answer : InitAnswer) :
    Option (ReturnValues × Logger) :=
  l.locked <|
    if l.loggerStatus = .inited then (.alreadyInited, l)
    else
      match config with
      | none => (.wrongConfiguration, l)
      | some config =>
          if answer.pantheiosInit < 0 then (.failure, l.configured config)
          else
            (.success,
              { l.configured config with
                logFile :=
                  if config.logToFile then some (finalFileName config answer) else l.logFile
                loggerStatus := .inited })

def start (l : Logger) : Option (ReturnValues × Logger) :=
  l.locked <|
    if l.loggerStatus ≠ .inited then (.notInited, l)
    else if l.loggerStatus = .started then (.alreadyStarted, l)
    else (.success, { l with loggerStatus := .started })

def stop (l : Logger) : Option (ReturnValues × Logger) :=
  l.locked <|
    if l.loggerStatus ≠ .started then (.notStarted, l)
    else (.success, { l with loggerStatus := .inited })

/-- `halt`; in a started logger it keeps the mutex. -/
def halt (l : Logger) : Ending × Logger :=
  if l.held then (.blocked, l)
  else if l.loggerStatus = .started then (.blocked, { l with held := true })
  else (.returned none, { l with loggerStatus := .default })

/-- How an `init` that has got the mutex ends. -/
theorem init_cases {l l' : Logger} {config : Option LogCfg} {answer : InitAnswer}
    {retVal : ReturnValues} (h : l.init config answer = some (retVal, l')) :
    (l.loggerStatus = .inited ∧ retVal = .alreadyInited ∧ l' = l) ∨
      (l.loggerStatus ≠ .inited ∧ config = none ∧ retVal = .wrongConfiguration ∧ l' = l) ∨
      (l.loggerStatus ≠ .inited ∧ ∃ kept, config = some kept ∧ answer.pantheiosInit < 0 ∧
        retVal = .failure ∧ l' = l.configured kept) ∨
      (l.loggerStatus ≠ .inited ∧ ∃ kept, config = some kept ∧ ¬ answer.pantheiosInit < 0 ∧
        retVal = .success ∧ l'.loggerStatus = .inited) := by
  rw [init.eq_def, locked_eq_some] at h
  replace h := h.2
  split at h
  · rename_i hstatus
    obtain ⟨rfl, rfl⟩ := Prod.mk.inj h
    exact .inl ⟨hstatus, rfl, rfl⟩
  · rename_i hstatus
    split at h
    · obtain ⟨rfl, rfl⟩ := Prod.mk.inj h
      exact .inr (.inl ⟨hstatus, rfl, rfl, rfl⟩)
    · rename_i kept
      split at h
      · rename_i hfailed
        obtain ⟨rfl, rfl⟩ := Prod.mk.inj h
        exact .inr (.inr (.inl ⟨hstatus, kept, rfl, hfailed, rfl, rfl⟩))
      · rename_i hdone
        obtain ⟨rfl, rfl⟩ := Prod.mk.inj h
        exact .inr (.inr (.inr ⟨hstatus, kept, rfl, hdone, rfl, rfl⟩))

theorem init_free {l l' : Logger} {config : Option LogCfg} {answer : InitAnswer}
    {retVal : ReturnValues} (h : l.init config answer = some (retVal, l')) : l'.held = false := by
  refine locked_free ?_ h
  split
  · rfl
  · split
    · rfl
    · split
      · rfl
      · rfl

theorem start_free {l l' : Logger} {retVal : ReturnValues} (h : l.start = some (retVal, l')) :
    l'.held = false := by
  refine locked_free ?_ h
  split
  · rfl
  · split
    · rfl
    · rfl

theorem stop_free {l l' : Logger} {retVal : ReturnValues} (h : l.stop = some (retVal, l')) :
    l'.held = false := by
  refine locked_free ?_ h
  split
  · rfl
  · rfl

theorem start_inited {l l' : Logger} {retVal : ReturnValues} (hl : l.loggerStatus = .inited)
    (h : l.start = some (retVal, l')) : retVal = .success ∧ l'.loggerStatus = .started := by
  rw [start, locked_eq_some] at h
  replace h := h.2
  rw [if_neg (by simp [hl]), if_neg (by simp [hl])] at h
  obtain ⟨rfl, rfl⟩ := Prod.mk.inj h
  exact ⟨rfl, rfl⟩

theorem start_success {l l' : Logger} {retVal : ReturnValues} (h : l.start = some (retVal, l'))
    (hsuccess : retVal = .success) : l'.loggerStatus = .started := by
  rw [start, locked_eq_some] at h
  replace h := h.2
  split at h
  · obtain ⟨rfl, -⟩ := Prod.mk.inj h
    cases hsuccess
  · split at h
    · obtain ⟨rfl, -⟩ := Prod.mk.inj h
      cases hsuccess
    · obtain ⟨-, rfl⟩ := Prod.mk.inj h
      rfl

theorem stop_started {l l' : Logger} {retVal : ReturnValues} (hl : l.loggerStatus = .started)
    (h : l.stop = some (retVal, l')) : retVal = .success ∧ l'.loggerStatus = .inited := by
  rw [stop, locked_eq_some] at h
  replace h := h.2
  rw [if_neg (by simp [hl])] at h
  obtain ⟨rfl, rfl⟩ := Prod.mk.inj h
  exact ⟨rfl, rfl⟩

variable (asctime : BitVec 64 → Option Str)

/-- The body that all `Log_*` calls of a report have in common. -/
def logReport (severity : Severity) (title : String) (l : Logger) (r : LogReport) : Outcome :=
  if l.held then { handed := [], ending := .blocked }
  else if l.loggerStatus ≠ .started then { handed := [], ending := .returned none }
  else
    match r.getFormattedReport asctime (literal title) with
    | none => { handed := [], ending := .undefined }
    | some oss => { handed := [⟨severity, cstr oss⟩], ending := .returned none }

/-- The body that all `Log_*` calls of a format have in common, `Log_NOTICE` apart. -/
def logFormat (severity : Severity) (l : Logger) (format : Str) : Outcome :=
  if l.held then { handed := [], ending := .blocked }
  else if l.loggerStatus ≠ .started then { handed := [], ending := .returned none }
  else { handed := [⟨severity, format⟩], ending := .returned none }

def logDebugReport := logReport asctime .debug "DEBUG"

def logDebug := logFormat .debug

def logInfoReport := logReport asctime .informational "INFO"

def logInfo := logFormat .informational

def logNoticeReport := logReport asctime .notice "NOTICE"

/-- Neither the mutex nor the status is looked at. -/
def logNotice (_l : Logger) (format : Str) : Outcome :=
  { handed := [⟨.notice, format⟩], ending := .returned none }

def logWarningReport := logReport asctime .warning "WARNING"

def logWarning := logFormat .warning

def logErrorReport := logReport asctime .error "ERROR"

def logError := logFormat .error

/-- `localtime` is called once more than in the others, for nothing. -/
def logCriticalReport := logReport asctime .critical "CRITICAL"

def logCritical := logFormat .critical

def logAlertReport := logReport asctime .alert "ALERT"

def logAlert := logFormat .alert

def logEmergencyReport := logReport asctime .emergency "EMERGENCY"

def logEmergency := logFormat .emergency

/-- The operations of a logger. -/
inductive Operation where
  | init (config : Option LogCfg) (answer : InitAnswer)
  | start
  | stop
  | halt
  | report (severity : Severity) (r : LogReport)
  | format (severity : Severity) (format : Str)
  deriving DecidableEq, Repr

/-- The `Log_*` call of a report. -/
def reportCall : Severity → Logger → LogReport → Outcome
  | .debug => logDebugReport asctime
  | .informational => logInfoReport asctime
  | .notice => logNoticeReport asctime
  | .warning => logWarningReport asctime
  | .error => logErrorReport asctime
  | .critical => logCriticalReport asctime
  | .alert => logAlertReport asctime
  | .emergency => logEmergencyReport asctime

/-- The `Log_*` call of a format. -/
def formatCall : Severity → Logger → Str → Outcome
  | .debug => logDebug
  | .informational => logInfo
  | .notice => logNotice
  | .warning => logWarning
  | .error => logError
  | .critical => logCritical
  | .alert => logAlert
  | .emergency => logEmergency

/-- A call of the life cycle that has got the mutex, or has not. -/
def lifeCycle (l : Logger) : Option (ReturnValues × Logger) → Logger × Outcome
  | none => (l, { handed := [], ending := .blocked })
  | some (value, l') => (l', { handed := [], ending := .returned (some value) })

def perform (l : Logger) : Operation → Logger × Outcome
  | .init config answer => l.lifeCycle (l.init config answer)
  | .start => l.lifeCycle l.start
  | .stop => l.lifeCycle l.stop
  | .halt => (l.halt.2, { handed := [], ending := l.halt.1 })
  | .report severity r => (l, reportCall asctime severity l r)
  | .format severity format => (l, formatCall severity l format)

/-- A logger from its creation on. -/
def machine : Machine Logger Operation Outcome where
  init l := l = new
  step l e := some (l.perform asctime e)

variable {asctime} {l : Logger}

/-- The severity that the operation is named after. -/
def Operation.severity : Operation → Option Severity
  | .report severity _ | .format severity _ => some severity
  | _ => none

/-- A `Log_*` call hands over one message of its severity if the logger is started, and
nothing otherwise. -/
def Gated (l : Logger) (e : Operation) (o : Outcome) : Prop :=
  ∀ severity, e.severity = some severity →
    (o.handed ≠ [] → l.loggerStatus = .started) ∧
      (l.loggerStatus = .started → o.handed.map Message.severity = [severity])

/-- The call is not `Log_NOTICE` of a format in a logger that is not started; in one that
is, the mutex is free and the date of a report can be printed. -/
def Heard (asctime : BitVec 64 → Option Str) (l : Logger) : Operation → Prop
  | .format severity _ =>
      if severity = .notice then l.loggerStatus = .started
      else l.loggerStatus = .started → l.held = false
  | .report _ r => l.loggerStatus = .started → l.held = false ∧ (asctime r.date).isSome = true
  | _ => True

instance (l : Logger) (e : Operation) : Decidable (Heard asctime l e) :=
  match e with
  | .format severity _ =>
      inferInstanceAs (Decidable (if severity = .notice then _ else _ → _))
  | .report _ _ => inferInstanceAs (Decidable (_ → _ ∧ _))
  | .init _ _ | .start | .stop | .halt => inferInstanceAs (Decidable True)

/-- The reports of all severities go one way. -/
theorem reportCall_eq (asctime : BitVec 64 → Option Str) (severity : Severity) :
    ∃ title, reportCall asctime severity = logReport asctime severity title := by
  cases severity <;> exact ⟨_, rfl⟩

/-- So do the formats, but for one. -/
theorem formatCall_eq {severity : Severity} (h : severity ≠ .notice) :
    formatCall severity = logFormat severity := by
  cases severity <;> first | rfl | exact absurd rfl h

theorem logReport_gated (severity : Severity) (title : String) (r : LogReport) :
    Gated l (.report severity r) (logReport asctime severity title l r) ↔
      (l.loggerStatus = .started → l.held = false ∧ (asctime r.date).isSome = true) := by
  rw [Gated, logReport, LogReport.getFormattedReport]
  cases hstatus : l.loggerStatus <;> cases hheld : l.held <;> cases hdate : asctime r.date <;>
    simp [Operation.severity]

theorem logFormat_gated (severity : Severity) (format : Str) :
    Gated l (.format severity format) (logFormat severity l format) ↔
      (l.loggerStatus = .started → l.held = false) := by
  rw [Gated, logFormat]
  cases hstatus : l.loggerStatus <;> cases hheld : l.held <;> simp [Operation.severity]

/-- The call that does not look lets everything through. -/
theorem logNotice_gated (format : Str) :
    Gated l (.format .notice format) (l.logNotice format) ↔ l.loggerStatus = .started := by
  rw [Gated, logNotice]
  simp [Operation.severity]

theorem perform_gated (l : Logger) (e : Operation) :
    Gated l e (l.perform asctime e).2 ↔ Heard asctime l e := by
  cases e with
  | report severity r =>
      obtain ⟨title, htitle⟩ := reportCall_eq asctime severity
      show Gated l _ (reportCall asctime severity l r) ↔ _
      rw [htitle, logReport_gated]
      rfl
  | format severity format =>
      show Gated l _ (formatCall severity l format) ↔ _
      by_cases hnotice : severity = .notice
      · rw [Heard, if_pos hnotice, hnotice]
        exact logNotice_gated format
      · rw [Heard, if_neg hnotice, formatCall_eq hnotice]
        exact logFormat_gated severity format
  | _ =>
      constructor
      · intro _
        trivial
      · intro _ severity hseverity
        cases hseverity

/-- **Gate.** In every run of a logger, its `Log_*` calls hand over one message of their own
severity while it is started and none otherwise exactly when no step of the run is the
`Log_NOTICE` of a format in a logger that is not started, and none is another `Log_*` call
in a started one that a `halt` has locked up or whose report has a date without a text. -/
theorem gated_iff_heard (asctime : BitVec 64 → Option Str) {l : Logger}
    {trace : List (Operation × Outcome)}
    (run : (machine asctime).Run (fun _ _ => True) new trace l) :
    (machine asctime).EveryStep new trace (fun a e _ o => Gated a e o) ↔
      (machine asctime).Run (Heard asctime) new trace l := by
  refine run.everyStep_iff (I := fun _ => True) trivial (fun _ _ _ _ _ _ _ => trivial) ?_
  intro a e b o _ move
  obtain rfl := (Prod.mk.inj (Option.some.inj move)).2
  exact perform_gated a e

/-- The first second, as it is printed. -/
def epoch (date : BitVec 64) : Option Str :=
  if date = 0 then some (literal "Thu Jan  1 00:00:00 1970\n") else none

/-- A life of a logger that logs to a file, with a report and a format. -/
def errorRun : List Operation :=
  [.init (some { address := 1, processName := [97], configMask := 2 })
      { pantheiosInit := 0, pid := 42, stamp := [] },
    .start,
    .report .alert
      { logType := LogType.alert.code, topic := [68], date := 0, procID := 42, source := [115],
        details := [] },
    .format .error [37, 115], .stop, .format .error [37, 115]]

theorem gated_errorRun : ∃ trace l, (machine epoch).Run (Heard epoch) new trace l ∧
    (trace.map Prod.fst = errorRun ∧
      (trace.flatMap fun x => x.2.handed.map Message.severity) = [.alert, .error]) ∧
    (machine epoch).EveryStep new trace fun a e _ o => Gated a e o := by
  obtain ⟨trace, l, run, hhanded⟩ := Machine.Run.exists_of_exec (machine epoch) (Heard epoch) new
    errorRun (fun trace _ => trace.map Prod.fst = errorRun ∧
      (trace.flatMap fun x => x.2.handed.map Message.severity) = [.alert, .error]) (by decide)
  exact ⟨trace, l, run, hhanded, (gated_iff_heard epoch (run.mono fun _ _ _ => trivial)).mpr run⟩

/-- A format is logged as a notice before the logger has been told anything. -/
theorem notice_ungated : ∃ l trace, (machine epoch).Run (fun _ _ => True) new trace l ∧
    ¬ (machine epoch).EveryStep new trace fun a e _ o => Gated a e o := by
  have move : (machine epoch).step new (.format .notice [104, 105]) =
      some (new, { handed := [⟨.notice, [104, 105]⟩], ending := .returned none }) := rfl
  refine ⟨new, _, .single trivial move, fun h => ?_⟩
  have hgated := h [] _ _ [] _ _ rfl .nil move
  have hstarted : new.loggerStatus = .started := (hgated .notice rfl).1 (by simp)
  cases hstarted

end Logger

end Netbroker
