import Netbroker.LogService.Factory

/-!
# The filters of the backends

An `ILogCfg` collects a mask of severities for each of two backends. `init` lists the
backends for Pantheios, and Pantheios asks the front end about each message: once whether
anybody wants it, as backend 0, and then for each listed backend by its number. The
front end has the mask of the console for an answer to the first question.

A configuration collects the union of the masks added for a backend, and the list of backends
is made of it when the logger is configured. Both are carried along the runs of a factory, and
a message is followed through the front end to the backends it reaches.
-/

namespace Netbroker

open Transition

abbrev cfgLogToConsole : BitVec 8 := 0x01
abbrev cfgLogToFile : BitVec 8 := 0x02

/-- `ILogService::ILogCfg`. -/
structure ILogCfg where
  processName : Str
  config : BitVec 8
  consoleFilterMask : BitVec 8
  fileFilterMask : BitVec 8
  deriving DecidableEq, Repr

/-- A call of `addConfigProperty`. -/
structure ConfigProperty where
  backendItem : BitVec 8
  severityMask : BitVec 8
  deriving DecidableEq, Repr

namespace ILogCfg

def new : ILogCfg where
  processName := []
  config := 0x00
  consoleFilterMask := 0x00
  fileFilterMask := 0x00

def addConfigProperty (c : ILogCfg) (p : ConfigProperty) : ILogCfg :=
  if p.backendItem = cfgLogToConsole then
    { c with
      config := c.config ||| p.backendItem
      consoleFilterMask := c.consoleFilterMask ||| p.severityMask }
  else if p.backendItem = cfgLogToFile then
    { c with
      config := c.config ||| p.backendItem
      fileFilterMask := c.fileFilterMask ||| p.severityMask }
  else c

def getConfigProperty (c : ILogCfg) (backendItem : BitVec 8) : BitVec 8 :=
  if backendItem = cfgLogToConsole then c.consoleFilterMask
  else if backendItem = cfgLogToFile then c.fileFilterMask
  else 0

/-- A configuration after a sequence of `addConfigProperty`. -/
def built (properties : List ConfigProperty) : ILogCfg := properties.foldl addConfigProperty new

end ILogCfg

/-- `PANTHEIOS_SEV_*`. -/
def Severity.code : Severity → BitVec 32
  | .emergency => 0
  | .alert => 1
  | .critical => 2
  | .error => 3
  | .warning => 4
  | .notice => 5
  | .informational => 6
  | .debug => 7

/-- `S_*`. -/
def Severity.bit : Severity → BitVec 8
  | .debug => 0x01
  | .informational => 0x02
  | .notice => 0x04
  | .warning => 0x08
  | .error => 0x10
  | .critical => 0x20
  | .alert => 0x40
  | .emergency => 0x80

/-- The number of the entry in `PAN_BE_N_BACKEND_LIST`. -/
def Backend.id : Backend → Nat
  | .file => 1
  | .fprintf => 2

/-- The last part of `pantheios_fe_isSeverityLogged`. -/
def maskedSeverity (severityMask : BitVec 8) (severity : BitVec 32) : BitVec 8 :=
  match (severity &&& 0x0f).toNat with
  | 0 => severityMask &&& Severity.emergency.bit
  | 1 => severityMask &&& Severity.alert.bit
  | 2 => severityMask &&& Severity.critical.bit
  | 3 => severityMask &&& Severity.error.bit
  | 4 => severityMask &&& Severity.warning.bit
  | 5 => severityMask &&& Severity.notice.bit
  | 6 => severityMask &&& Severity.informational.bit
  | 7 => severityMask &&& Severity.debug.bit
  | _ => 0x00

/-- `pantheios_fe_isSeverityLogged`, of which only 0 and not 0 are told apart. -/
def isSeverityLogged (c : ILogCfg) (severity : BitVec 32) (backEndId : Nat) : BitVec 8 :=
  match backEndId with
  | 0 => maskedSeverity (c.getConfigProperty cfgLogToConsole) severity
  | 1 => maskedSeverity (c.getConfigProperty cfgLogToFile) severity
  | 2 => maskedSeverity (c.getConfigProperty cfgLogToConsole) severity
  | _ => 0

theorem maskedSeverity_code (severityMask : BitVec 8) (s : Severity) :
    maskedSeverity severityMask s.code = severityMask &&& s.bit := by
  cases s <;> rfl

namespace Logger

variable (properties : Nat → List ConfigProperty)

/-- The properties of the configuration that the front end asks, where `properties` tells
those of each address. Without one it asks a new configuration. -/
def configProperties (l : Logger) : List ConfigProperty := (l.pCfg.map properties).getD []

/-- `getConfigCfg`. -/
def getConfigCfg (l : Logger) : ILogCfg := .built (l.configProperties properties)

/-- Pantheios hands a message on to a listed backend if the front end answers its two
questions with yes. -/
def Reaches (l : Logger) (m : Message) (k : Backend) : Prop :=
  k ∈ l.backends ∧ isSeverityLogged (l.getConfigCfg properties) m.severity.code 0 ≠ 0 ∧
    isSeverityLogged (l.getConfigCfg properties) m.severity.code k.id ≠ 0

end Logger

/-- A severity is in the union of the masks that have been added for a backend. -/
def Added (properties : List ConfigProperty) (backendItem : BitVec 8) (s : Severity) : Prop :=
  ∃ p ∈ properties, p.backendItem = backendItem ∧ p.severityMask &&& s.bit ≠ 0

instance (properties : List ConfigProperty) (backendItem : BitVec 8) (s : Severity) :
    Decidable (Added properties backendItem s) :=
  inferInstanceAs (Decidable (∃ p ∈ properties, _))

/-- Each backend gets the messages of the severities that have been added for it. -/
def Independent (properties : Nat → List ConfigProperty) (l : Logger) (m : Message) : Prop :=
  (l.Reaches properties m .file ↔
      Added (l.configProperties properties) cfgLogToFile m.severity) ∧
    (l.Reaches properties m .fprintf ↔
      Added (l.configProperties properties) cfgLogToConsole m.severity)

namespace ILogCfg

variable {c : ILogCfg} {p : ConfigProperty} {properties : List ConfigProperty}

theorem or_and_ne_zero {a b mask : BitVec 8} :
    (a ||| b) &&& mask ≠ 0 ↔ a &&& mask ≠ 0 ∨ b &&& mask ≠ 0 := by
  rw [BitVec.and_or_distrib_right]
  exact BitVec.or_eq_zero_iff.not.trans not_and_or

theorem addConfigProperty_file :
    (c.addConfigProperty p).fileFilterMask =
      if p.backendItem = cfgLogToFile then c.fileFilterMask ||| p.severityMask
      else c.fileFilterMask := by
  rw [addConfigProperty]
  by_cases hconsole : p.backendItem = cfgLogToConsole
  · simp [hconsole]
  · rw [if_neg hconsole]
    split <;> rfl

theorem addConfigProperty_console :
    (c.addConfigProperty p).consoleFilterMask =
      if p.backendItem = cfgLogToConsole then c.consoleFilterMask ||| p.severityMask
      else c.consoleFilterMask := by
  rw [addConfigProperty]
  split
  · rfl
  · split <;> rfl

theorem addConfigProperty_config :
    (c.addConfigProperty p).config &&& cfgLogToFile ≠ 0 ↔
      c.config &&& cfgLogToFile ≠ 0 ∨ p.backendItem = cfgLogToFile := by
  rw [addConfigProperty]
  by_cases hconsole : p.backendItem = cfgLogToConsole
  · rw [if_pos hconsole, or_and_ne_zero, hconsole]
    simp
  · rw [if_neg hconsole]
    by_cases hfile : p.backendItem = cfgLogToFile
    · rw [if_pos hfile, or_and_ne_zero, hfile]
      simp
    · rw [if_neg hfile]
      exact (or_iff_left hfile).symm

/-- A mask that grows by the properties of one backend collects their severities. -/
theorem foldl_mask {mask : ILogCfg → BitVec 8} {backendItem : BitVec 8}
    (add : ∀ c p, mask (addConfigProperty c p) =
      if p.backendItem = backendItem then mask c ||| p.severityMask else mask c)
    (properties : List ConfigProperty) (c : ILogCfg) (s : Severity) :
    mask (properties.foldl addConfigProperty c) &&& s.bit ≠ 0 ↔
      mask c &&& s.bit ≠ 0 ∨ Added properties backendItem s := by
  induction properties generalizing c with
  | nil => simp [Added]
  | cons p properties ih =>
      have hadded : Added (p :: properties) backendItem s ↔
          p.backendItem = backendItem ∧ p.severityMask &&& s.bit ≠ 0 ∨
            Added properties backendItem s := by
        simp only [Added, List.mem_cons, exists_eq_or_imp]
      rw [List.foldl_cons, ih, add, hadded]
      by_cases hitem : p.backendItem = backendItem
      · rw [if_pos hitem, or_and_ne_zero]
        simp only [hitem, true_and, or_assoc]
      · rw [if_neg hitem]
        simp only [hitem, false_and, false_or]

theorem built_file (properties : List ConfigProperty) (s : Severity) :
    (built properties).fileFilterMask &&& s.bit ≠ 0 ↔ Added properties cfgLogToFile s := by
  have add : ∀ c p, fileFilterMask (addConfigProperty c p) =
      if p.backendItem = cfgLogToFile then fileFilterMask c ||| p.severityMask
      else fileFilterMask c := fun _ _ => addConfigProperty_file
  rw [built]
  rw [foldl_mask add]
  simp [new]

theorem built_console (properties : List ConfigProperty) (s : Severity) :
    (built properties).consoleFilterMask &&& s.bit ≠ 0 ↔
      Added properties cfgLogToConsole s := by
  have add : ∀ c p, consoleFilterMask (addConfigProperty c p) =
      if p.backendItem = cfgLogToConsole then consoleFilterMask c ||| p.severityMask
      else consoleFilterMask c := fun _ _ => addConfigProperty_console
  rw [built]
  rw [foldl_mask add]
  simp [new]

/-- The file is asked for if some property was for it. -/
theorem foldl_config (properties : List ConfigProperty) (c : ILogCfg) :
    (properties.foldl addConfigProperty c).config &&& cfgLogToFile ≠ 0 ↔
      c.config &&& cfgLogToFile ≠ 0 ∨ ∃ p ∈ properties, p.backendItem = cfgLogToFile := by
  induction properties generalizing c with
  | nil => simp
  | cons p properties ih =>
      rw [List.foldl_cons, ih, addConfigProperty_config, or_assoc]
      simp only [List.mem_cons, exists_eq_or_imp]

theorem built_config_of_added {s : Severity} (h : Added properties cfgLogToFile s) :
    (built properties).config &&& cfgLogToFile ≠ 0 := by
  obtain ⟨p, hp, hitem, -⟩ := h
  exact (foldl_config properties new).mpr (.inr ⟨p, hp, hitem⟩)

end ILogCfg

namespace LogFactory

/-- The configurations of the run's `InitLogger` have been built before, each at its
address. -/
def ReadsConfig (properties : Nat → List ConfigProperty) (_f : LogFactory) : Operation → Prop
  | .initLogger (some config) _ =>
      config.configMask = (ILogCfg.built (properties config.address)).config
  | _ => True

instance (properties : Nat → List ConfigProperty) (f : LogFactory) (e : Operation) :
    Decidable (f.ReadsConfig properties e) :=
  match e with
  | .initLogger (some _) _ => inferInstanceAs (Decidable (_ = _))
  | .initLogger none _ | .init _ | .startLogger | .stopLogger =>
      inferInstanceAs (Decidable True)

variable {properties : Nat → List ConfigProperty}

/-- The list is that of the configuration the front end asks. -/
def Lists (properties : Nat → List ConfigProperty) (l : Logger) : Prop :=
  (l.pCfg = none ∧ l.backends = []) ∨
    ∃ address, l.pCfg = some address ∧
      l.backends =
        if (ILogCfg.built (properties address)).config &&& cfgLogToFile ≠ 0 then
          [.fprintf, .file]
        else [.fprintf]

theorem configured_lists {l : Logger} {config : LogCfg}
    (h : config.configMask = (ILogCfg.built (properties config.address)).config) :
    Lists properties (l.configured config) := by
  refine .inr ⟨config.address, rfl, ?_⟩
  simp only [Logger.configured, LogCfg.logToFile, h, decide_eq_true_eq]

/-- An `init` that changes the list changes the configuration with it, be it successful
or not. -/
theorem init_lists {l l' : Logger} {config : Option LogCfg} {answer : InitAnswer}
    {retVal : ReturnValues} (hl : Lists properties l)
    (hread : ∀ kept, config = some kept →
      kept.configMask = (ILogCfg.built (properties kept.address)).config)
    (h : l.init config answer = some (retVal, l')) : Lists properties l' := by
  unfold Logger.init at h
  replace h := (Logger.locked_eq_some.mp h).2
  split at h
  · obtain ⟨-, rfl⟩ := Prod.mk.inj h
    exact hl
  · split at h
    · obtain ⟨-, rfl⟩ := Prod.mk.inj h
      exact hl
    · rename_i kept
      have hkept : Lists properties (l.configured kept) := configured_lists (hread kept rfl)
      split at h
      · obtain ⟨-, rfl⟩ := Prod.mk.inj h
        exact hkept
      · obtain ⟨-, rfl⟩ := Prod.mk.inj h
        exact hkept

theorem locked_lists {l l' : Logger} {body : ReturnValues × Logger} {retVal : ReturnValues}
    (hl : Lists properties l) (hcfg : body.2.pCfg = l.pCfg) (hlist : body.2.backends = l.backends)
    (h : l.locked body = some (retVal, l')) : Lists properties l' := by
  obtain ⟨-, rfl⟩ := Logger.locked_eq_some.mp h
  rw [Lists] at hl ⊢
  rw [hcfg, hlist]
  exact hl

variable {f f' : LogFactory} {thrown : Thrown}

/-- A call of the logger keeps what the call keeps of the logger. -/
theorem callLogger_keeps {P : Logger → Prop} {call : Logger → Option (ReturnValues × Logger)}
    {answered : ReturnValues → LogFactory → Thrown × LogFactory}
    (hf : ∀ l, f.pInstance = some l → P l)
    (hcall : ∀ l retVal l', P l → call l = some (retVal, l') → P l')
    (hanswered : ∀ retVal f, (answered retVal f).2.pInstance = f.pInstance)
    (h : f.callLogger call answered = some (thrown, f')) :
    ∀ l, f'.pInstance = some l → P l := by
  obtain ⟨-, rfl⟩ | ⟨l, retVal, l', hl, hl', hanswer⟩ := callLogger_inv h
  · exact hf
  · have hkept := hanswered retVal { f with pInstance := some l' }
    rw [hanswer] at hkept
    intro l'' hl''
    obtain rfl := Option.some.inj (hkept.symm.trans hl'')
    exact hcall l retVal l' (hf l hl) hl'

/-- Each call keeps the list and the configuration together. -/
theorem perform_lists {e : Operation} (hf : ∀ l, f.pInstance = some l → Lists properties l)
    (hread : f.ReadsConfig properties e) (h : f.perform e = some (thrown, f')) :
    ∀ l, f'.pInstance = some l → Lists properties l := by
  have hrefused : ∀ {error : LogException}, some (Except.error error, f) = some (thrown, f') →
      ∀ l, f'.pInstance = some l → Lists properties l := by
    intro error heq
    obtain ⟨-, rfl⟩ := Prod.mk.inj (Option.some.inj heq)
    exact hf
  cases e with
  | init loggerType =>
      simp only [perform, init] at h
      split at h
      · exact hrefused h
      · obtain ⟨-, rfl⟩ := Prod.mk.inj (Option.some.inj h)
        intro l hl
        obtain rfl := Option.some.inj hl
        exact .inl ⟨rfl, rfl⟩
  | initLogger config answer =>
      simp only [perform, initLogger] at h
      split at h
      · exact hrefused h
      · split at h
        · exact hrefused h
        · refine callLogger_keeps hf (fun l retVal l' hl hcall => ?_) (fun retVal f => ?_) h
          · apply init_lists hl _ hcall
            rintro kept rfl
            exact hread
          · split
            · rfl
            · split <;> rfl
  | startLogger =>
      simp only [perform, startLogger] at h
      split at h
      · exact hrefused h
      · split at h
        · exact hrefused h
        · refine callLogger_keeps hf (fun l retVal l' hl hcall => ?_) (fun retVal f => ?_) h
          · apply locked_lists hl _ _ hcall
            all_goals
              split
              · rfl
              · split <;> rfl
          · split <;> rfl
  | stopLogger =>
      simp only [perform, stopLogger] at h
      split at h
      · exact hrefused h
      · refine callLogger_keeps hf (fun l retVal l' hl hcall => ?_) (fun retVal f => ?_) h
        · apply locked_lists hl _ _ hcall
          all_goals split <;> rfl
        · split <;> rfl

theorem run_lists {trace : List (Operation × Thrown)}
    (run : machine.Run (ReadsConfig properties) new trace f) :
    ∀ l, f.pInstance = some l → Lists properties l := by
  apply run.invariant (I := fun f => ∀ l, f.pInstance = some l → Lists properties l)
  · intro l hl
    cases hl
  · intro a e b o ha hread move
    obtain ⟨⟨thrown, f'⟩, hperform, hswap⟩ := Option.map_eq_some_iff.mp move
    obtain ⟨rfl, rfl⟩ := Prod.mk.inj hswap
    exact perform_lists ha hread hperform

variable {l : Logger} {m : Message}

theorem isSeverityLogged_any (c : ILogCfg) (s : Severity) :
    isSeverityLogged c s.code 0 = c.consoleFilterMask &&& s.bit :=
  maskedSeverity_code c.consoleFilterMask s

theorem isSeverityLogged_id (c : ILogCfg) (s : Severity) (k : Backend) :
    isSeverityLogged c s.code k.id =
      (match k with | .file => c.fileFilterMask | .fprintf => c.consoleFilterMask) &&& s.bit := by
  cases k with
  | file => exact maskedSeverity_code c.fileFilterMask s
  | fprintf => exact maskedSeverity_code c.consoleFilterMask s

/-- The console gets what has been added for it. -/
theorem reaches_console (hl : Lists properties l) :
    l.Reaches properties m .fprintf ↔
      Added (l.configProperties properties) cfgLogToConsole m.severity := by
  rw [Logger.Reaches]
  rw [isSeverityLogged_any, isSeverityLogged_id, Logger.getConfigCfg, ILogCfg.built_console,
    and_self]
  constructor
  · exact And.right
  · intro hadded
    refine ⟨?_, hadded⟩
    obtain ⟨hcfg, -⟩ | ⟨address, -, hlist⟩ := hl
    · obtain ⟨p, hp, -⟩ := hadded
      simp [Logger.configProperties, hcfg] at hp
    · rw [hlist]
      split <;> simp

/-- The file gets what has been added for it and for the console. -/
theorem reaches_file (hl : Lists properties l) :
    l.Reaches properties m .file ↔
      Added (l.configProperties properties) cfgLogToFile m.severity ∧
        Added (l.configProperties properties) cfgLogToConsole m.severity := by
  rw [Logger.Reaches]
  rw [isSeverityLogged_any, isSeverityLogged_id, Logger.getConfigCfg, ILogCfg.built_console,
    ILogCfg.built_file]
  constructor
  · rintro ⟨-, hconsole, hfile⟩
    exact ⟨hfile, hconsole⟩
  · rintro ⟨hfile, hconsole⟩
    refine ⟨?_, hconsole, hfile⟩
    obtain ⟨hcfg, -⟩ | ⟨address, hcfg, hlist⟩ := hl
    · obtain ⟨p, hp, -⟩ := hfile
      simp [Logger.configProperties, hcfg] at hp
    · have hproperties : l.configProperties properties = properties address := by
        simp [Logger.configProperties, hcfg]
      rw [hproperties] at hfile
      rw [hlist, if_pos (ILogCfg.built_config_of_added hfile)]
      simp

/-- **Filters.** In every run of a factory, each backend gets a message if its severity has
been added for that backend exactly when it has not been added for the file, or has been
for the console as well. -/
theorem independent_iff_added {trace : List (Operation × Thrown)}
    (run : machine.Run (ReadsConfig properties) new trace f) (hl : f.pInstance = some l)
    (m : Message) :
    Independent properties l m ↔
      (Added (l.configProperties properties) cfgLogToFile m.severity →
        Added (l.configProperties properties) cfgLogToConsole m.severity) := by
  have hlists := run_lists run l hl
  rw [Independent]
  rw [reaches_console hlists, reaches_file hlists, and_iff_left Iff.rfl, and_iff_left_iff_imp]

/-- Errors for both backends, and debug messages for the console only. -/
def consoleProperties (_address : Nat) : List ConfigProperty :=
  [⟨cfgLogToFile, Severity.error.bit⟩, ⟨cfgLogToConsole, Severity.debug.bit⟩,
    ⟨cfgLogToConsole, Severity.error.bit⟩]

/-- Debug messages for the file only. -/
def fileProperties (_address : Nat) : List ConfigProperty := [⟨cfgLogToFile, Severity.debug.bit⟩]

/-- The calls that start a logger whose configuration lists both backends. -/
def startRun (configMask : BitVec 8) : List Operation :=
  [.init .pantheios,
    .initLogger (some { address := 1, processName := [97], configMask })
      { pantheiosInit := 0, pid := 42, stamp := [] },
    .startLogger]

theorem independent_consoleProperties : ∃ f trace l,
    machine.Run (ReadsConfig consoleProperties) new trace f ∧ f.pInstance = some l ∧
      l.loggerStatus = .started ∧
      Independent consoleProperties l { severity := .debug, text := [97] } := by
  obtain ⟨trace, f, run, l, hl, hstarted, hcfg⟩ := Machine.Run.exists_of_exec machine
    (ReadsConfig consoleProperties) new (startRun 0x03)
    (fun _ f => ∃ l ∈ f.pInstance, l.loggerStatus = .started ∧ l.pCfg = some 1) (by decide)
  refine ⟨f, trace, l, run, hl, hstarted, (independent_iff_added run hl _).mpr fun hfile => ?_⟩
  have hproperties : l.configProperties consoleProperties = consoleProperties 1 := by
    simp [Logger.configProperties, hcfg]
  rw [hproperties]
  decide

/-- A debug message does not reach the file it has been added for. -/
theorem fileProperties_lost : ∃ f trace l,
    machine.Run (ReadsConfig fileProperties) new trace f ∧ f.pInstance = some l ∧
      l.loggerStatus = .started ∧
      ¬ Independent fileProperties l { severity := .debug, text := [97] } := by
  obtain ⟨trace, f, run, l, hl, hstarted, hcfg⟩ := Machine.Run.exists_of_exec machine
    (ReadsConfig fileProperties) new (startRun 0x02)
    (fun _ f => ∃ l ∈ f.pInstance, l.loggerStatus = .started ∧ l.pCfg = some 1) (by decide)
  refine ⟨f, trace, l, run, hl, hstarted, fun h => ?_⟩
  have hproperties : l.configProperties fileProperties = fileProperties 1 := by
    simp [Logger.configProperties, hcfg]
  obtain ⟨hfile, -⟩ := h
  rw [reaches_file (run_lists run l hl), hproperties] at hfile
  exact absurd (hfile.mpr (by decide)).2 (by decide)

end LogFactory

end Netbroker
