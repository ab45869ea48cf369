import Robotd.Loader.Load

/-!
# What a reload comes to

`Running s logger` says that the loader logs to a file through `logger`, as it does in a running
monitor or master. For such a loader `daemonLoadConfig_eq` gives the value of
`daemon_load_config` without its messages: a cascade over what the file asks for (`threads`,
`logName`, `requestedLevel`, `parseSize`, `requestedPort`). The later modules only use that.
-/

namespace Robotd

open Lib Lib.CLib Load

/-- The loader logs to a file, through this logger, which was made before. -/
structure Running (s : Loader) (logger : Logger) : Prop where
  logToFile : s.logToFile = true
  log : s.log = some logger
  made : logger.id < s.made

variable {env : Environment} {s : Loader} {logger : Logger} {α : Type}

/-! ## Messages -/

/-- A message with all its arguments leaves the loader as it is. -/
theorem logMessage_fits {level : Level} {format : String} {args : List String}
    (hlog : s.log = some logger) (hargs : placeholders format.toList ≤ args.length) :
    (logMessage level format args).run s = .next () s := by
  have hno : ¬ (logger.level.rank ≤ level.rank ∧ args ≠ [] ∧
      args.length < placeholders format.toList) := fun h => absurd h.2.2 (not_lt.mpr hargs)
  rw [logMessage, run_get_bind, hlog]
  simp only [if_neg hno, run_pure]

theorem logMessage_fits_bind {level : Level} {format : String} {args : List String}
    {f : Unit → Load α} (hlog : s.log = some logger)
    (hargs : placeholders format.toList ≤ args.length) :
    (logMessage level format args >>= f).run s = (f ()).run s :=
  bind_next (logMessage_fits hlog hargs)

/-- A failed check with all the arguments of its message returns `CHILD_NEED_WORK`. -/
theorem reject_fits {format : String} {args : List String} (h : Running s logger)
    (hargs : placeholders format.toList ≤ args.length) :
    (reject format args : Load α).run s = .returned childNeedWork s := by
  rw [reject, run_get_bind, run_ite, if_pos h.logToFile, logMessage_fits_bind h.log hargs, run_ret]

/-- A failed check whose message lacks an argument throws when the log takes warnings. -/
theorem reject_lacks {format : String} {args : List String} (h : Running s logger) (hsome : args ≠ [])
    (hargs : args.length < placeholders format.toList) :
    (reject format args : Load α).run s =
      if logger.level.rank ≤ Level.warn.rank then .thrown (.badFormat format)
      else .returned childNeedWork s := by
  rw [reject, run_get_bind, run_ite, if_pos h.logToFile]
  by_cases hlevel : logger.level.rank ≤ Level.warn.rank
  · have hmessage : (logMessage .warn format args).run s = .thrown (.badFormat format) := by
      rw [logMessage, run_get_bind, h.log]
      simp only [if_pos (And.intro hlevel (And.intro hsome hargs)), run_throw]
    rw [if_pos hlevel, bind_thrown hmessage]
  · have hmessage : (logMessage .warn format args).run s = .next () s := by
      have hno : ¬ (logger.level.rank ≤ Level.warn.rank ∧ args ≠ [] ∧
        args.length < placeholders format.toList) := fun h => hlevel h.1
      rw [logMessage, run_get_bind, h.log]
      simp only [if_neg hno, run_pure]
    rw [if_neg hlevel, bind_next hmessage, run_ret]

/-! ## Sizes -/

/-- What `size_parse` makes of a text. -/
inductive ParsedSize where
  | invalid
  | zero
  | bytes (n : Nat)
  deriving DecidableEq, Repr

/-- The factor of a suffix. -/
def unitOf (suffix : Option Char) : Nat :=
  match suffix with
  | none => 1
  | some c => if c = 'k' ∨ c = 'K' then 1024 else 1024 * 1024

def parseSize (size : String) : ParsedSize :=
  match sizeMatch size with
  | none => .invalid
  | some (digits, suffix) =>
      if atoiUnsigned digits = 0 then .zero
      else .bytes (atoiUnsigned digits * unitOf suffix % 2 ^ 64)

theorem atoiUnsigned_lt (digits : List Char) : atoiUnsigned digits < 2 ^ 64 := by
  have h := Int.emod_lt_of_pos (atoi digits) (show (0 : Int) < 2 ^ 64 by decide)
  have h' := Int.emod_nonneg (atoi digits) (show (2 ^ 64 : Int) ≠ 0 by decide)
  rw [atoiUnsigned]
  omega

/-- The regular expression leaves no suffix but the four. -/
theorem sizeMatch_suffix {size : String} {digits : List Char} {c : Char}
    (h : sizeMatch size = some (digits, some c)) : (c = 'k' ∨ c = 'K') ∨ c = 'm' ∨ c = 'M' := by
  unfold sizeMatch at h
  split at h
  · cases h
  · split at h
    · rename_i hmem
      cases h
      simpa [or_assoc] using hmem
    · cases h
  · cases h

/-- `size_parse` in a running loader, for any variable it writes to: the variable ends with the
value, with zero when that is what the digits say, and untouched when the text is malformed. -/
theorem sizeParse_eq {size : String} {store : Nat → Loader → Loader} (h : Running s logger)
    (hstore : ∀ n, Running (store n s) logger)
    (htwice : ∀ m n, store n (store m s) = store n s) :
    (sizeParse size fun n => modify (store n)).run s = match parseSize size with
      | .invalid => .returned childNeedWork s
      | .zero => .returned childNeedWork (store 0 s)
      | .bytes n => .next n (store n s) := by
  unfold sizeParse parseSize
  cases hmatch : sizeMatch size with
  | none => exact reject_fits h (Nat.le_of_ble_eq_true rfl)
  | some found =>
      obtain ⟨digits, suffix⟩ := found
      simp only [run_modify_bind, run_ite]
      by_cases hzero : atoiUnsigned digits = 0
      · rw [if_pos hzero, if_pos hzero, hzero]
        exact reject_fits (hstore 0) (Nat.le_of_ble_eq_true rfl)
      · rw [if_neg hzero, if_neg hzero]
        cases suffix with
        | none =>
            have hmod := Nat.mod_eq_of_lt (atoiUnsigned_lt digits)
            simp only [run_pure, unitOf, mul_one, hmod]
        | some c =>
            simp only [run_ite, unitOf]
            rcases sizeMatch_suffix hmatch with hk | hm
            · simp only [if_pos hk, run_modify_bind, run_pure, htwice]
            · have hk : ¬ (c = 'k' ∨ c = 'K') := by
                rcases hm with rfl | rfl <;> decide
              simp only [if_neg hk, if_pos hm, run_modify_bind, run_pure, htwice]

/-- The size of the log goes to a local variable. -/
theorem sizeParse_local {size : String} (h : Running s logger) :
    (sizeParse size fun _ => pure ()).run s = match parseSize size with
      | .invalid => .returned childNeedWork s
      | .zero => .returned childNeedWork s
      | .bytes n => .next n s := by
  have hstore : ∀ n, Running ((fun _ s => s : Nat → Loader → Loader) n s) logger := fun _ => h
  exact sizeParse_eq h hstore fun _ _ => rfl

/-- The limit on the memory goes to the static `ramsize`. -/
theorem sizeParse_ramsize {size : String} (h : Running s logger) :
    (sizeParse size fun n => modify fun s => { s with ramsize := n }).run s =
      match parseSize size with
      | .invalid => .returned childNeedWork s
      | .zero => .returned childNeedWork { s with ramsize := 0 }
      | .bytes n => .next n { s with ramsize := n } := by
  have hstore : ∀ n, Running ((fun n s => { s with ramsize := n } : Nat → Loader → Loader) n s)
      logger := fun _ => ⟨h.logToFile, h.log, h.made⟩
  exact sizeParse_eq h hstore fun _ _ => rfl

/-! ## What the file asks for -/

/-- The number of threads a section asks for; its default is the number in force. -/
def threads (env : Environment) (daemonSection : Value) (threadCount : Nat) : Int :=
  env.lookupInt daemonSection "ThreadCount" threadCount

def ThreadsPass (env : Environment) (daemonSection : Value) (threadCount : Nat) : Prop :=
  threads env daemonSection threadCount ≤ env.maxThreads ∧
    0 < threads env daemonSection threadCount ∧ threads env daemonSection threadCount < 65535

def logName (env : Environment) (daemonSection : Value) : String :=
  env.lookupString daemonSection "LogName" ""

def NamePasses (env : Environment) (daemonSection : Value) : Prop :=
  logName env daemonSection ≠ "" ∧ env.opensLog (logName env daemonSection) = true

/-- The level a section asks for; its default is the level of the log in use. -/
def requestedLevel (env : Environment) (daemonSection : Value) (current : Level) : Option Level :=
  Level.fromStr (env.lookupString daemonSection "LogLevel" current.toStr).toLower

def logSize (env : Environment) (daemonSection : Value) : ParsedSize :=
  parseSize (env.lookupString daemonSection "Size" "")

def ramUse (env : Environment) (daemonSection : Value) : ParsedSize :=
  parseSize (env.lookupString daemonSection "MaxRamUse" "")

def requestedAddress (env : Environment) (server : Value) (address : String) : String :=
  env.lookupString server "Address" address

/-- The port a section asks for; its default is the port in force. -/
def requestedPort (env : Environment) (server : Value) (port : Nat) : Nat :=
  env.lookupUnsigned server "Port" port

instance (env : Environment) (daemonSection : Value) (threadCount : Nat) :
    Decidable (ThreadsPass env daemonSection threadCount) :=
  inferInstanceAs (Decidable (_ ∧ _ ∧ _))

instance (env : Environment) (daemonSection : Value) :
    Decidable (NamePasses env daemonSection) :=
  inferInstanceAs (Decidable (_ ∧ _))

/-! ## The stages -/

theorem loadThreadCount_eq {v : Value} (h : Running s logger) :
    (loadThreadCount env v).run s = if ThreadsPass env v s.threadCount then
        .next () { s with threadCount := (threads env v s.threadCount).toNat }
      else .returned childNeedWork s := by
  rw [loadThreadCount, run_get_bind, run_ite, run_modify]
  by_cases hpass : ThreadsPass env v s.threadCount
  · rw [if_pos hpass]
    exact if_pos hpass
  · rw [if_neg hpass]
    exact (if_neg hpass).trans (reject_fits h (Nat.le_of_ble_eq_true rfl))

theorem loadLogName_eq {v : Value} (h : Running s logger) :
    (loadLogName env v).run s = if NamePasses env v then .next (logName env v) s
      else .returned childNeedWork s := by
  simp only [loadLogName, run_ite, run_pure]
  by_cases hempty : logName env v = ""
  · have hno : ¬ NamePasses env v := fun hpass => hpass.1 hempty
    rw [if_neg hno]
    exact (if_pos hempty).trans (reject_fits h (Nat.le_of_ble_eq_true rfl))
  · by_cases hopens : env.opensLog (logName env v) = true
    · rw [if_pos (show NamePasses env v from ⟨hempty, hopens⟩)]
      exact (if_neg hempty).trans (if_pos hopens)
    · have hno : ¬ NamePasses env v := fun hpass => hopens hpass.2
      rw [if_neg hno]
      refine (if_neg hempty).trans ((if_neg hopens).trans ?_)
      exact reject_fits h (Nat.le_of_ble_eq_true rfl)

theorem defaultLevel_eq (h : Running s logger) :
    defaultLevel.run s = .next logger.level.toStr s := by
  rw [defaultLevel, run_get_bind, run_ite, if_pos h.logToFile, run_get_bind, h.log]
  rfl

theorem loadLogLevel_eq {v : Value} (h : Running s logger) :
    (loadLogLevel env v).run s = match requestedLevel env v logger.level with
      | some lev => .next (env.lookupString v "LogLevel" logger.level.toStr).toLower
          { s with lev := lev }
      | none => .returned childNeedWork s := by
  rw [loadLogLevel, bind_next (defaultLevel_eq h), requestedLevel]
  dsimp only
  cases Level.fromStr (env.lookupString v "LogLevel" logger.level.toStr).toLower with
  | some lev => rfl
  | none => exact reject_fits h (Nat.le_of_ble_eq_true rfl)

/-- The list of options changes nothing: each of its messages has its arguments. -/
theorem logOptions_eq {configFile : Path} {logname sizeS loglevel : String}
    (h : Running s logger) : (logOptions configFile logname sizeS loglevel).run s = .next () s := by
  simp (disch := exact Nat.le_of_ble_eq_true rfl) only [logOptions, run_get_bind,
    logMessage_fits_bind h.log, logMessage_fits h.log, h.logToFile, if_true]

theorem setting_some {v m : Value} {name : String} (h : v.member name = some m) :
    (setting v name).run s = .next m s := by
  simp only [setting, h, run_pure]

theorem setting_none {v : Value} {name : String} (h : v.member name = none) :
    (setting v name).run s = .thrown (.settingNotFound name) := by
  simp only [setting, h, run_throw]

/-- The port is stored when 16 bits hold it and it is not zero. The message on a port that is too
high has an argument too few. -/
theorem loadPort_eq {server : Value} (h : Running s logger) :
    (loadPort env server).run s =
      if requestedPort env server s.port = 0 then .returned childNeedWork s
      else if 65535 < requestedPort env server s.port then
        if logger.level.rank ≤ Level.warn.rank then
          .thrown (.badFormat "<{}> {} port number must be less than 65535.")
        else .returned childNeedWork s
      else .next () { s with port := requestedPort env server s.port } := by
  have hport : Running { s with port := requestedPort env server s.port } logger :=
    ⟨h.logToFile, h.log, h.made⟩
  rw [loadPort, run_get_bind]
  change (ite (requestedPort env server s.port = 0) _ (ite (65535 < requestedPort env server s.port) _ _)
    : Load Unit).run s = _
  by_cases hzero : requestedPort env server s.port = 0
  · rw [if_pos hzero, if_pos hzero, reject_fits h (Nat.le_of_ble_eq_true rfl)]
  · rw [if_neg hzero, if_neg hzero]
    by_cases hhigh : 65535 < requestedPort env server s.port
    · rw [if_pos hhigh, if_pos hhigh, reject_lacks h (List.cons_ne_nil _ _) (Nat.le_of_ble_eq_true rfl)]
    · rw [if_neg hhigh, if_neg hhigh, run_modify_bind, run_get_bind, run_ite,
        if_pos hport.logToFile, run_get_bind]
      refine (logMessage_fits_bind hport.log (Nat.le_of_ble_eq_true rfl)).trans ?_
      exact logMessage_fits hport.log (Nat.le_of_ble_eq_true rfl)

/-- What `load_slave_config` comes to for a port, when the log has the level `current`. -/
def portMeaning (port : Nat) (s : Loader) (current : Level) : Outcome Int :=
  if port = 0 then .next childNeedWork s
  else if 65535 < port then
    if current.rank ≤ Level.warn.rank then
      .thrown (.badFormat "<{}> {} port number must be less than 65535.")
    else .next childNeedWork s
  else .next 0 { s with port := port }

/-- What `load_slave_config` comes to when the log has the level `current`. -/
def slaveMeaning (env : Environment) (settings : Value) (s : Loader) (current : Level) :
    Outcome Int :=
  match settings.member "TCPServer" with
  | none => .thrown (.settingNotFound "TCPServer")
  | some server => portMeaning (requestedPort env server s.port)
      { s with address := requestedAddress env server s.address } current

theorem loadSlaveConfig_eq {settings : Value} (h : Running s logger) :
    (loadSlaveConfig env settings).run s = slaveMeaning env settings s logger.level := by
  unfold loadSlaveConfig slaveMeaning
  cases hmember : settings.member "TCPServer" with
  | none => exact call_thrown (bind_thrown (setting_none hmember))
  | some server =>
      have haddress : Running { s with address := requestedAddress env server s.address } logger :=
        ⟨h.logToFile, h.log, h.made⟩
      have hrun : (tcpServerLoadConfig env settings).run s = (loadPort env server).run
          { s with address := requestedAddress env server s.address } := by
        rw [tcpServerLoadConfig, bind_next (setting_some hmember), run_modify_bind]
        rfl
      rw [loadPort_eq haddress] at hrun
      dsimp only
      rw [portMeaning]
      by_cases hzero : requestedPort env server s.port = 0
      · rw [if_pos hzero] at hrun ⊢
        exact call_returned hrun
      · rw [if_neg hzero] at hrun ⊢
        by_cases hhigh : 65535 < requestedPort env server s.port
        · rw [if_pos hhigh] at hrun ⊢
          by_cases hlevel : logger.level.rank ≤ Level.warn.rank
          · rw [if_pos hlevel] at hrun ⊢
            exact call_thrown hrun
          · rw [if_neg hlevel] at hrun ⊢
            exact call_returned hrun
        · rw [if_neg hhigh] at hrun ⊢
          exact call_next hrun

/-- The return of the code of a slave. -/
def Outcome.passOn : Outcome Int → Outcome Unit
  | .next code s => .returned code s
  | .returned code s => .returned code s
  | .thrown e => .thrown e

/-- What the end of `daemon_load_config` comes to: the slave is loaded with the new log, and its
code is returned. -/
def finishMeaning (env : Environment) (settings : Value) (logname : String) (logsize : Nat)
    (s : Loader) : Outcome Unit :=
  if env.opensSink (logname ++ ".log") = true then
    (slaveMeaning env settings (s.reopen logname logsize) s.lev).passOn
  else .thrown (.sinkNotOpened (logname ++ ".log"))

/-- A reopened loader logs through its new log, at the level in force. -/
theorem running_reopen {logname : String} {logsize : Nat} (hfile : s.logToFile = true) :
    Running (s.reopen logname logsize)
      ⟨s.made + 1, ⟨s.made, logname ++ ".log", logsize⟩, s.lev⟩ :=
  ⟨hfile, rfl, Nat.lt_succ_self _⟩

/-- A slave leaves the log as it is. -/
theorem portMeaning_running {port : Nat} {current : Level} {code : Int} {s' : Loader}
    (h : Running s logger) (hport : portMeaning port s current = .next code s') :
    Running s' logger := by
  unfold portMeaning at hport
  split at hport
  · cases hport
    exact h
  · split at hport
    · split at hport
      · cases hport
      · cases hport
        exact h
    · cases hport
      exact ⟨h.logToFile, h.log, h.made⟩

theorem slaveMeaning_running {settings : Value} {current : Level} {code : Int} {s' : Loader}
    (h : Running s logger) (hslave : slaveMeaning env settings s current = .next code s') :
    Running s' logger := by
  unfold slaveMeaning at hslave
  split at hslave
  · cases hslave
  · refine portMeaning_running ?_ hslave
    exact ⟨h.logToFile, h.log, h.made⟩

theorem finishLoad_eq {configFile : Path} {settings : Value} {logname sizeS loglevel : String}
    {logsize : Nat} (hfile : s.logToFile = true) :
    (finishLoad env configFile settings logname logsize sizeS loglevel).run s =
      finishMeaning env settings logname logsize s := by
  have h : Running (s.reopen logname logsize) _ := running_reopen hfile
  unfold finishLoad finishMeaning
  by_cases hsink : env.opensSink (logname ++ ".log") = true
  · have hopen : (openLog env logname logsize).run s = .next () (s.reopen logname logsize) := by
      rw [openLog, if_pos hsink, run_modify]
    rw [if_pos hsink, bind_next hopen, bind_next (logOptions_eq h)]
    have hslave : (loadSlaveConfig env settings).run (s.reopen logname logsize) =
        slaveMeaning env settings (s.reopen logname logsize) s.lev := loadSlaveConfig_eq h
    cases hmeaning : slaveMeaning env settings (s.reopen logname logsize) s.lev with
    | next code s' =>
        have h' := slaveMeaning_running h hmeaning
        rw [bind_next (hslave.trans hmeaning), run_get_bind]
        dsimp only
        rw [run_ite, if_pos h'.logToFile,
          logMessage_fits_bind h'.log (Nat.le_of_ble_eq_true rfl), run_modify_bind, run_ret,
          ← h'.logToFile]
        rfl
    | returned code s' => exact bind_returned (hslave.trans hmeaning)
    | thrown e => exact bind_thrown (hslave.trans hmeaning)
  · have hopen : (openLog env logname logsize).run s =
        .thrown (.sinkNotOpened (logname ++ ".log")) := by
      rw [openLog, if_neg hsink, run_throw]
    rw [if_neg hsink, bind_thrown hopen]

/-- What `daemon_load_config` comes to from the log level on. -/
def levelMeaning (env : Environment) (settings v : Value) (s : Loader) (current : Level) :
    Outcome Unit :=
  match requestedLevel env v current with
  | none => .returned childNeedWork s
  | some lev =>
    let s := { s with lev := lev }
    match logSize env v, ramUse env v with
    | .bytes size, .bytes ram =>
        finishMeaning env settings (logName env v) size { s with ramsize := ram }
    | .bytes _, .zero => .returned childNeedWork { s with ramsize := 0 }
    | _, _ => .returned childNeedWork s

/-- What `daemon_load_config` comes to for an object whose log has the level `current`. -/
def loadMeaning (env : Environment) (filename : Path) (s : Loader) (current : Level) :
    Outcome Unit :=
  match env.readFile filename with
  | .fileIOException => .returned childNeedWork s
  | .parseException _ _ _ => .returned childNeedWork s
  | .root settings =>
    match settings.member "Daemon" with
    | none => .thrown (.settingNotFound "Daemon")
    | some v =>
      if ThreadsPass env v s.threadCount then
        let s := { s with threadCount := (threads env v s.threadCount).toNat }
        if NamePasses env v then levelMeaning env settings v s current
        else .returned childNeedWork s
      else .returned childNeedWork s

/-- The value of `daemon_load_config` in a running loader. -/
theorem daemonLoadConfig_eq {configFile filename : Path} (h : Running s logger) :
    (daemonLoadConfig env configFile filename).run s =
      loadMeaning env filename s logger.level := by
  unfold daemonLoadConfig loadMeaning levelMeaning
  cases hread : env.readFile filename with
  | fileIOException =>
      refine bind_returned ?_
      simp only [readConfig, hread]
      exact reject_fits h (Nat.le_of_ble_eq_true rfl)
  | parseException file line error =>
      refine bind_returned ?_
      simp only [readConfig, hread]
      exact reject_fits h (Nat.le_of_ble_eq_true rfl)
  | root settings =>
      have hroot : (readConfig env filename).run s = .next settings s := by
        simp only [readConfig, hread, run_pure]
      rw [bind_next hroot]
      dsimp only
      cases hmember : settings.member "Daemon" with
      | none => exact bind_thrown (setting_none hmember)
      | some v =>
          rw [bind_next (setting_some hmember)]
          dsimp only
          have hthreads : (loadThreadCount env v).run s = _ := loadThreadCount_eq h
          by_cases hpass : ThreadsPass env v s.threadCount
          · rw [if_pos hpass] at hthreads ⊢
            have h₁ : Running { s with threadCount := (threads env v s.threadCount).toNat } logger :=
              ⟨h.logToFile, h.log, h.made⟩
            have hname : (loadLogName env v).run _ = _ := loadLogName_eq h₁
            rw [bind_next hthreads]
            by_cases hnamed : NamePasses env v
            · rw [if_pos hnamed] at hname ⊢
              rw [bind_next hname]
              have hlevel : (loadLogLevel env v).run _ = _ := loadLogLevel_eq h₁
              cases hrequested : requestedLevel env v logger.level with
              | none =>
                  rw [hrequested] at hlevel
                  exact bind_returned hlevel
              | some lev =>
                  rw [hrequested] at hlevel
                  have h₂ : Running { s with
                      threadCount := (threads env v s.threadCount).toNat, lev := lev } logger :=
                    ⟨h.logToFile, h.log, h.made⟩
                  have hsize : (sizeParse (env.lookupString v "Size" "") _).run _ = _ :=
                    sizeParse_local h₂
                  have hram : (sizeParse (env.lookupString v "MaxRamUse" "") _).run _ = _ :=
                    sizeParse_ramsize h₂
                  rw [bind_next hlevel]
                  cases hlogsize : logSize env v with
                  | invalid => exact bind_returned (hsize.trans (by rw [← logSize, hlogsize]))
                  | zero => exact bind_returned (hsize.trans (by rw [← logSize, hlogsize]))
                  | bytes size =>
                      rw [bind_next (hsize.trans (by rw [← logSize, hlogsize]))]
                      cases hramuse : ramUse env v with
                      | invalid => exact bind_returned (hram.trans (by rw [← ramUse, hramuse]))
                      | zero => exact bind_returned (hram.trans (by rw [← ramUse, hramuse]))
                      | bytes ram =>
                          rw [bind_next (hram.trans (by rw [← ramUse, hramuse]))]
                          exact finishLoad_eq h.logToFile
            · rw [if_neg hnamed] at hname ⊢
              exact bind_returned hname
          · rw [if_neg hpass] at hthreads ⊢
            exact bind_returned hthreads

end Robotd
