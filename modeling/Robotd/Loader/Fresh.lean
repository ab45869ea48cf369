import Robotd.Lib.Machine
import Robotd.Loader.Contract
import Robotd.Loader.Rejected
import Robotd.Loader.Statics

/-!
# A reload against a fresh start

The options that a file leaves out keep the values of the files before it.
`daemonLoadConfig_zero_iff` says when a load returns 0, in a new process or later, and
`reload_like_fresh_iff` when a new process would have come to the same configuration.
-/

namespace Robotd

open Lib Lib.CLib Load

/-- The statics of a new process, which has no log. -/
def Loader.initial : Loader where
  logToFile := false
  threadCount := 2
  lev := .info
  sink := none
  log := none
  ramsize := 0
  address := "127.0.0.1"
  port := 3333
  made := 0

variable {env : Environment} {configFile filename : Path} {s s' : Loader} {settings v server : Value}
  {lev : Level} {logsize ram : Nat}

/-! ## Loads that return 0 -/

/-- Every check passes in this state. -/
structure Loads (env : Environment) (filename : Path) (s : Loader) (settings v server : Value)
    (lev : Level) (logsize ram : Nat) : Prop where
  levelled : Levelled env 1 filename s settings v lev
  size : logSize env v = .bytes logsize
  ram : ramUse env v = .bytes ram
  sink : env.opensSink (logName env v ++ ".log") = true
  slave : settings.member "TCPServer" = some server
  port : requestedPort env server s.port ≠ 0
  high : requestedPort env server s.port ≤ 65535

/-- What such a load leaves. -/
def Loader.loaded (s : Loader) (env : Environment) (v server : Value) (lev : Level)
    (logsize ram : Nat) : Loader :=
  { ({ s with threadCount := (threads env v s.threadCount).toNat, lev := lev, ramsize := ram } :
      Loader).reopen (logName env v) logsize with
    address := requestedAddress env server s.address
    port := requestedPort env server s.port
    logToFile := true }

/-- The slave, once the new log is open, with what is to be shown of the check on the port. -/
theorem meets_tcpServer_reject {logname : String} {next : Int → Loader → Prop}
    {returned : Int → Loader → Prop} {throws : Prop}
    (hnone : settings.member "TCPServer" = none → throws)
    (hpass : ∀ server, settings.member "TCPServer" = some server →
      requestedPort env server s.port ≠ 0 → requestedPort env server s.port ≤ 65535 →
        next 0 { s.reopen logname logsize with
          address := requestedAddress env server s.address
          port := requestedPort env server s.port })
    (hfail : ∀ server, settings.member "TCPServer" = some server →
      requestedPort env server s.port = 0 ∨ 65535 < requestedPort env server s.port →
        ∀ format args, (reject format args : Load Unit).Meets
          { s.reopen logname logsize with address := requestedAddress env server s.address }
          (fun _ => next 0) next throws) :
    (loadSlaveConfigs [tcpServer env] settings).Meets (s.reopen logname logsize) next returned
      throws := by
  rw [loadSlaveConfigs, meets_call]
  change (tcpServerLoadConfig env settings).Meets _ _ _ _
  rw [tcpServerLoadConfig, meets_bind]
  refine meets_setting (fun server hserver => ?_) hnone
  rw [meets_bind, meets_modify]
  exact meets_loadPort (.inl ⟨_, rfl⟩) (hpass server hserver) (hfail server hserver)

/-- The slave, once the new log is open. -/
theorem meets_tcpServer {logname : String} {next : Int → Loader → Prop}
    {returned : Int → Loader → Prop} {throws : Prop}
    (hnone : settings.member "TCPServer" = none → throws)
    (hpass : ∀ server, settings.member "TCPServer" = some server →
      requestedPort env server s.port ≠ 0 → requestedPort env server s.port ≤ 65535 →
        next 0 { s.reopen logname logsize with
          address := requestedAddress env server s.address
          port := requestedPort env server s.port })
    (hfail : ∀ server, settings.member "TCPServer" = some server →
      requestedPort env server s.port = 0 ∨ 65535 < requestedPort env server s.port →
        throws = True ∧ ∀ code, code ≠ 0 →
          next code { s.reopen logname logsize with
            address := requestedAddress env server s.address }) :
    (loadSlaveConfigs [tcpServer env] settings).Meets (s.reopen logname logsize) next returned
      throws := by
  refine meets_tcpServer_reject hnone hpass fun server hserver hport format args => ?_
  obtain ⟨rfl, hnext⟩ := hfail server hserver hport
  exact meets_reject hnext _ _

/-- A load returns 0 exactly when every check passes, in a new process as well. -/
theorem daemonLoadConfig_zero_iff (hlog : s.logToFile = true → s.log ≠ none) :
    (daemonLoadConfig env configFile filename).run s = .returned 0 s' ↔
      ∃ settings v server lev logsize ram,
        Loads env filename s settings v server lev logsize ram ∧
          s' = s.loaded env v server lev logsize ram := by
  rw [← daemonLoadConfigOf_tcpServer]
  constructor
  · intro hrun
    have hmeets : (daemonLoadConfigOf env [tcpServer env] configFile filename).Meets s
        (fun _ _ => False) (fun code s' => code = 0 → ∃ settings v server lev logsize ram,
          Loads env filename s settings v server lev logsize ram ∧
            s' = s.loaded env v server lev logsize ram) True := by
      refine meets_daemonLoadConfigOf (fun _ _ => trivial) (fun _ _ _ => trivial)
        (fun _ => ⟨rfl, fun _ _ hcode hzero => absurd hzero hcode⟩)
        (fun _ _ _ _ _ => ⟨rfl, fun _ _ _ hcode hzero => absurd hzero hcode⟩) ?_
      intro settings v lev logsize ram sizeS loglevel hlevelled hsize hram
      refine meets_finishLoadOf (fun _ => trivial) fun hsink => ?_
      refine meets_tcpServer (fun _ => trivial) (fun server hserver hport hhigh => ⟨rfl, fun _ => ?_⟩)
        fun server _ _ => ⟨rfl, fun _ hcode => ⟨rfl, fun hzero => absurd hzero hcode⟩⟩
      exact ⟨settings, v, server, lev, logsize, ram,
        ⟨hlevelled, hsize, hram, hsink, hserver, hport, hhigh⟩, rfl⟩
    exact hmeets.of_returned hrun rfl
  · rintro ⟨settings, v, server, lev, logsize, ram, hloads, rfl⟩
    have hmeets : (daemonLoadConfigOf env [tcpServer env] configFile filename).Meets s
        (fun _ _ => False) (fun code s' => code = 0 ∧ s' = s.loaded env v server lev logsize ram)
        False := by
      refine meets_daemonLoadConfigOf hlog (fun settings' hread hnone => ?_)
        (fun hno => absurd hloads.levelled (hno settings v lev)) ?_ ?_
      · rw [hloads.levelled.read] at hread
        cases hread
        rw [hloads.levelled.daemonSection] at hnone
        cases hnone
      · intro settings' v' lev' h hno
        obtain ⟨rfl, rfl, rfl⟩ := hloads.levelled.unique h
        rcases hno with hno | hno
        · exact absurd hloads.size (hno _)
        · exact absurd hloads.ram (hno _)
      · intro settings' v' lev' logsize' ram' sizeS loglevel h hsize hram
        obtain ⟨rfl, rfl, rfl⟩ := hloads.levelled.unique h
        rw [hloads.size] at hsize
        cases hsize
        rw [hloads.ram] at hram
        cases hram
        refine meets_finishLoadOf (fun hno => hno hloads.sink) fun _ => ?_
        refine meets_tcpServer (fun hnone => ?_) (fun server' hserver _ _ => ⟨rfl, rfl, ?_⟩)
          fun server' hserver hport => ?_
        · rw [hloads.slave] at hnone
          cases hnone
        · rw [hloads.slave] at hserver
          cases hserver
          rfl
        · rw [hloads.slave] at hserver
          cases hserver
          exact hport.elim (fun hzero => absurd hzero hloads.port)
            fun hhigh => absurd hhigh (not_lt.mpr hloads.high)
    obtain ⟨code, s', hrun, rfl, rfl⟩ := hmeets.returns
    exact hrun

/-! ## Histories of loads -/

/-- One load, with the files and the system it meets. -/
structure LoadCommand where
  env : Environment
  configFile : Path
  filename : Path

/-- The loader after a load, whatever it returns; an exception ends the process. -/
def Loader.after (s : Loader) (c : LoadCommand) : Option Loader :=
  match (daemonLoadConfig c.env c.configFile c.filename).run s with
  | .returned _ s' => some s'
  | _ => none

/-- The states that a process can come to by loads of any files. -/
def Loader.Reachable : Loader → Prop :=
  Machine.Reached Loader.after (fun _ _ => True) (· = Loader.initial)

/-- There is a log once messages go to it, and neither it nor the static has the level `off`. A
sink was made before. -/
structure Loader.Levels (s : Loader) : Prop where
  log : s.logToFile = true → s.log ≠ none ∧ s.sink ≠ none
  sink : ∀ sink, s.sink = some sink → sink.id < s.made
  lev : s.lev ≠ .off
  current : s.current ≠ .off

theorem Loader.levels_initial : Loader.initial.Levels :=
  ⟨by decide, nofun, by decide, by decide⟩

/-- A process that logs to a new log, at a level that was read. -/
theorem Loader.levels_of_log {l : Logger} (hlog : s.log = some l) (hsink : s.sink = some l.sink)
    (hmade : l.sink.id < s.made) (hlevel : l.level = s.lev) (hlev : s.lev ≠ .off) : s.Levels := by
  refine ⟨by simp [hlog, hsink], fun sink h => ?_, hlev, ?_⟩
  · rw [hsink] at h
    cases h
    exact hmade
  unfold Loader.current
  split
  · rw [hlog, Option.map_some, Option.getD_some, hlevel]
    exact hlev
  · decide

/-- A load keeps this, whatever it returns. -/
theorem Loader.Levels.load {slaves : List SlaveClass} {code : Int} (h : s.Levels)
    (hrun : (daemonLoadConfigOf env slaves configFile filename).run s = .returned code s') :
    s'.Levels := by
  have hmeets : (daemonLoadConfigOf env slaves configFile filename).Meets s
      (fun _ _ => True) (fun _ => Loader.Levels) True := by
    have hkeep {threadCount : Nat} {lev : Level} {ramsize : Nat} (hlev : lev ≠ .off) :
        ({ s with threadCount := threadCount, lev := lev, ramsize := ramsize } : Loader).Levels :=
      ⟨h.log, h.sink, hlev, h.current⟩
    refine meets_daemonLoadConfigOf (fun _ _ => trivial) (fun _ _ _ => trivial)
      (fun _ => ⟨rfl, fun _ _ _ => hkeep h.lev⟩)
      (fun _ _ _ hlevelled _ => ⟨rfl, fun _ _ _ _ => hkeep (Level.fromStr_ne_off hlevelled.level)⟩) ?_
    intro settings v lev logsize ram sizeS loglevel hlevelled _ _
    refine meets_finishLoadOf (fun _ => trivial) fun _ => ?_
    refine (meets_loadSlaveConfigs _ _ _).mono (fun code s' hsame => ⟨hsame.log, ?_⟩)
      fun _ _ hlevels => hlevels
    refine Loader.levels_of_log (l := ⟨s.made + 1, ⟨s.made, logName env v ++ ".log", logsize⟩, lev⟩)
      hsame.log hsame.sink ?_ hsame.lev.symm ?_
    · exact lt_of_lt_of_le (show s.made < s.made + 2 by omega) hsame.made
    rw [show ({ s' with logToFile := true } : Loader).lev = lev from hsame.lev]
    exact Level.fromStr_ne_off hlevelled.level
  exact hmeets.of_returned hrun

theorem Loader.levels_after {c : LoadCommand} (h : s.Levels) (hafter : s.after c = some s') :
    s'.Levels := by
  unfold Loader.after at hafter
  split at hafter
  · rename_i hrun
    cases hafter
    rw [← daemonLoadConfigOf_tcpServer] at hrun
    exact h.load hrun
  · cases hafter

theorem Loader.Reachable.levels (h : s.Reachable) : s.Levels :=
  Machine.Reached.invariant h (fun _ hinit => hinit ▸ levels_initial)
    fun _ _ _ hlevels _ hstep => levels_after hlevels hstep

/-! ## A reload and a fresh start -/

/-- A new process comes to the configuration of `s'` by loading the file. -/
def FreshAgrees (env : Environment) (configFile filename : Path) (s' : Loader) : Prop :=
  ∃ fresh, (daemonLoadConfig env configFile filename).run Loader.initial = .returned 0 fresh ∧
    fresh.statics = s'.statics

/-- What the sections leave out has in this state the value of a new process. -/
structure DefaultsAsFresh (env : Environment) (s : Loader) (v server : Value) : Prop where
  threads : (v.member "ThreadCount").bind env.asInt = none →
    s.threadCount = Loader.initial.threadCount
  level : (v.member "LogLevel").bind env.asString = none → s.current = Loader.initial.current
  address : (server.member "Address").bind env.asString = none → s.address = Loader.initial.address
  port : (server.member "Port").bind env.asUnsigned = none → s.port = Loader.initial.port

theorem threads_eq_iff {t t' : Nat} : threads env v t = threads env v t' ↔
    ((v.member "ThreadCount").bind env.asInt = none → t = t') := by
  unfold threads Environment.lookupInt
  cases (v.member "ThreadCount").bind env.asInt <;> simp

theorem requestedAddress_eq_iff {address address' : String} :
    requestedAddress env server address = requestedAddress env server address' ↔
      ((server.member "Address").bind env.asString = none → address = address') := by
  unfold requestedAddress Environment.lookupString
  cases (server.member "Address").bind env.asString <;> simp

theorem requestedPort_eq_iff {port port' : Nat} :
    requestedPort env server port = requestedPort env server port' ↔
      ((server.member "Port").bind env.asUnsigned = none → port = port') := by
  unfold requestedPort Environment.lookupUnsigned
  cases (server.member "Port").bind env.asUnsigned <;> simp

/-- The level that is asked for by default is the default itself. -/
theorem requestedLevel_default {current : Level} (hoff : current ≠ .off)
    (hnone : (v.member "LogLevel").bind env.asString = none) :
    requestedLevel env v current = some current := by
  rw [requestedLevel, Environment.lookupString, hnone, Option.getD_none]
  have hlower : current.toStr.toLower = current.toStr := by cases current <;> decide +kernel
  rw [hlower, Level.fromStr_toStr current hoff]

theorem requestedLevel_eq_iff {current current' : Level} (hoff : current ≠ .off)
    (hoff' : current' ≠ .off) : requestedLevel env v current = requestedLevel env v current' ↔
      ((v.member "LogLevel").bind env.asString = none → current = current') := by
  by_cases hnone : (v.member "LogLevel").bind env.asString = none
  · rw [requestedLevel_default hoff hnone, requestedLevel_default hoff' hnone]
    simp [hnone]
  · exact iff_of_true (requestedLevel_named hnone) fun h => absurd h hnone

/-- The section and the slave of a file that loads. -/
theorem Loads.unique {s₁ s₂ : Loader} {settings' v' server' : Value} {lev' : Level}
    {logsize' ram' : Nat} (h : Loads env filename s₁ settings v server lev logsize ram)
    (h' : Loads env filename s₂ settings' v' server' lev' logsize' ram') :
    v = v' ∧ server = server' ∧ logsize = logsize' ∧ ram = ram' := by
  have hread := h'.levelled.read
  rw [h.levelled.read] at hread
  cases hread
  have hsection := h'.levelled.daemonSection
  rw [h.levelled.daemonSection] at hsection
  cases hsection
  have hslave := h'.slave
  rw [h.slave] at hslave
  cases hslave
  have hsize := h'.size
  rw [h.size] at hsize
  cases hsize
  have hram := h'.ram
  rw [h.ram] at hram
  cases hram
  exact ⟨rfl, rfl, rfl, rfl⟩

/-- A new process comes to the same configuration exactly when the options that the file leaves
out have the values of a new process. -/
theorem reload_like_fresh_iff (hreach : s.Reachable)
    (hload : (daemonLoadConfig env configFile filename).run s = .returned 0 s') :
    FreshAgrees env configFile filename s' ↔
      ∀ settings v server, env.readFile filename = .root settings →
        settings.member "Daemon" = some v → settings.member "TCPServer" = some server →
          DefaultsAsFresh env s v server := by
  have hlevels := hreach.levels
  obtain ⟨settings, v, server, lev, logsize, ram, hloads, rfl⟩ :=
    (daemonLoadConfig_zero_iff fun hfile => (hlevels.log hfile).1).mp hload
  have hfresh := Loader.levels_initial
  constructor
  · rintro ⟨fresh, hrun, hstatics⟩ settings' v' server' hread hsection hserver
    rw [hloads.levelled.read] at hread
    cases hread
    rw [hloads.levelled.daemonSection] at hsection
    cases hsection
    rw [hloads.slave] at hserver
    cases hserver
    obtain ⟨settings', v', server', lev', logsize', ram', hloads', rfl⟩ :=
      (daemonLoadConfig_zero_iff fun hfile => (hfresh.log hfile).1).mp hrun
    obtain ⟨rfl, rfl, rfl, rfl⟩ := hloads.unique hloads'
    simp only [Loader.statics, Loader.loaded, Loader.reopen, Statics.mk.injEq] at hstatics
    obtain ⟨hthreads, hlev, -, -, haddress, hport⟩ := hstatics
    have hpositive := hloads.levelled.threads.2.1
    have hpositive' := hloads'.levelled.threads.2.1
    have hthreads' : threads env v s.threadCount = threads env v Loader.initial.threadCount := by
      omega
    have hlevel := hloads.levelled.level
    rw [← hlev, ← hloads'.levelled.level] at hlevel
    exact ⟨threads_eq_iff.mp hthreads', (requestedLevel_eq_iff hlevels.current hfresh.current).mp hlevel,
      requestedAddress_eq_iff.mp haddress.symm, requestedPort_eq_iff.mp hport.symm⟩
  · intro hdefaults
    have hd := hdefaults settings v server hloads.levelled.read hloads.levelled.daemonSection
      hloads.slave
    have hthreads := threads_eq_iff.mpr hd.threads
    have hlevel := (requestedLevel_eq_iff hlevels.current hfresh.current).mpr hd.level
    have haddress := requestedAddress_eq_iff.mpr hd.address
    have hport := requestedPort_eq_iff.mpr hd.port
    have hloads' : Loads env filename Loader.initial settings v server lev logsize ram := by
      refine ⟨⟨hloads.levelled.read, hloads.levelled.daemonSection, ?_, hloads.levelled.name, ?_⟩,
        hloads.size, hloads.ram, hloads.sink, hloads.slave, ?_, ?_⟩
      · rw [ThreadsPassOf, ← hthreads]
        exact hloads.levelled.threads
      · rw [← hlevel]
        exact hloads.levelled.level
      · rw [← hport]
        exact hloads.port
      · rw [← hport]
        exact hloads.high
    refine ⟨_, (daemonLoadConfig_zero_iff fun hfile => (hfresh.log hfile).1).mpr
      ⟨settings, v, server, lev, logsize, ram, hloads', rfl⟩, ?_⟩
    simp only [Loader.statics, Loader.loaded, Loader.reopen, hthreads, haddress, hport, Option.map_some]

theorem reachable_initial : Loader.initial.Reachable := .start rfl

/-- The shipped file in a new process. -/
theorem cfg_loads : (daemonLoadConfig (.holding (sections daemonCfg tcpServerCfg)) "daemon.cfg"
    "daemon.cfg").run Loader.initial = .returned 0 (cfgLoader .trace) := by
  decide +kernel

theorem cfg_reachable : (cfgLoader .trace).Reachable := by
  refine .step (a := ⟨.holding (sections daemonCfg tcpServerCfg), "daemon.cfg", "daemon.cfg"⟩)
    reachable_initial trivial ?_
  rw [Loader.after, cfg_loads]

/-- The section `TCPServer` of another file. -/
def otherCfg : List (String × Value) := [("Address", .string "0.0.0.0"), ("Port", .int 5555)]

/-- After the shipped file this one, which says all that the shipped one says. -/
theorem other_file_like_fresh : ∃ s', (daemonLoadConfig (.holding (sections daemonCfg otherCfg))
    "daemon.cfg" "daemon.cfg").run (cfgLoader .trace) = .returned 0 s' ∧
      FreshAgrees (.holding (sections daemonCfg otherCfg)) "daemon.cfg" "daemon.cfg" s' := by
  have hload : (daemonLoadConfig (.holding (sections daemonCfg otherCfg)) "daemon.cfg"
      "daemon.cfg").run (cfgLoader .trace) = .returned 0 { cfgLoader .trace with
        sink := some { cfgSink with id := 2 }
        log := some ⟨3, { cfgSink with id := 2 }, .trace⟩
        address := "0.0.0.0"
        port := 5555
        made := 4 } := by
    decide +kernel
  refine ⟨_, hload, (reload_like_fresh_iff cfg_reachable hload).mpr ?_⟩
  intro settings v server hread hv hserver
  obtain rfl : sections daemonCfg otherCfg = settings := ReadResult.root.inj hread
  obtain rfl : Value.group daemonCfg = v := Option.some.inj hv
  obtain rfl : Value.group otherCfg = server := Option.some.inj hserver
  constructor <;> exact nofun

/-- After the shipped file a file without a port keeps its port. -/
theorem kept_port_unlike_fresh : ¬ ∀ env configFile filename s s', s.Reachable →
    (daemonLoadConfig env configFile filename).run s = .returned 0 s' →
      FreshAgrees env configFile filename s' := by
  intro hall
  have hload : ∃ s', (daemonLoadConfig (.holding (sections daemonCfg [])) "daemon.cfg"
      "daemon.cfg").run (cfgLoader .trace) = .returned 0 s' := by
    refine ⟨{ cfgLoader .trace with
      sink := some { cfgSink with id := 2 }
      log := some ⟨3, { cfgSink with id := 2 }, .trace⟩
      made := 4 }, ?_⟩
    decide +kernel
  obtain ⟨s', hload⟩ := hload
  have hdefaults := (reload_like_fresh_iff cfg_reachable hload).mp (hall _ _ _ _ _ cfg_reachable hload)
  have hport := (hdefaults _ _ _ rfl rfl rfl).port rfl
  exact absurd hport (by decide)

end Robotd
