import Robotd.Loader.Ending

/-!
# What a rejected configuration changes

A load stores the number of threads, the level and the limit on the memory before the checks that
follow, and replaces the log before the slave checks its port. `Ending.Harmless` says for each
place where a load returns that what was stored by then was in force already.
-/

namespace Robotd

open Lib Lib.CLib

/-- The loader of `master` with the levels of the slaves' loggers. -/
structure Master where
  loader : Loader
  slaves : List Level
  deriving DecidableEq, Repr

namespace Master

/-- `update_all_loggers`: every slave gets the static level. -/
def updateAllLoggers (m : Master) : Master :=
  { m with slaves := m.slaves.map fun _ => m.loader.lev }

/-- `master::reload_config` once it has read the path. The slaves are updated whatever the load
came to. -/
def reloadConfig (env : Environment) (configFile path : Path) (m : Master) :
    Except Thrown (Int × Master) :=
  match (daemonLoadConfig env configFile path).run m.loader with
  | .next _ s => .ok (0, { m with loader := s }.updateAllLoggers)
  | .returned code s => .ok (code, { m with loader := s }.updateAllLoggers)
  | .thrown e => .error e

end Master

variable {env : Environment} {configFile filename : Path} {s : Loader} {logger : Logger}

/-- A reload of the master that returns has ended at one of the places. -/
theorem Master.reloadConfig_ok_iff (h : Running s logger) {slaves : List Level} {code : Int}
    {m' : Master} :
    Master.reloadConfig env configFile filename ⟨s, slaves⟩ = .ok (code, m') ↔
      ∃ ending, EndsAt env filename s logger.level ending ∧ code = ending.code ∧
        m' = ⟨ending.leaves s, slaves.map fun _ => (ending.leaves s).lev⟩ := by
  constructor
  · intro hok
    unfold reloadConfig at hok
    split at hok
    · rename_i hnext
      rw [daemonLoadConfig_eq h] at hnext
      exact absurd hnext loadMeaning_ne_next
    · rename_i code s' hreturned
      obtain ⟨ending, hends, rfl, rfl⟩ := (daemonLoadConfig_returned_iff h).mp hreturned
      cases hok
      exact ⟨ending, hends, rfl, rfl⟩
    · cases hok
  · intro hends
    obtain ⟨ending, hends, rfl, rfl⟩ := hends
    have hreturned : (daemonLoadConfig env configFile filename).run s =
        .returned ending.code (ending.leaves s) :=
      (daemonLoadConfig_returned_iff h).mpr ⟨ending, hends, rfl, rfl⟩
    simp only [reloadConfig, hreturned, updateAllLoggers]

namespace Ending

/-- What has been stored by this place was in force already. -/
def Harmless (s : Loader) : Ending → Prop
  | unread | badThreads => True
  | badName t | badLevel t => t = s.threadCount
  | badSize t lev | badRam t lev => t = s.threadCount ∧ lev = s.lev
  | zeroRam t lev => t = s.threadCount ∧ lev = s.lev ∧ s.ramsize = 0
  | badPort .. | loaded .. => False

/-- Exactly the harmless places leave the loader as it was. -/
theorem leaves_eq_iff (h : Running s logger) (ending : Ending) :
    ending.leaves s = s ↔ ending.Harmless s := by
  -- A reopened log is new, since the one in use was made before.
  have hnew : ∀ t lev ram logname logsize, (({ s with threadCount := t, lev := lev, ramsize := ram } :
      Loader).reopen logname logsize).log ≠ s.log := by
    intro t lev ram logname logsize hlog
    rw [h.log] at hlog
    have hid : s.made + 1 = logger.id := congrArg Logger.id (Option.some.inj hlog)
    have hmade := h.made
    omega
  cases ending with
  | unread | badThreads => exact iff_of_true rfl trivial
  | badName t | badLevel t => simp [leaves, Harmless, Loader.ext_iff]
  | badSize t lev | badRam t lev => simp [leaves, Harmless, Loader.ext_iff]
  | zeroRam t lev => simp [leaves, Harmless, Loader.ext_iff, eq_comm]
  | badPort t lev ram logname logsize address =>
      refine iff_of_false (fun heq => ?_) id
      have hlog := congrArg Loader.log heq
      exact hnew t lev ram logname logsize hlog
  | loaded t lev ram logname logsize address port =>
      refine iff_of_false (fun heq => ?_) id
      have hlog := congrArg Loader.log heq
      exact hnew t lev ram logname logsize hlog

end Ending

/-- No rejection changes the loader, nor the slaves' levels when it is the master that loads. -/
def RejectionsChangeNothing (env : Environment) (configFile filename : Path) (s : Loader)
    (slaves : List Level) : Prop :=
  (∀ code s', (daemonLoadConfig env configFile filename).run s = .returned code s' →
    code ≠ 0 → s' = s) ∧
  ∀ code m', Master.reloadConfig env configFile filename ⟨s, slaves⟩ = .ok (code, m') →
    code ≠ 0 → m'.slaves = slaves

/-- A rejected configuration changes nothing exactly when it is rejected at a harmless place, and
the slaves have the static level. -/
theorem rejections_change_nothing_iff (h : Running s logger) (slaves : List Level) :
    RejectionsChangeNothing env configFile filename s slaves ↔
      ∀ ending, EndsAt env filename s logger.level ending → ending.code ≠ 0 →
        ending.Harmless s ∧ ∀ l ∈ slaves, l = s.lev := by
  have hslaves : ∀ lev, (slaves.map fun _ => lev) = slaves ↔ ∀ l ∈ slaves, l = lev := by
    intro lev
    rw [List.map_const', eq_comm, List.eq_replicate_iff]
    exact and_iff_right rfl
  constructor
  · intro hnothing ending hends hcode
    have hleaves : ending.leaves s = s :=
      hnothing.1 _ _ ((daemonLoadConfig_returned_iff h).mpr ⟨ending, hends, rfl, rfl⟩) hcode
    have hmaster := hnothing.2 _ _
      ((Master.reloadConfig_ok_iff h).mpr ⟨ending, hends, rfl, rfl⟩) hcode
    rw [hleaves] at hmaster
    exact ⟨(ending.leaves_eq_iff h).mp hleaves, (hslaves s.lev).mp hmaster⟩
  · intro hharmless
    constructor
    · intro code s' hreturned hcode
      obtain ⟨ending, hends, rfl, rfl⟩ := (daemonLoadConfig_returned_iff h).mp hreturned
      exact (ending.leaves_eq_iff h).mpr (hharmless ending hends hcode).1
    · intro code m' hok hcode
      obtain ⟨ending, hends, rfl, rfl⟩ := (Master.reloadConfig_ok_iff h).mp hok
      obtain ⟨hplace, hlevels⟩ := hharmless ending hends hcode
      rw [(ending.leaves_eq_iff h).mpr hplace]
      exact (hslaves s.lev).mpr hlevels

/-! ## A concrete loader -/

/-- The system and the libraries when the configuration file holds these settings: `libconfig`
converts nothing but values of the type asked for, there are four processors, and every log can
be opened. -/
def Environment.holding (settings : Value) : Environment where
  readFile _ := .root settings
  asInt
    | .int n => some n
    | _ => none
  asUnsigned
    | .int n => some n.toNat
    | _ => none
  asString
    | .string s => some s
    | _ => none
  hardwareConcurrency := 4
  opensLog _ := true
  opensSink _ := true

/-- The two sections of a configuration file. -/
def sections (daemonSection tcpServer : List (String × Value)) : Value :=
  .group [("Daemon", .group daemonSection), ("TCPServer", .group tcpServer)]

/-- The members of the section `Daemon` in the file that comes with the program. -/
def daemonCfg : List (String × Value) :=
  [("LogName", .string "/var/log/robot"), ("LogLevel", .string "trace"), ("Size", .string "40k"),
    ("ThreadCount", .int 2), ("MaxRamUse", .string "16m")]

/-- Those of its section `TCPServer`. -/
def tcpServerCfg : List (String × Value) :=
  [("Address", .string "127.0.0.1"), ("Port", .int 4444)]

def cfgSink : Sink := ⟨0, "/var/log/robot.log", 40 * 1024⟩

/-- The loader of a daemon that has loaded this file. -/
def cfgLoader (lev : Level) : Loader where
  logToFile := true
  threadCount := 2
  lev := lev
  sink := some cfgSink
  log := some ⟨1, cfgSink, lev⟩
  ramsize := 16 * 1024 * 1024
  address := "127.0.0.1"
  port := 4444
  made := 2

theorem running_cfgLoader (lev : Level) : Running (cfgLoader lev) ⟨1, cfgSink, lev⟩ :=
  ⟨rfl, rfl, Nat.one_lt_two⟩

/-- A file that is rejected for its size, and asks for the threads and the level in force. -/
def badSizeCfg : Value :=
  sections [("LogName", .string "/var/log/robot"), ("ThreadCount", .int 2), ("Size", .string "40g")] []

theorem bad_size_changes_nothing : RejectionsChangeNothing (.holding badSizeCfg) "daemon.cfg"
    "daemon.cfg" (cfgLoader .info) [.info] := by
  have hload : (daemonLoadConfig (.holding badSizeCfg) "daemon.cfg" "daemon.cfg").run
      (cfgLoader .info) = .returned 3 (cfgLoader .info) := by decide +kernel
  refine (rejections_change_nothing_iff (running_cfgLoader .info) [.info]).mpr ?_
  intro ending hends _
  have hleaves : (daemonLoadConfig (.holding badSizeCfg) "daemon.cfg" "daemon.cfg").run
      (cfgLoader .info) = .returned ending.code (ending.leaves (cfgLoader .info)) :=
    (daemonLoadConfig_returned_iff (running_cfgLoader .info)).mpr ⟨ending, hends, rfl, rfl⟩
  rw [hload, Outcome.returned.injEq] at hleaves
  have hharmless := (ending.leaves_eq_iff (running_cfgLoader .info)).mp hleaves.2.symm
  exact ⟨hharmless, by decide⟩

/-- A file that asks for one thread and names no log leaves its number of threads behind. -/
theorem missing_name_changes_threads :
    ¬ RejectionsChangeNothing (.holding (sections [("ThreadCount", .int 1)] [])) "daemon.cfg"
      "daemon.cfg" (cfgLoader .info) [.info] := by
  intro hnothing
  have hsame : { cfgLoader .info with threadCount := 1 } = cfgLoader .info :=
    hnothing.1 3 _ rfl (by decide)
  cases congrArg Loader.threadCount hsame

end Robotd
