import Robotd.Daemon.Reload
import Robotd.Loader.Fresh

/-!
# What a running master has set up

`Worker` is a master in the loop of `work_proc`, after `master_impl.hpp` and `service.hpp`: what
its constructor and the start of `work_proc` have made from the statics, and what a SIGHUP does
to it. A reload writes the statics and sets the levels of the slaves; `reload_in_force_iff` says
when the master then runs with what was loaded.
-/

namespace Robotd

open Lib Lib.CLib Load

/-- An object of a slave class: its copy of the level, and its logger. -/
structure Service where
  lev : Level
  log : Logger
  deriving DecidableEq, Repr

/-- `set_level`. -/
def Service.setLevel (lev : Level) (service : Service) : Service where
  lev := lev
  log := { service.log with level := lev }

/-- The resources that are made once: the threads on the `io_service`, the address and the port
that the acceptor of `tcp_server` listens on, and the limit on the stack. -/
structure Resources where
  threads : Nat
  endpoint : String × Nat
  stack : Nat
  deriving DecidableEq, Repr

structure Worker where
  loader : Loader
  services : List Service
  resources : Resources
  deriving DecidableEq, Repr

/-- What a master with these statics sets up: `run_all_services`, the constructor of `tcp_server`
and the constructor of `master`. -/
def Loader.setsUp (s : Loader) : Resources where
  threads := s.threadCount
  endpoint := (s.address, s.port)
  stack := s.ramsize

namespace Worker

/-- `register_all_services`, for this number of classes: each object makes a logger on the sink. -/
def registerServices : Nat → Loader → List Service × Loader
  | 0, s => ([], s)
  | count + 1, s => match s.sink with
    | none => ([], s)
    | some sink =>
      let (rest, s') := registerServices count { s with made := s.made + 1 }
      (⟨s.lev, ⟨s.made, sink, s.lev⟩⟩ :: rest, s')

/-- A master that a monitor has forked, when it enters its loop. -/
def start (classes : List (Environment → SlaveClass)) (monitor : Loader) : Worker :=
  let (services, loader) := registerServices classes.length monitor.forked
  ⟨loader, services, monitor.setsUp⟩

/-- `update_all_loggers`. -/
def updateAllLoggers (w : Worker) : Worker :=
  { w with services := w.services.map (Service.setLevel w.loader.lev) }

/-- `reload_config`, once it has read the path: its value and the master; `none` when an
exception ends the process. -/
def reloadConfig (classes : List (Environment → SlaveClass)) (c : LoadCommand) (w : Worker) :
    Option (Int × Worker) :=
  match (daemonLoadConfigOf c.env (classes.map fun T => T c.env) c.configFile c.filename).run
      w.loader with
  | .next _ s => some (0, updateAllLoggers { w with loader := s })
  | .returned code s => some (code, updateAllLoggers { w with loader := s })
  | .thrown _ => none

/-- The loop of `work_proc` on a SIGHUP. -/
def step (classes : List (Environment → SlaveClass)) (w : Worker) (c : LoadCommand) :
    Option Worker :=
  (w.reloadConfig classes c).map Prod.snd

variable {classes : List (Environment → SlaveClass)} {c : LoadCommand} {monitor : Loader}
  {w w' : Worker} {code : Int}

/-- Registering the slaves makes loggers and changes nothing else. -/
theorem registerServices_loader (count : Nat) (s : Loader) :
    (registerServices count s).2 = { s with made := (registerServices count s).2.made } ∧
      s.made ≤ (registerServices count s).2.made := by
  induction count generalizing s with
  | zero => exact ⟨rfl, le_rfl⟩
  | succ count ih =>
      rw [registerServices]
      split
      · exact ⟨rfl, le_rfl⟩
      · obtain ⟨heq, hle⟩ := ih { s with made := s.made + 1 }
        refine ⟨?_, (Nat.le_succ s.made).trans hle⟩
        dsimp only
        rw [heq]

/-- `daemon_load_config` ends in a `return`. -/
theorem daemonLoadConfigOf_returns {env : Environment} {slaves : List SlaveClass}
    {configFile filename : Path} {s : Loader} :
    (daemonLoadConfigOf env slaves configFile filename).Meets s (fun _ _ => False)
      (fun _ _ => True) True := by
  refine meets_daemonLoadConfigOf (fun _ _ => trivial) (fun _ _ _ => trivial)
    (fun _ => ⟨rfl, fun _ _ _ => trivial⟩) (fun _ _ _ _ _ => ⟨rfl, fun _ _ _ _ => trivial⟩) ?_
  intro settings v lev logsize ram sizeS loglevel _ _ _
  exact meets_finishLoadOf (fun _ => trivial) fun _ =>
    (meets_loadSlaveConfigs _ _ _).mono (fun _ _ hsame => ⟨hsame.log, trivial⟩) fun _ _ => id

/-- A reload that comes to an end has loaded the file. -/
theorem reloadConfig_eq_some (h : w.reloadConfig classes c = some (code, w')) :
    ∃ s, (daemonLoadConfigOf c.env (classes.map fun T => T c.env) c.configFile c.filename).run
        w.loader = .returned code s ∧ w' = updateAllLoggers { w with loader := s } := by
  have hreturns : (daemonLoadConfigOf c.env (classes.map fun T => T c.env) c.configFile
    c.filename).Meets w.loader (fun _ _ => False) (fun _ _ => True) True :=
    daemonLoadConfigOf_returns
  unfold reloadConfig at h
  unfold Meets at hreturns
  split at h
  · rename_i hrun
    rw [hrun] at hreturns
    exact hreturns.elim
  · cases h
    exact ⟨_, by assumption, rfl⟩
  · cases h

/-! ## What is in force -/

/-- The master runs with what one forked now would set up. -/
def InForce (w : Worker) : Prop := w.resources = w.loader.setsUp

/-- The states of a master of this monitor in its loop, after any SIGHUPs with any files. -/
def Reachable (classes : List (Environment → SlaveClass)) (monitor : Loader) : Worker → Prop :=
  Machine.Reached (step classes) (fun _ _ => True) (· = start classes monitor)

theorem start_loader (classes : List (Environment → SlaveClass)) (monitor : Loader) :
    (start classes monitor).loader =
      { monitor.forked with made := (start classes monitor).loader.made } ∧
      monitor.made < (start classes monitor).loader.made := by
  exact registerServices_loader classes.length monitor.forked

/-- A forked master has a log on the sink of its monitor, at the static level. -/
theorem levels_start (h : monitor.Levels) : (start classes monitor).loader.Levels := by
  obtain ⟨hloader, hmade⟩ := start_loader classes monitor
  have hsink : (start classes monitor).loader.sink = monitor.sink := by
    rw [hloader]
    rfl
  have hlev : (start classes monitor).loader.lev = monitor.lev := by
    rw [hloader]
    rfl
  cases hmonitor : monitor.sink with
  | none =>
      have hfile : (start classes monitor).loader.logToFile = false := by
        rw [hloader]
        show monitor.logToFile = false
        by_contra hfile
        exact (h.log (by simpa using hfile)).2 hmonitor
      refine ⟨by simp [hfile], ?_, hlev ▸ h.lev, ?_⟩
      · rw [hsink, hmonitor]
        nofun
      · rw [Loader.current, hfile, if_neg Bool.false_ne_true]
        decide
  | some sink =>
      have hlog : (start classes monitor).loader.log = some ⟨monitor.made, sink, monitor.lev⟩ := by
        rw [hloader]
        simp only [Loader.forked, hmonitor, Option.map_some]
      refine Loader.levels_of_log hlog (hsink.trans hmonitor) ?_ hlev.symm (hlev ▸ h.lev)
      exact (h.sink sink hmonitor).trans hmade

/-- What was set up at the start is kept, and the log is. -/
theorem resources_of_reachable (hmonitor : monitor.Levels) (h : Reachable classes monitor w) :
    w.resources = monitor.setsUp ∧ w.loader.Levels := by
  refine Machine.Reached.invariant (I := fun w => w.resources = monitor.setsUp ∧ w.loader.Levels) h
    ?_ ?_
  · rintro w rfl
    exact ⟨rfl, levels_start hmonitor⟩
  · intro w c w' ⟨hresources, hlevels⟩ _ hstep
    obtain ⟨⟨code, _⟩, hreload, rfl⟩ := Option.map_eq_some_iff.mp hstep
    obtain ⟨s, hrun, rfl⟩ := reloadConfig_eq_some hreload
    exact ⟨hresources, hlevels.load hrun⟩

/-- The file asks for the threads, the address, the port and the memory that this loader has. -/
def AsksFor (c : LoadCommand) (s started : Loader) : Prop :=
  ∀ settings v server, c.env.readFile c.filename = .root settings →
    settings.member "Daemon" = some v → settings.member "TCPServer" = some server →
      (threads c.env v s.threadCount).toNat = started.threadCount ∧
        requestedAddress c.env server s.address = started.address ∧
        requestedPort c.env server s.port = started.port ∧
        ramUse c.env v = .bytes started.ramsize

/-- After a reload that is reported OK the master runs with what was loaded exactly when the file
asks for what the master was started with. -/
theorem reload_in_force_iff (hmonitor : monitor.Reachable)
    (hreach : Reachable [tcpServer] monitor w)
    (hreload : w.reloadConfig [tcpServer] c = some (0, w')) :
    w'.InForce ↔ AsksFor c w.loader monitor := by
  obtain ⟨hresources, hlevels⟩ := resources_of_reachable hmonitor.levels hreach
  obtain ⟨s, hrun, rfl⟩ := reloadConfig_eq_some hreload
  change (daemonLoadConfigOf c.env [tcpServer c.env] c.configFile c.filename).run w.loader = _ at hrun
  rw [daemonLoadConfigOf_tcpServer] at hrun
  obtain ⟨settings, v, server, lev, logsize, ram, hloads, rfl⟩ :=
    (daemonLoadConfig_zero_iff fun hfile => (hlevels.log hfile).1).mp hrun
  have hforce : (updateAllLoggers { w with
        loader := w.loader.loaded c.env v server lev logsize ram }).InForce ↔
      (threads c.env v w.loader.threadCount).toNat = monitor.threadCount ∧
        requestedAddress c.env server w.loader.address = monitor.address ∧
        requestedPort c.env server w.loader.port = monitor.port ∧ ram = monitor.ramsize := by
    rw [InForce, eq_comm]
    show Loader.setsUp (w.loader.loaded c.env v server lev logsize ram) = w.resources ↔ _
    rw [hresources]
    simp only [Loader.setsUp, Loader.loaded, Loader.reopen, Resources.mk.injEq, Prod.mk.injEq,
      and_assoc]
  rw [hforce]
  constructor
  · rintro ⟨hthreads, haddress, hport, rfl⟩ settings' v' server' hread hsection hserver
    rw [hloads.levelled.read] at hread
    cases hread
    rw [hloads.levelled.daemonSection] at hsection
    cases hsection
    rw [hloads.slave] at hserver
    cases hserver
    exact ⟨hthreads, haddress, hport, hloads.ram⟩
  · intro hasks
    obtain ⟨hthreads, haddress, hport, hram⟩ := hasks settings v server hloads.levelled.read
      hloads.levelled.daemonSection hloads.slave
    rw [hloads.ram] at hram
    cases hram
    exact ⟨hthreads, haddress, hport, rfl⟩

/-- A file with these sections, at the path of the configuration. -/
def configured (daemonSection tcpServer : List (String × Value)) : LoadCommand :=
  ⟨.holding (sections daemonSection tcpServer), "daemon.cfg", "daemon.cfg"⟩

theorem reloads_ok (w : Worker) (classes : List (Environment → SlaveClass)) (c : LoadCommand)
    (h : (w.reloadConfig classes c).map Prod.fst = some 0) :
    ∃ w', w.reloadConfig classes c = some (0, w') := by
  obtain ⟨⟨code, w'⟩, hreload, rfl⟩ := Option.map_eq_some_iff.mp h
  exact ⟨w', hreload⟩

theorem cfg_in_force : ∃ w', (start [tcpServer] (cfgLoader .trace)).reloadConfig [tcpServer]
    (configured daemonCfg tcpServerCfg) = some (0, w') ∧
      (w'.InForce ↔ AsksFor (configured daemonCfg tcpServerCfg)
        (start [tcpServer] (cfgLoader .trace)).loader (cfgLoader .trace)) := by
  obtain ⟨w', hreload⟩ := reloads_ok (start [tcpServer] (cfgLoader .trace)) [tcpServer]
    (configured daemonCfg tcpServerCfg) (by decide +kernel)
  exact ⟨w', hreload, reload_in_force_iff cfg_reachable (.start rfl) hreload⟩

/-- A reload with another port is reported OK, and the master listens on the old one. -/
theorem other_port_not_in_force : ¬ ∀ monitor w w' c, monitor.Reachable →
    Reachable [tcpServer] monitor w → w.reloadConfig [tcpServer] c = some (0, w') →
      w'.InForce := by
  intro hall
  obtain ⟨w', hreload⟩ := reloads_ok (start [tcpServer] (cfgLoader .trace)) [tcpServer]
    (configured daemonCfg [("Port", .int 5555)]) (by decide +kernel)
  have hforce := hall _ _ _ _ cfg_reachable (.start rfl) hreload
  obtain ⟨-, -, hport, -⟩ :=
    (reload_in_force_iff cfg_reachable (.start rfl) hreload).mp hforce _ _ _ rfl rfl rfl
  exact absurd hport (by decide)

end Worker

end Robotd
