import Robotd.Daemon.Process
import Robotd.Loader.Rejected

/-!
# One SIGHUP and the exceptions it can raise

Only the reading of the file stands in a `try` block, so a missing section, a log that cannot be
opened and a message without its argument end the process that loads. `hangup_survived_iff` says
that the monitor and the master outlive a SIGHUP exactly when the file is `Survivable`.
-/

namespace Robotd

open Lib Lib.CLib

/-- What a process meets while it handles a SIGHUP: what the loader asks of the system, what it
finds in `CONFIG_LOAD`, and what comes of its signal to the master. -/
structure Hangup where
  env : Environment
  configFile : Path
  recorded : Except Errno (List Char)
  killed : Except Errno Unit

namespace Hangup

/-- The path that is loaded. -/
def path (hup : Hangup) : Path :=
  match hup.recorded with
  | .ok text => String.ofList (getLine text)
  | .error _ => ""

/-- What `daemon_load_config` returns and leaves, unless it throws. -/
def load (hup : Hangup) (path : Path) (s : Loader) : Option (Int × Loader) :=
  match (daemonLoadConfig hup.env hup.configFile path).run s with
  | .next _ s' => some (0, s')
  | .returned code s' => some (code, s')
  | .thrown _ => none

/-- A process that gets a SIGHUP, with its loader as the state. -/
def respond (hup : Hangup) : (c : Call) → Loader → Option (Response c × Loader)
  | .sigwaitinfo _, s => some (.ok .sighup, s)
  | .fopen path _, s => some (hup.recorded.map fun _ => ⟨path, 0⟩, s)
  | .fread _, s => some (hup.recorded.toOption.getD [], s)
  | .loadConfig path, s => match hup.load path s with
      | some (code, s') => some (.returned code s'.log.isSome, s')
      | none => some (.thrown, s)
  | .kill _ _, s => some (hup.killed, s)
  | .updateLoggers, s => some ((), s)
  | .print _ _ _, s => some ((), s)
  | _, _ => none

end Hangup

variable {hup : Hangup} {s : Loader} {logger : Logger} {pid : Nat}

theorem wp_configLoadLine {post : Except Int Path → Loader → Prop} :
    Program.wp hup.respond configLoadLine.run s (fun r s' _ => post r s') False ↔
      post (.ok hup.path) s := by
  simp only [configLoadLine, Proc.run_make_bind, Program.wp_call, Hangup.respond, Hangup.path]
  cases hrecorded : hup.recorded with
  | ok text => simp [Program.wp_call, Hangup.respond, hrecorded, Except.map, Except.toOption]
  | error e => simp [Except.map]

/-- Reading the path and loading it. -/
theorem wp_reloadConfig {post : Except Int Int → Loader → Prop} :
    Program.wp hup.respond reloadConfig.run s (fun r s' _ => post r s') False ↔
      ∃ out, hup.load hup.path s = some out ∧ post (.ok out.1) out.2 := by
  rw [reloadConfig, Proc.wp_bind]
  refine wp_configLoadLine.trans ?_
  simp only [Proc.run_make_bind, Program.wp_call, Hangup.respond]
  cases hload : hup.load hup.path s with
  | none => exact iff_of_false id fun h => by simp at h
  | some out => simp

/-- A process ends with the code of its `exit`. -/
theorem wp_program {code : Proc Next} {post : Next → Loader → Prop} :
    Program.wp hup.respond code.program s (fun next s' _ => post next s') False ↔
      Program.wp hup.respond code.run s (fun r s' _ => match r with
        | .ok next => post next s'
        | .error code => post (.exit code) s') False := by
  rw [Proc.program, Program.wp_bind]
  refine iff_of_eq (congrArg (fun mid => Program.wp hup.respond code.run s mid False) ?_)
  funext r s' first
  cases r <;> rfl

/-- The master is back at the head of its loop, with the loaded statics, unless the load throws. -/
theorem wp_workLoop (post : Loader → Prop) :
    Program.wp hup.respond workLoop.program s (fun next s' _ => next = .work ∧ post s') False ↔
      ∃ out, hup.load hup.path s = some out ∧ post out.2 := by
  rw [wp_program, workLoop]
  simp only [Proc.run_make_bind, Program.wp_call, Hangup.respond]
  rw [Proc.wp_bind, masterReloadConfig, Proc.wp_bind]
  refine wp_reloadConfig.trans (exists_congr fun out => and_congr_right fun _ => ?_)
  simp only [Proc.run_make_bind, Program.wp_call, Hangup.respond, Proc.run_pure, Program.wp_ret]
  by_cases hcode : out.1 ≠ 0
  · simp only [if_pos hcode]
    exact and_iff_right rfl
  · simp only [if_neg hcode]
    exact and_iff_right rfl

/-- The monitor goes on whatever comes of its signal to the master. -/
theorem wp_killOrLog (post : Next → Loader → Prop) {signal : Signal} {message : String} {next : Next} :
    Program.wp hup.respond (killOrLog pid signal message >>= fun _ => pure next).run s
      (fun r s' _ => match r with
        | .ok next => post next s'
        | .error code => post (.exit code) s') False ↔ post next s := by
  rw [killOrLog, bind_assoc]
  simp only [Proc.run_make_bind, Program.wp_call, Hangup.respond]
  cases hup.killed with
  | ok done => exact Iff.rfl
  | error e => exact Iff.rfl

/-- So is the monitor of a child. -/
theorem wp_monitorLoop (hpid : 0 < pid) (status : Int) (siginfo : Option Signal)
    (post : Loader → Prop) :
    Program.wp hup.respond (monitorLoop ⟨false, pid, status, siginfo⟩).program s
        (fun next s' _ => next = .monitor ⟨false, pid, status, some .sighup⟩ ∧ post s') False ↔
      ∃ out, hup.load hup.path s = some out ∧ post out.2 := by
  have hchild : ((pid : Int) ≠ -1) ∧ (pid : Int) ≠ 0 := by omega
  rw [wp_program]
  simp only [monitorLoop, Bool.false_eq_true, if_false, pure_bind, if_neg hchild.1,
    if_neg hchild.2, monitorWait]
  simp only [Proc.run_make_bind, Program.wp_call, Hangup.respond, monitorSignal]
  rw [Proc.wp_bind]
  refine wp_reloadConfig.trans (exists_congr fun out => and_congr_right fun _ => ?_)
  by_cases hcode : out.1 ≠ 0
  · simp only [if_pos hcode, Proc.run_log_bind, Program.wp_call, Hangup.respond]
    exact (wp_killOrLog _).trans (and_iff_right rfl)
  · simp only [if_neg hcode, Proc.run_log_bind, Program.wp_call, Hangup.respond]
    exact (wp_killOrLog _).trans (and_iff_right rfl)

/-- The load returns one of its codes, and the monitor of the child `pid` and the master are back
at the head of their loops. -/
structure Survived (hup : Hangup) (s : Loader) (pid : Nat) : Prop where
  returns : ∃ code s', (daemonLoadConfig hup.env hup.configFile hup.path).run s =
    .returned code s' ∧ (code = 0 ∨ code = childNeedWork)
  monitor : ∀ status siginfo, Program.wp hup.respond
    (monitorLoop ⟨false, pid, status, siginfo⟩).program s
      (fun next _ _ => next = .monitor ⟨false, pid, status, some .sighup⟩) False
  master : Program.wp hup.respond workLoop.program s (fun next _ _ => next = .work) False

/-- A SIGHUP is survived exactly when the file can be. -/
theorem hangup_survived_iff (h : Running s logger) (hpid : 0 < pid) :
    Survived hup s pid ↔ Survivable hup.env hup.path s logger.level := by
  constructor
  · intro hsurvived
    obtain ⟨code, s', hrun, _⟩ := hsurvived.returns
    rw [daemonLoadConfig_eq h] at hrun
    exact survivable_of_loadMeaning hrun
  · intro hsurvivable
    obtain ⟨ending, hends⟩ := endsAt_of_survivable hsurvivable
    have hrun : (daemonLoadConfig hup.env hup.configFile hup.path).run s =
        .returned ending.code (ending.leaves s) :=
      (daemonLoadConfig_returned_iff h).mpr ⟨ending, hends, rfl, rfl⟩
    have hload : ∃ out, hup.load hup.path s = some out ∧ True := by
      refine ⟨(ending.code, ending.leaves s), ?_, trivial⟩
      rw [Hangup.load, hrun]
    refine ⟨⟨_, _, hrun, ?_⟩, fun status siginfo => ?_, ?_⟩
    · cases ending with
      | loaded => exact .inl rfl
      | _ => exact .inr rfl
    · have hmonitor := (wp_monitorLoop hpid status siginfo fun _ => True).mpr hload
      exact Program.wp_mono hmonitor fun _ _ _ h => h.1
    · have hmaster := (wp_workLoop fun _ => True).mpr hload
      exact Program.wp_mono hmaster fun _ _ _ h => h.1

/-- The file that comes with the program, recorded and readable. -/
def cfgHangup (settings : Value) : Hangup where
  env := .holding settings
  configFile := "/etc/robotd/daemon.cfg"
  recorded := .ok "/etc/robotd/daemon.cfg\n".toList
  killed := .ok ()

theorem shipped_file_survived :
    Survived (cfgHangup (sections daemonCfg tcpServerCfg)) (cfgLoader .info) 4321 := by
  refine (hangup_survived_iff (running_cfgLoader .info) (by decide)).mpr ?_
  intro settings hread
  cases hread
  refine ⟨_, rfl, fun lev logsize ram _ _ _ _ _ => ⟨rfl, _, rfl, .inl ?_⟩⟩
  decide

/-- An empty file has no section `Daemon`. -/
theorem empty_file_not_survived : ¬ Survived (cfgHangup (.group [])) (cfgLoader .info) 4321 := by
  intro hsurvived
  obtain ⟨code, s', hrun, _⟩ := hsurvived.returns
  cases hrun

end Robotd
