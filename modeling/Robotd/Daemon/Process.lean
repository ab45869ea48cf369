import Robotd.Cli.Options

/-!
# The monitor and the master

`main`, the class `daemon` and the class `master`, after `server_main.cpp`, `daemon_impl.hpp` and
`master_impl.hpp`. The two endless loops are given by their bodies, `monitorLoop` and
`workLoop`; `Next` says how a process goes on when a piece of its code is done, and
`Next.resume` gives the next piece.

The functions take the calls on signal sets and `sigaction` for granted, which do not fail on
the arguments they get.
-/

namespace Robotd

open Lib Lib.CLib

/-- The code of a process, which may end early in `exit` with a code. -/
abbrev Proc := ExceptT Int Sys

namespace Proc

/-- Make a call. -/
def make (c : Call) : Proc (Response c) := ExceptT.lift (Sys.make c)

def exit {α : Type} (code : Int) : Proc α := throw code

def fault {α : Type} (reason : Fault) : Proc α := ExceptT.lift (Sys.fault reason)

def log (format : String) (args : List String) : Proc Unit := make (.print .log format args)

def cerr (text : String) : Proc Unit := make (.print .stderr text [])

section Run

variable {α β : Type}

@[simp] theorem run_pure (a : α) : (pure a : Proc α).run = .ret (.ok a) := rfl

@[simp] theorem run_exit (code : Int) : (exit code : Proc α).run = .ret (.error code) := rfl

-- The response type is not part of the index: a concrete call shows it unfolded.
@[simp] theorem run_make (c : Call) :
    @ExceptT.run Int Sys (no_index (Response c)) (make c) = .call c fun r => .ret (.ok r) := rfl

@[simp] theorem run_make_bind (c : Call) (f : Response c → Proc β) :
    ExceptT.run (@bind Proc _ (no_index (Response c)) β (make c) f) = .call c fun r => (f r).run := rfl

@[simp] theorem run_log_bind (format : String) (args : List String) (f : Unit → Proc β) :
    (log format args >>= f).run = .call (.print .log format args) fun r => (f r).run := rfl

@[simp] theorem run_cerr_bind (text : String) (f : Unit → Proc β) :
    (cerr text >>= f).run = .call (.print .stderr text []) fun r => (f r).run := rfl

@[simp] theorem run_exit_bind (code : Int) (f : α → Proc β) :
    ((exit code : Proc α) >>= f).run = .ret (.error code) := rfl

@[simp] theorem run_ite (c : Prop) [Decidable c] (x y : Proc α) :
    (if c then x else y : Proc α).run = if c then x.run else y.run :=
  apply_ite ExceptT.run c x y

/-- A sequence goes on from the value of its first part, and ends where that one exits. -/
theorem wp_bind {σ : Type} {respond : (c : Call) → σ → Option (Response c × σ)} (x : Proc α)
    (f : α → Proc β) (s : σ) {post : Except Int β → σ → List Event → Prop} {stuck : Prop} :
    Program.wp respond (x >>= f).run s post stuck ↔
      Program.wp respond x.run s (fun r s' first => match r with
        | .ok a => Program.wp respond (f a).run s'
            (fun b final rest => post b final (first ++ rest)) stuck
        | .error code => post (.error code) s' first) stuck := by
  rw [ExceptT.run_bind, Program.wp_bind]
  refine iff_of_eq (congrArg (fun mid => Program.wp respond x.run s mid stuck) ?_)
  funext r s' first
  cases r with
  | ok a => rfl
  | error code => simp

/-- The same of a protocol. -/
theorem conforms_bind {P : Program.Protocol Call Response} {φ : P.Phase} (x : Proc α) (f : α → Proc β)
    {post : P.Phase → Except Int β → Prop} :
    Program.Conforms P post φ (x >>= f).run ↔
      Program.Conforms P (fun ψ r => match r with
        | .ok a => Program.Conforms P post ψ (f a).run
        | .error code => post ψ (.error code)) φ x.run := by
  rw [ExceptT.run_bind, Program.conforms_bind]
  refine iff_of_eq (congrArg (fun mid => Program.Conforms P mid φ x.run) ?_)
  funext ψ r
  cases r <;> rfl

end Run

end Proc

open Proc

/-- `strerror(errno)`, whose text is not modelled. -/
def strerror : String := "%m"

/-- The variables of `monitor_proc`: `need_start`, the members `pid` and `status`, and the signal
number in `siginfo`, which is not initialized before the first wait. -/
structure MonitorVars where
  needStart : Bool
  pid : Int
  status : Int
  siginfo : Option Signal
  deriving DecidableEq, Repr

/-- How a process goes on: it has ended, or it is at the head of one of the loops. -/
inductive Next where
  | exit (code : Int)
  | monitor (vars : MonitorVars)
  | work
  deriving DecidableEq, Repr

/-- The second half of `set_pid_file`: create the file and write the process id. -/
def createPidFile : Proc Unit := do
  match ← make (.fopen pidFile .w) with
  | .ok f =>
    let pid ← make .getpid
    make (.fwrite f (decimal pid ++ ['\n']))
  | .error _ =>
    log "Failed to set PID file: {}" [strerror]
    exit exitFailure

/-- `set_pid_file`. -/
def setPidFile : Proc Unit := do
  match ← make (.fopen pidFile .r) with
  | .ok _ =>
    -- the result is not looked at, and the file is created in either case
    let _ ← make (.unlink pidFile)
    createPidFile
  | .error _ => createPidFile

/-- The steps of the child of `daemonize`, each with its message; the first failure ends them. -/
def prepare : List (Setup × String) → Proc (Option Errno)
  | [] => return none
  | (what, message) :: rest => do
    match ← make (.setup what) with
    | .ok _ => prepare rest
    | .error e =>
      cerr message
      return some e

/-- `daemonize`. -/
def daemonize : Proc Int := do
  match ← make .fork with
  | .failed e =>
    cerr "Daemon Start Daemon failed: "
    return ((e : Nat) : Int)
  | .child =>
    let failed ← prepare
      [(.setsid, "Daemon Failed to create new session: "),
        (.chdirRoot, "Daemon Failed to set default directory: "),
        (.closeStdin, "DaemonFailed to close stdin descriptor: "),
        (.closeStdout, "Daemon Failed to close stdout descriptor: "),
        (.closeStderr, "Daemon Failed to close stderr descriptor: ")]
    match failed with
    | some e => return ((e : Nat) : Int)
    | none =>
      setPidFile
      return 0
  | .parent _ => exit exitSuccess

/-- The constructor of `daemon`. A load that fails before it has made the logger leaves none. -/
def daemon (configName : Path) : Proc Unit := do
  match ← make (.loadConfig configName) with
  | .thrown => fault .uncaughtException
  | .returned ret hasLogger =>
    if ret ≠ 0 then
      if hasLogger then
        log "Some errors was found in slave sections of the config file" []
        exit ret
      else
        fault .nullLogger
    else if (← daemonize) ≠ 0 then
      exit exitFailure
    else
      log "Parent Daemon run" []

/-- The destructor of `daemon`, and the end of `main`. -/
def daemonExit : Proc Next := do
  log "Daemon exited" []
  let _ ← make (.unlink pidFile)
  return .exit exitSuccess

/-- The first line of `CONFIG_LOAD`; a file that cannot be opened gives the empty line. -/
def configLoadLine : Proc Path := do
  match ← make (.fopen configLoad .r) with
  | .ok file => return String.ofList (getLine (← make (.fread file)))
  | .error _ => return ""

/-- `daemon::reload_config`. Its callers let no exception out, so one ends the process. -/
def reloadConfig : Proc Int := do
  match ← make (.loadConfig (← configLoadLine)) with
  | .returned ret _ => return ret
  | .thrown => fault .uncaughtException

/-- `WEXITSTATUS`. -/
def wexitstatus (status : Int) : Int := status / 256 % 256

/-- The set of signals that `monitor_proc` blocks and waits for. -/
def monitorSignals : List Signal := [.sigquit, .sigint, .sigterm, .sigchld, .sighup]

/-- `monitor_proc` before its loop. -/
def monitorProc : Proc Next := do
  make (.sigprocmask monitorSignals)
  return .monitor ⟨true, 0, 0, none⟩

/-- The child of the monitor before the loop of `work_proc`: the constructor of `master` and the
first part of `work_proc`. -/
def masterStart : Proc Next := do
  log "Run" []
  match ← make (.setup .rlimitStack) with
  | .error _ =>
    log "rlimit failed" []
    -- the constructor leaves at once; the failures of `work_proc` return
    exit childNeedWork
  | .ok _ =>
    match ← make (.setup .signalHandlers) with
    | .error _ =>
      log "sigaction error occured on SIGFPE ({})" [strerror]
      return .exit childNeedTerminate
    | .ok _ =>
      make (.sigprocmask [.sighup, .sigterm])
      match ← make (.setup .rlimitNofile) with
      | .error _ =>
        log "Setting max count of file descriptors failed ({})" [strerror]
        return .exit childNeedTerminate
      | .ok _ =>
        match ← make .registerServices with
        | .thrown => fault .uncaughtException
        | .exited code => exit code
        | .running => return .work

/-- The value of the variable `pid` after `fork`. -/
def ForkResult.pid : ForkResult → Int
  | .failed _ => -1
  | .child => 0
  | .parent pid => pid

/-- `strsignal`. -/
def Signal.name : Signal → String
  | .sighup => "Hangup"
  | .sigint => "Interrupt"
  | .sigquit => "Quit"
  | .sigterm => "Terminated"
  | .sigchld => "Child exited"

/-- `kill`, with a message for its failure. -/
def killOrLog (pid : Int) (signal : Signal) (message : String) : Proc Unit := do
  match ← make (.kill pid signal) with
  | .ok _ => pure ()
  | .error _ => log message []

/-- What `monitor_proc` does with the signal it got. -/
def monitorSignal (vars : MonitorVars) (signal : Signal) : Proc Next := do
  match signal with
  | .sigchld =>
    let status ← make .wait
    -- `wait` that fails leaves `status` as it was
    let status := wexitstatus <| match status with
      | .ok raw => raw
      | .error _ => vars.status
    if status = childNeedTerminate then
      log "Master stopped" []
      log "Stop" []
      daemonExit
    else
      if status = childNeedWork then
        log "Master restart" []
      return .monitor { vars with needStart := true, status := status }
  | .sighup =>
    if (← reloadConfig) ≠ 0 then
      log "Reload config failed: {}" [strerror]
    else
      log "Reload config OK" []
    -- the master reloads too, whether this process could or not
    killOrLog vars.pid .sighup "Couldn't send SIGHUP to child process"
    return .monitor { vars with needStart := false }
  | signal =>
    log "Received signal {}" [signal.name]
    killOrLog vars.pid .sigterm "Couldn't send SIGTERM to child process"
    log "Stop" []
    daemonExit

/-- The second half of the loop of `monitor_proc`: wait for a signal and handle it. -/
def monitorWait (vars : MonitorVars) : Proc Next := do
  let siginfo ← match ← make (.sigwaitinfo monitorSignals) with
    | .ok signal => pure (some signal)
    | .error _ => do
      -- the error is reported, and the round goes on with the signal before it
      log "sigwaitinfo error occured ({})" [strerror]
      pure vars.siginfo
  match siginfo with
  | none => fault .uninitializedRead
  | some signal => monitorSignal { vars with siginfo := siginfo } signal

/-- The body of the loop of `monitor_proc`, to the head of the next round or to the end. -/
def monitorLoop (vars : MonitorVars) : Proc Next := do
  let pid ← if vars.needStart then ForkResult.pid <$> make .fork else pure vars.pid
  if pid = -1 then
    log "Fork failed ({})" [strerror]
    exit exitFailure
  else if pid = 0 then
    masterStart
  else
    monitorWait { vars with pid := pid }

/-- `master::reload_config`. -/
def masterReloadConfig : Proc Int := do
  let result ← reloadConfig
  make .updateLoggers
  return result

/-- The body of the loop of `work_proc`. -/
def workLoop : Proc Next := do
  match ← make (.sigwaitinfo [.sighup, .sigterm]) with
  | .error _ => fault .uninitializedRead
  | .ok .sighup =>
    if (← masterReloadConfig) ≠ 0 then
      log "Reload config failed: {}" [strerror]
    else
      log "Reload config OK" []
    return .work
  -- a SIGTERM
  | .ok _ =>
    log "Stopped" []
    return .exit childNeedTerminate

/-- `main`, from the command line to the loop of `monitor_proc`. -/
def main (cwd : Path) (argv : List String) : Proc Next := do
  let (ret, g) ← ExceptT.lift ((parseOptions cwd argv).run ⟨defaultConfigFile, 0⟩)
  if ret < 0 then
    return .exit exitFailure
  else if 0 < ret then
    return .exit exitSuccess
  else
    daemon g.configFile
    monitorProc

/-- The code of a process as a program whose value says how it goes on. -/
def Proc.program (code : Proc Next) : Sys Next := do
  match ← code.run with
  | .ok next => return next
  | .error code => return .exit code

/-- The next piece of code of a process that has not ended. -/
def Next.resume : Next → Option (Sys Next)
  | .exit _ => none
  | .monitor vars => some (monitorLoop vars).program
  | .work => some workLoop.program

end Robotd
