import Robotd.Cli.Price
import Robotd.Daemon.Protocol

/-!
# What a process may do before it waits

`pace` is the protocol of a process with a budget for the time until it waits for a signal the next
time, or ends. Each call has a price: one, and for a `fork` or a `kill` also what the child or the
receiver may do by itself. A signal that is taken gives a new budget, and so does a child that is
reaped and has to be replaced. `main` and both loops keep to their budgets (`paced_command`,
`paced_resume`); they wait nowhere but in the loops, and a monitor that is told to stop tells its
child before it ends.
-/

namespace Robotd

open Lib Lib.CLib Cli
open Lib.Program (Protocol Conforms)

/-- Where a process stands: before the loops; in the loop of a monitor, and there after a signal to
stop, which the child does not know of yet, or on its way out; in the code of a master, and there
after a SIGTERM; at the end, after an exception that nobody catches. -/
inductive Station where
  | command
  | watching
  | called
  | leaving
  | serving
  | stopping
  | broken
  deriving DecidableEq, Repr

/-! ## The prices -/

/-- A `wait` and what follows it, without a `fork`. -/
def reapEffort : Nat := 5

/-- A master before its loop. -/
def startEffort : Nat := 6

/-- A reload of a master. -/
def reloadEffort : Nat := 5

/-- The end of a master, and of the SIGCHLD for it. -/
def partEffort : Nat := 1 + (1 + reapEffort)

/-- A `fork` of a master, and all that the master does until it waits, and its end. -/
def forkEffort : Nat := 1 + (startEffort + partEffort)

/-- A signal to a master, and what it does then. -/
def tellEffort : Nat := 1 + (1 + reloadEffort)

/-- A reload of a monitor, which passes the SIGHUP on; a stop costs as much. -/
def hangupEffort : Nat := 5 + tellEffort

/-- A signal of a command to a monitor. -/
def orderEffort : Nat := 1 + (1 + hangupEffort)

/-- The end of a process that may be reaped and replaced by a monitor. -/
def endEffort : Nat := partEffort + forkEffort

/-- A daemon from the `fork` in `daemonize` to its first wait. -/
def daemonEffort : Nat := 13 + forkEffort

/-- A command, with the daemon that it may start. -/
def commandEffort : Nat := (orderEffort + 17) + 1 + (1 + (daemonEffort + endEffort))

namespace Station

/-- The price of a call, which is not made where it has none. -/
def price : Station → Call → Option Nat
  | command, .fork => some (1 + (daemonEffort + endEffort))
  | command, .loadConfig _ | command, .sigprocmask _ => some 1
  | command, c => c.price orderEffort
  | watching, .sigwaitinfo _ => some 0
  | watching, .fork => some forkEffort
  | watching, .kill _ _ => some tellEffort
  | watching, .wait | watching, .print _ _ _ => some 1
  | watching, .fopen _ _ | watching, .fread _ | watching, .loadConfig _ => some 1
  | called, .kill _ _ => some tellEffort
  | called, .print _ _ _ => some 1
  | leaving, .print _ _ _ | leaving, .unlink _ => some 1
  | serving, .sigwaitinfo _ => some 0
  | serving, .print _ _ _ | serving, .setup _ | serving, .sigprocmask _ => some 1
  | serving, .registerServices | serving, .updateLoggers => some 1
  | serving, .fopen _ _ | serving, .fread _ | serving, .loadConfig _ => some 1
  | stopping, .print _ _ _ => some 1
  | broken, .fault _ => some 0
  | _, _ => none

end Station

/-- A process with what is left of its budget. -/
structure Pace where
  station : Station
  left : Nat
  deriving DecidableEq, Repr

namespace Pace

def after (φ : Pace) (e : Event) : Pace := match φ.station, e with
  | .command, ⟨.fork, .child⟩ => ⟨.command, daemonEffort⟩
  | .command, ⟨.sigprocmask _, _⟩ => ⟨.watching, φ.left - 1⟩
  | .watching, ⟨.fork, .child⟩ => ⟨.serving, startEffort⟩
  | .watching, ⟨.sigwaitinfo _, .ok .sighup⟩ => ⟨.watching, hangupEffort⟩
  | .watching, ⟨.sigwaitinfo _, .ok .sigchld⟩ => ⟨.watching, reapEffort⟩
  | .watching, ⟨.sigwaitinfo _, .ok _⟩ => ⟨.called, hangupEffort⟩
  | .watching, ⟨.wait, .ok raw⟩ =>
      if raw = (WaitStatus.exited 2).raw then ⟨.leaving, φ.left - 1⟩
      else ⟨.watching, φ.left - 1 + forkEffort⟩
  | .called, ⟨.kill _ _, _⟩ => ⟨.leaving, φ.left - tellEffort⟩
  | .serving, ⟨.sigwaitinfo _, .ok .sighup⟩ => ⟨.serving, reloadEffort⟩
  | .serving, ⟨.sigwaitinfo _, .ok _⟩ => ⟨.stopping, 1⟩
  | _, ⟨.loadConfig _, .thrown⟩ | _, ⟨.registerServices, .thrown⟩ => ⟨.broken, 0⟩
  | station, e => ⟨station, φ.left - (station.price e.1).getD 0⟩

/-- The call has a price, and there is enough left for it. -/
def allows (φ : Pace) (c : Call) : Prop := ∃ x, φ.station.price c = some x ∧ x ≤ φ.left

/-- Where a piece of code may end. -/
def Rests (φ : Pace) (next : Next) : Prop := match φ.station with
  | .command | .leaving => ∃ code, next = .exit code
  | .watching => ∃ vars, next = .monitor vars ∧
      (vars.needStart = true ∧ forkEffort ≤ φ.left ∨ vars.needStart = false ∧ 0 < vars.pid)
  | .serving => next = .work ∨ ∃ code, next = .exit code
  | .stopping => next = .exit childNeedTerminate
  | .called | .broken => False

/-- The same with an `exit` on the way. -/
def Ends (φ : Pace) : Except Int Next → Prop
  | .ok next => φ.Rests next
  | .error code => φ.Rests (.exit code)

end Pace

/-- The protocol of these budgets. -/
abbrev pace : Protocol Call Response where
  Phase := Pace
  after := Pace.after
  allows := Pace.allows
  expects _ := Expected

variable {α : Type} {post : Pace → α → Prop} {station : Station} {n x : Nat}

/-- A call that takes its price, in front of a program. -/
theorem paced_call {c : Call} {next : Response c → Sys α} (hprice : station.price c = some x)
    (hx : x ≤ n) (hafter : ∀ r, Pace.after ⟨station, n⟩ ⟨c, r⟩ = ⟨station, n - x⟩)
    (h : ∀ r, Conforms pace post ⟨station, n - x⟩ (next r)) :
    Conforms pace post ⟨station, n⟩ (.call c next) := by
  refine ⟨⟨x, hprice, hx⟩, fun r _ => ?_⟩
  have hsame : pace.after ⟨station, n⟩ ⟨c, r⟩ = ⟨station, n - x⟩ := hafter r
  rw [hsame]
  exact h r

theorem paced_print {stream : Stream} {format : String} {args : List String}
    {next : Unit → Sys α} (hn : 1 ≤ n) (hprice : station.price (.print stream format args) = some 1)
    (h : Conforms pace post ⟨station, n - 1⟩ (next ())) :
    Conforms pace post ⟨station, n⟩ (.call (.print stream format args) next) := by
  refine paced_call hprice hn (fun r => ?_) fun _ => h
  cases station <;> first | rfl | cases hprice

/-! ## A command -/

/-- The calls of the command line have their prices before the loops. -/
theorem pays_command (n : Nat) (c : Call) (x : Nat) (hc : c.price orderEffort = some x) (hx : x ≤ n) :
    pace.allows ⟨.command, n⟩ c ∧ ∀ r, pace.after ⟨.command, n⟩ ⟨c, r⟩ = ⟨.command, n - x⟩ := by
  have hprice : Station.command.price c = some x := by
    cases c <;> first | exact hc | cases hc
  refine ⟨⟨x, hprice, hx⟩, fun r => ?_⟩
  have hgetD : (Station.command.price c).getD 0 = x := by rw [hprice, Option.getD_some]
  cases c with
  | fork | sigprocmask | loadConfig | registerServices | sigwaitinfo | wait | updateLoggers => cases hc
  | _ => exact congrArg (fun x => Pace.mk .command (n - x)) hgetD

/-- Code of a command with a budget keeps to it. -/
theorem paced_spends {p : Sys α} {k : Nat} (h : Program.Spends (Call.price orderEffort) k p)
    (hle : k ≤ n) : Conforms pace (fun φ _ => ∃ left, φ = ⟨.command, left⟩ ∧ n ≤ left + k)
      ⟨.command, n⟩ p :=
  Program.Spends.conforms (P := pace) (fun left => ⟨.command, left⟩) pays_command h hle

section Spends

variable {β : Type} {price : Call → Option Nat} {k : Nat}

/-- The same of code that may end in `exit`. -/
theorem Proc.spends_seq {f : Proc α} {next : α → Proc β} (hf : Program.Spends price n f.run)
    (hle : n ≤ k) (hnext : ∀ a, Program.Spends price (k - n) (next a).run) :
    Program.Spends price k (f >>= next).run := by
  rw [ExceptT.run_bind]
  refine hf.seq hle fun r => ?_
  cases r with
  | ok a => exact hnext a
  | error code => trivial

theorem Proc.spends_make {c : Call} (hc : price c = some x) :
    Program.Spends price x (make c).run :=
  ⟨x, hc, le_rfl, fun _ => trivial⟩

end Spends

theorem createPidFile_spends : Program.Spends (Call.price orderEffort) 3 createPidFile.run := by
  refine Proc.spends_seq (Proc.spends_make rfl) (by decide) fun r => ?_
  cases r with
  | ok f =>
      refine Proc.spends_seq (Proc.spends_make rfl) (by decide) fun n => ?_
      exact Proc.spends_make rfl
  | error e => exact Proc.spends_seq (Proc.spends_make rfl) (by decide) fun _ => trivial

theorem setPidFile_spends : Program.Spends (Call.price orderEffort) 5 setPidFile.run := by
  refine Proc.spends_seq (Proc.spends_make rfl) (by decide) fun r => ?_
  cases r with
  | ok f =>
      exact Proc.spends_seq (Proc.spends_make rfl) (by decide) fun _ => createPidFile_spends
  | error e => exact createPidFile_spends.mono (by decide)

theorem prepare_spends (steps : List (Setup × String)) :
    Program.Spends (Call.price orderEffort) (steps.length + 1) (prepare steps).run := by
  induction steps with
  | nil => trivial
  | cons first rest ih =>
      refine Proc.spends_seq (Proc.spends_make rfl) (by simp) fun r => ?_
      cases r with
      | ok done => exact ih
      | error e => exact Proc.spends_seq (Proc.spends_make rfl) (by simp) fun _ => trivial

/-- What is left of a command after a piece of its code that has not ended in `exit`. -/
def LeavesFor (k : Nat) (φ : Pace) : Except Int α → Prop
  | .ok _ => φ.station = .command ∧ k ≤ φ.left
  | .error _ => φ.station = .command

theorem paced_leaves {p : Proc α} {k m : Nat} (h : Program.Spends (Call.price orderEffort) k p.run)
    (hle : k + m ≤ n) : Conforms pace (LeavesFor m) ⟨.command, n⟩ p.run := by
  refine (paced_spends h (by omega)).mono fun φ r hleft => ?_
  obtain ⟨left, rfl, hleft⟩ := hleft
  cases r with
  | ok a => exact ⟨rfl, by show m ≤ left; omega⟩
  | error code => rfl

theorem paced_daemonize (hn : 1 + (daemonEffort + endEffort) ≤ n) :
    Conforms pace (LeavesFor (2 + forkEffort)) ⟨.command, n⟩ daemonize.run := by
  rw [daemonize, Proc.run_make_bind]
  refine ⟨⟨_, rfl, hn⟩, fun r hr => ?_⟩
  rcases hr with rfl | ⟨pid, -, rfl⟩
  · refine paced_leaves (k := 11) ?_ (by decide)
    refine Proc.spends_seq (prepare_spends _) (by decide) fun failed => ?_
    cases failed with
    | some e => trivial
    | none => exact Proc.spends_seq setPidFile_spends (by decide) fun _ => trivial
  · exact rfl

/-- A load that ends with an exception ends the process. -/
theorem paced_thrown {post : Pace → Except Int α → Prop} :
    Conforms pace post ⟨.broken, 0⟩ (Proc.fault .uncaughtException : Proc α).run :=
  ⟨⟨0, rfl, le_rfl⟩, fun r => r.elim⟩

theorem paced_daemon (config : Path) (hn : 1 + (1 + (daemonEffort + endEffort)) ≤ n) :
    Conforms pace (LeavesFor (1 + forkEffort)) ⟨.command, n⟩ (daemon config).run := by
  rw [daemon, Proc.run_make_bind]
  refine ⟨⟨1, rfl, by show 1 ≤ n; omega⟩, fun r _ => ?_⟩
  cases r with
  | thrown => exact paced_thrown
  | returned ret hasLogger =>
      have hafter : pace.after ⟨.command, n⟩ ⟨.loadConfig config, .returned ret hasLogger⟩ =
        ⟨.command, n - 1⟩ := rfl
      rw [hafter]
      dsimp only
      by_cases hret : ret ≠ 0
      · rw [if_pos hret]
        cases hasLogger with
        | true => exact paced_print (by omega) rfl rfl
        | false => exact ⟨⟨0, rfl, Nat.zero_le _⟩, fun r => r.elim⟩
      · rw [if_neg hret, Proc.conforms_bind]
        refine (paced_daemonize (by omega)).mono fun φ r hdone => ?_
        cases r with
        | error code => exact hdone
        | ok ret =>
            obtain ⟨station, left⟩ := φ
            obtain ⟨rfl, hleft⟩ : station = .command ∧ 2 + forkEffort ≤ left := hdone
            dsimp only
            by_cases hzero : ret ≠ 0
            · rw [if_pos hzero]
              exact rfl
            · rw [if_neg hzero]
              exact paced_print (by omega) rfl ⟨rfl, by show 1 + forkEffort ≤ left - 1; omega⟩

theorem paced_main (cwd : Path) (argv : List String) :
    Conforms pace Pace.Ends ⟨.command, commandEffort⟩ (main cwd argv).run := by
  rw [main, Proc.conforms_bind, ExceptT.run_lift, map_eq_pure_bind, Program.conforms_bind]
  refine (paced_spends (parseOptions_spends cwd argv ⟨defaultConfigFile, 0⟩) (by decide)).mono
    fun φ out hleft => ?_
  obtain ⟨left, rfl, hleft⟩ := hleft
  obtain ⟨ret, g⟩ := out
  have hexit : ∀ code : Int, Pace.Ends ⟨.command, left⟩ (.ok (.exit code)) := fun code => ⟨code, rfl⟩
  show Conforms pace Pace.Ends ⟨.command, left⟩ (if ret < 0 then pure (Next.exit exitFailure)
    else if 0 < ret then pure (Next.exit exitSuccess)
    else do
      daemon g.configFile
      monitorProc : Proc Next).run
  by_cases hnegative : ret < 0
  · rw [if_pos hnegative]
    exact hexit exitFailure
  by_cases hpositive : 0 < ret
  · rw [if_neg hnegative, if_pos hpositive]
    exact hexit exitSuccess
  rw [if_neg hnegative, if_neg hpositive, Proc.conforms_bind]
  have hbudget : commandEffort = orderEffort + 17 + 1 + (1 + (daemonEffort + endEffort)) := rfl
  refine (paced_daemon g.configFile (by omega)).mono fun φ r hdone => ?_
  obtain ⟨station, left⟩ := φ
  cases r with
  | error code =>
      obtain rfl : station = .command := hdone
      exact ⟨code, rfl⟩
  | ok done =>
      obtain ⟨rfl, hleft⟩ : station = .command ∧ 1 + forkEffort ≤ left := hdone
      refine ⟨⟨1, rfl, by show 1 ≤ left; omega⟩, fun r _ => ?_⟩
      exact ⟨_, rfl, .inl ⟨rfl, by show forkEffort ≤ left - 1; omega⟩⟩

/-- Every command keeps to its budget. -/
theorem paced_command (cwd : Path) (argv : List String) :
    Conforms pace Pace.Rests ⟨.command, commandEffort⟩ (main cwd argv).program := by
  refine Program.Conforms.seq (paced_main cwd argv) fun φ r hr => ?_
  cases r with
  | ok next => exact hr
  | error code => exact hr

/-! ## The loops -/

/-- A reload leaves all but the price of its three calls, or has thrown. -/
theorem paced_reloadConfig (hstation : station = .watching ∨ station = .serving) (hn : 3 ≤ n) :
    Conforms pace (fun φ r => ∃ ret left, r = .ok ret ∧ φ = ⟨station, left⟩ ∧ n - 3 ≤ left)
      ⟨station, n⟩ reloadConfig.run := by
  have hload : ∀ (path : Path) (left : Nat) (loaded : Response (.loadConfig path) → Proc Int),
      n - 2 ≤ left → loaded .thrown = Proc.fault .uncaughtException →
      (∀ ret hasLogger, loaded (.returned ret hasLogger) = pure ret) →
      Conforms pace (fun φ r => ∃ ret left, r = .ok ret ∧ φ = ⟨station, left⟩ ∧ n - 3 ≤ left)
        ⟨station, left⟩ (Proc.make (.loadConfig path) >>= loaded).run := by
    intro path left loaded hleft hthrown hreturned
    rw [Proc.run_make_bind]
    refine ⟨⟨1, ?_, by show 1 ≤ left; omega⟩, fun r _ => ?_⟩
    · rcases hstation with rfl | rfl <;> rfl
    · cases r with
      | thrown =>
          have hafter : pace.after ⟨station, left⟩ ⟨.loadConfig path, .thrown⟩ = ⟨.broken, 0⟩ := by
            rcases hstation with rfl | rfl <;> rfl
          rw [hafter]
          show Conforms pace _ _ (loaded .thrown).run
          rw [hthrown]
          exact paced_thrown
      | returned ret hasLogger =>
          show Conforms pace _ _ (loaded (.returned ret hasLogger)).run
          rw [hreturned]
          refine ⟨ret, left - 1, rfl, ?_, by omega⟩
          rcases hstation with rfl | rfl <;> rfl
  rw [reloadConfig, configLoadLine, bind_assoc, Proc.run_make_bind]
  have hopen : station.price (.fopen configLoad .r) = some 1 := by
    rcases hstation with rfl | rfl <;> rfl
  refine paced_call hopen (by omega) (fun r => ?_) fun r => ?_
  · rcases hstation with rfl | rfl <;> rfl
  · cases r with
    | error e => exact hload "" (n - 1) _ (by omega) rfl fun _ _ => rfl
    | ok file =>
        have hread : station.price (.fread file) = some 1 := by
          rcases hstation with rfl | rfl <;> rfl
        refine paced_call hread (by omega) (fun r => ?_) fun text => ?_
        · rcases hstation with rfl | rfl <;> rfl
        · exact hload _ (n - 1 - 1) _ (by omega) rfl fun _ _ => rfl

/-- A signal to the child, which a monitor that is to stop owes it. -/
theorem paced_killOrLog {post : Pace → Except Int Next → Prop} {told : Station} {pid : Int}
    {signal : Signal} {message : String} {next : Proc Next}
    (htold : station = .watching ∧ told = .watching ∨ station = .called ∧ told = .leaving)
    (hn : tellEffort + 1 ≤ n)
    (h : ∀ left, n - (tellEffort + 1) ≤ left → Conforms pace post ⟨told, left⟩ next.run) :
    Conforms pace post ⟨station, n⟩ (do killOrLog pid signal message; next : Proc Next).run := by
  have hprice : station.price (.kill pid signal) = some tellEffort := by
    rcases htold with ⟨rfl, -⟩ | ⟨rfl, -⟩ <;> rfl
  have hafter : ∀ r, pace.after ⟨station, n⟩ ⟨.kill pid signal, r⟩ = ⟨told, n - tellEffort⟩ := by
    intro r
    rcases htold with ⟨rfl, rfl⟩ | ⟨rfl, rfl⟩ <;> rfl
  rw [killOrLog, bind_assoc, Proc.run_make_bind]
  refine ⟨⟨tellEffort, hprice, by show tellEffort ≤ n; omega⟩, fun r _ => ?_⟩
  rw [hafter]
  cases r with
  | ok done => exact h (n - tellEffort) (by omega)
  | error e =>
      refine paced_print (by omega) ?_ (h (n - tellEffort - 1) (by omega))
      rcases htold with ⟨-, rfl⟩ | ⟨-, rfl⟩ <;> rfl

theorem paced_daemonExit (hn : 2 ≤ n) : Conforms pace Pace.Ends ⟨.leaving, n⟩ daemonExit.run := by
  refine paced_print (by omega) rfl ?_
  exact paced_call rfl (by omega) (fun _ => rfl) fun _ => ⟨exitSuccess, rfl⟩

theorem paced_sigchld (vars : MonitorVars) :
    Conforms pace Pace.Ends ⟨.watching, reapEffort⟩ (monitorSignal vars .sigchld).run := by
  rw [monitorSignal, Proc.run_make_bind]
  refine ⟨⟨1, rfl, by decide⟩, fun r hr => ?_⟩
  obtain ⟨status, rfl⟩ := hr
  have hafter : pace.after ⟨.watching, reapEffort⟩ ⟨.wait, .ok status.raw⟩ =
    if status.raw = (WaitStatus.exited 2).raw then ⟨.leaving, 4⟩
    else ⟨.watching, 4 + forkEffort⟩ := rfl
  rw [hafter]
  dsimp only
  by_cases hstatus : status = .exited 2
  · rw [if_pos (raw_eq_terminate.mpr hstatus), if_pos ((wexitstatus_raw status).mpr hstatus)]
    exact paced_print (by decide) rfl (paced_print (by decide) rfl (paced_daemonExit (by decide)))
  · rw [if_neg (mt raw_eq_terminate.mp hstatus), if_neg (mt (wexitstatus_raw status).mp hstatus)]
    by_cases hwork : wexitstatus status.raw = childNeedWork
    · rw [if_pos hwork]
      exact paced_print (by decide) rfl ⟨_, rfl, .inl ⟨rfl, by decide⟩⟩
    · rw [if_neg hwork]
      exact ⟨_, rfl, .inl ⟨rfl, by decide⟩⟩

theorem paced_sighup {vars : MonitorVars} (hpid : 0 < vars.pid) :
    Conforms pace Pace.Ends ⟨.watching, hangupEffort⟩ (monitorSignal vars .sighup).run := by
  rw [monitorSignal, Proc.conforms_bind]
  refine (paced_reloadConfig (.inl rfl) (by decide)).mono fun φ r hdone => ?_
  obtain ⟨ret, left, rfl, rfl, hleft⟩ := hdone
  have hbudget : 9 ≤ left := hleft
  have hend : ∀ left, 8 ≤ left → Conforms pace Pace.Ends ⟨.watching, left⟩ (do
      killOrLog vars.pid .sighup "Couldn't send SIGHUP to child process"
      return .monitor { vars with needStart := false } : Proc Next).run := by
    intro left hleft
    refine paced_killOrLog (.inl ⟨rfl, rfl⟩) hleft fun _ _ => ?_
    exact ⟨_, rfl, .inr ⟨rfl, hpid⟩⟩
  dsimp only
  split
  · exact paced_print (by omega) rfl (hend _ (by omega))
  · exact paced_print (by omega) rfl (hend _ (by omega))

theorem paced_stop (vars : MonitorVars) {signal : Signal} (hhup : signal ≠ .sighup)
    (hchld : signal ≠ .sigchld) :
    Conforms pace Pace.Ends ⟨.called, hangupEffort⟩ (monitorSignal vars signal).run := by
  have hstop : Conforms pace Pace.Ends ⟨.called, hangupEffort⟩ (do
      Proc.log "Received signal {}" [signal.name]
      killOrLog vars.pid .sigterm "Couldn't send SIGTERM to child process"
      Proc.log "Stop" []
      daemonExit : Proc Next).run := by
    refine paced_print (by decide) rfl ?_
    refine paced_killOrLog (.inr ⟨rfl, rfl⟩) (by decide) fun left hleft => ?_
    have hbudget : 3 ≤ left := hleft
    exact paced_print (by omega) rfl (paced_daemonExit (by omega))
  cases signal with
  | sigchld => exact absurd rfl hchld
  | sighup => exact absurd rfl hhup
  | _ => exact hstop

theorem paced_monitorWait {vars : MonitorVars} (hpid : 0 < vars.pid) :
    Conforms pace Pace.Ends ⟨.watching, n⟩ (monitorWait vars).run := by
  rw [monitorWait, Proc.run_make_bind]
  refine ⟨⟨0, rfl, Nat.zero_le _⟩, fun r hr => ?_⟩
  obtain ⟨signal, -, rfl⟩ := hr
  by_cases hhup : signal = .sighup
  · subst hhup
    exact paced_sighup hpid
  · by_cases hchld : signal = .sigchld
    · subst hchld
      exact paced_sigchld _
    · have hcalled : pace.after ⟨.watching, n⟩ ⟨.sigwaitinfo monitorSignals, .ok signal⟩ =
          ⟨.called, hangupEffort⟩ := by
        cases signal with
        | sigchld => exact absurd rfl hchld
        | sighup => exact absurd rfl hhup
        | _ => rfl
      rw [hcalled]
      exact paced_stop _ hhup hchld

theorem paced_masterStart :
    Conforms pace Pace.Ends ⟨.serving, startEffort⟩ masterStart.run := by
  have hexit : ∀ (code : Int) (left : Nat), Pace.Rests ⟨.serving, left⟩ (.exit code) :=
    fun code _ => .inr ⟨code, rfl⟩
  refine paced_print (by decide) rfl (paced_call rfl (by decide) (fun _ => rfl) fun r => ?_)
  cases r with
  | error e => exact paced_print (by decide) rfl (hexit childNeedWork 3)
  | ok done =>
      refine paced_call rfl (by decide) (fun _ => rfl) fun r => ?_
      cases r with
      | error e => exact paced_print (by decide) rfl (hexit childNeedTerminate 2)
      | ok done =>
          refine paced_call rfl (by decide) (fun _ => rfl) fun _ => ?_
          refine paced_call rfl (by decide) (fun _ => rfl) fun r => ?_
          cases r with
          | error e => exact paced_print (by decide) rfl (hexit childNeedTerminate 0)
          | ok done =>
              refine ⟨⟨1, rfl, by decide⟩, fun r _ => ?_⟩
              cases r with
              | thrown => exact paced_thrown
              | exited code => exact hexit code 0
              | running => exact .inl rfl

theorem paced_monitorLoop {vars : MonitorVars} (h : Pace.Rests ⟨.watching, n⟩ (.monitor vars)) :
    Conforms pace Pace.Ends ⟨.watching, n⟩ (monitorLoop vars).run := by
  have hchild : ∀ pid : Int, 0 < pid → pid ≠ -1 ∧ pid ≠ 0 := by
    intro pid hpid
    omega
  obtain ⟨vars', hvars, hrests⟩ := h
  cases hvars
  rcases hrests with ⟨hneed, hn⟩ | ⟨hneed, hpid⟩
  · rw [monitorLoop, if_pos hneed, bind_map_left, Proc.run_make_bind]
    refine ⟨⟨forkEffort, rfl, hn⟩, fun r hr => ?_⟩
    rcases hr with rfl | ⟨pid, hpid, rfl⟩
    · exact paced_masterStart
    · have hpid' : 0 < (ForkResult.parent pid).pid := Int.natCast_pos.mpr hpid
      beta_reduce
      rw [if_neg (hchild _ hpid').1, if_neg (hchild _ hpid').2]
      exact paced_monitorWait hpid'
  · rw [monitorLoop, if_neg (by simp [hneed]), pure_bind]
    beta_reduce
    rw [if_neg (hchild _ hpid).1, if_neg (hchild _ hpid).2]
    exact paced_monitorWait hpid

theorem paced_workLoop : Conforms pace Pace.Ends ⟨.serving, n⟩ workLoop.run := by
  rw [workLoop, Proc.run_make_bind]
  refine ⟨⟨0, rfl, Nat.zero_le _⟩, fun r hr => ?_⟩
  obtain ⟨signal, -, rfl⟩ := hr
  have hstop : Conforms pace Pace.Ends ⟨.stopping, 1⟩ (do
      Proc.log "Stopped" []
      return .exit childNeedTerminate : Proc Next).run :=
    paced_print (by decide) rfl rfl
  cases signal with
  | sighup =>
      have hafter : pace.after ⟨.serving, n⟩ ⟨.sigwaitinfo [.sighup, .sigterm], .ok .sighup⟩ =
        ⟨.serving, reloadEffort⟩ := rfl
      rw [hafter]
      dsimp only
      rw [Proc.conforms_bind, masterReloadConfig, Proc.conforms_bind]
      refine (paced_reloadConfig (.inr rfl) (by decide)).mono fun φ r hdone => ?_
      obtain ⟨ret, left, rfl, rfl, hleft⟩ := hdone
      have hbudget : 2 ≤ left := hleft
      refine paced_call rfl (by omega) (fun _ => rfl) fun _ => ?_
      show Conforms pace Pace.Ends ⟨.serving, left - 1⟩ (if ret ≠ 0 then (do
          Proc.log "Reload config failed: {}" [strerror]
          return .work)
        else (do
          Proc.log "Reload config OK" []
          return .work) : Proc Next).run
      split
      · exact paced_print (by omega) rfl (.inl rfl)
      · exact paced_print (by omega) rfl (.inl rfl)
  | _ => exact hstop

theorem paced_program {φ : Pace} {code : Proc Next} (h : Conforms pace Pace.Ends φ code.run) :
    Conforms pace Pace.Rests φ code.program := by
  refine Program.Conforms.seq h fun ψ r hr => ?_
  cases r with
  | ok next => exact hr
  | error code => exact hr

/-- The next piece of code keeps to the budget. -/
theorem paced_resume {φ : Pace} {next : Next} {code : Sys Next} (hrests : φ.Rests next)
    (h : next.resume = some code) : Conforms pace Pace.Rests φ code := by
  obtain ⟨station, left⟩ := φ
  cases station with
  | command | leaving =>
      obtain ⟨code, rfl⟩ := hrests
      cases h
  | watching =>
      obtain ⟨vars, rfl, hvars⟩ := hrests
      cases h
      exact paced_program (paced_monitorLoop ⟨vars, rfl, hvars⟩)
  | serving =>
      rcases hrests with rfl | ⟨code, rfl⟩
      · cases h
        exact paced_program paced_workLoop
      · cases h
  | stopping =>
      obtain rfl : next = .exit childNeedTerminate := hrests
      cases h
  | called | broken => exact absurd hrests id

/-! ## What a call can do -/

/-- A call that only takes its price. -/
structure Pace.Plain (station : Station) (e : Event) : Prop where
  fork : e ≠ ⟨.fork, .child⟩
  wait : e.1 ≠ .wait
  signal : ∀ set, e.1 ≠ .sigwaitinfo set
  mask : station = .command → ∀ set, e.1 ≠ .sigprocmask set
  tell : station = .called → ∀ pid signal, e.1 ≠ .kill pid signal
  thrown : ∀ path, e ≠ ⟨.loadConfig path, .thrown⟩

/-- The calls that the protocol allows and what they change. -/
inductive Pace.Moves : Pace → Event → Pace → Prop where
  | spend {station : Station} {n x : Nat} {e : Event} (hprice : station.price e.1 = some x)
      (hpos : 0 < x) (hx : x ≤ n) (hplain : Plain station e) : Moves ⟨station, n⟩ e ⟨station, n - x⟩
  | daemon {n : Nat} : Moves ⟨.command, n⟩ ⟨.fork, .child⟩ ⟨.command, daemonEffort⟩
  | mask {n : Nat} {set : List Signal} (hn : 1 ≤ n) (r : Unit) :
      Moves ⟨.command, n⟩ ⟨.sigprocmask set, r⟩ ⟨.watching, n - 1⟩
  | master {n : Nat} : Moves ⟨.watching, n⟩ ⟨.fork, .child⟩ ⟨.serving, startEffort⟩
  | hangup {n : Nat} {set : List Signal} :
      Moves ⟨.watching, n⟩ ⟨.sigwaitinfo set, .ok .sighup⟩ ⟨.watching, hangupEffort⟩
  | child {n : Nat} {set : List Signal} :
      Moves ⟨.watching, n⟩ ⟨.sigwaitinfo set, .ok .sigchld⟩ ⟨.watching, reapEffort⟩
  | call {n : Nat} {set : List Signal} {signal : Signal} (hhup : signal ≠ .sighup)
      (hchld : signal ≠ .sigchld) :
      Moves ⟨.watching, n⟩ ⟨.sigwaitinfo set, .ok signal⟩ ⟨.called, hangupEffort⟩
  | reapLast {n : Nat} (hn : 1 ≤ n) :
      Moves ⟨.watching, n⟩ ⟨.wait, .ok (WaitStatus.exited 2).raw⟩ ⟨.leaving, n - 1⟩
  | reap {n : Nat} {status : WaitStatus} (hn : 1 ≤ n) (hstatus : status ≠ .exited 2) :
      Moves ⟨.watching, n⟩ ⟨.wait, .ok status.raw⟩ ⟨.watching, n - 1 + forkEffort⟩
  | tell {n : Nat} {pid : Int} {signal : Signal} (hn : tellEffort ≤ n)
      (r : Response (.kill pid signal)) :
      Moves ⟨.called, n⟩ ⟨.kill pid signal, r⟩ ⟨.leaving, n - tellEffort⟩
  | reload {n : Nat} {set : List Signal} :
      Moves ⟨.serving, n⟩ ⟨.sigwaitinfo set, .ok .sighup⟩ ⟨.serving, reloadEffort⟩
  | stop {n : Nat} {set : List Signal} {signal : Signal} (hhup : signal ≠ .sighup) :
      Moves ⟨.serving, n⟩ ⟨.sigwaitinfo set, .ok signal⟩ ⟨.stopping, 1⟩
  | loadThrows {station : Station} {n : Nat} {path : Path} (hn : 1 ≤ n) :
      Moves ⟨station, n⟩ ⟨.loadConfig path, .thrown⟩ ⟨.broken, 0⟩
  | servicesThrow {station : Station} {n : Nat} (hn : 1 ≤ n) :
      Moves ⟨station, n⟩ ⟨.registerServices, .thrown⟩ ⟨.broken, 0⟩

/-- An allowed call with an expected answer is one of these. -/
theorem pace_moves {φ : Pace} {e : Event} (hallows : φ.allows e.1) (hexpected : Expected e) :
    Pace.Moves φ e (φ.after e) := by
  obtain ⟨station, n⟩ := φ
  obtain ⟨c, r⟩ := e
  obtain ⟨x, hprice, hx⟩ := hallows
  have hspend : Pace.Plain station ⟨c, r⟩ → 0 < x →
      Pace.after ⟨station, n⟩ ⟨c, r⟩ = ⟨station, n - x⟩ →
        Pace.Moves ⟨station, n⟩ ⟨c, r⟩ (Pace.after ⟨station, n⟩ ⟨c, r⟩) := by
    intro hplain hpos hafter
    rw [hafter]
    exact .spend hprice hpos hx hplain
  cases c with
  | fork =>
      rcases hexpected with rfl | ⟨pid, hpid, rfl⟩
      · cases station with
        | command => exact .daemon
        | watching => exact .master
        | _ => cases hprice
      · refine hspend ⟨nofun, nofun, nofun, nofun, nofun, nofun⟩ ?_ ?_
        all_goals cases station <;> cases hprice
        all_goals first | rfl | decide
  | sigprocmask set =>
      cases station with
      | command =>
          cases hprice
          exact .mask hx r
      | _ =>
          refine hspend ⟨nofun, nofun, nofun, nofun, nofun, nofun⟩ ?_ ?_
          all_goals cases hprice
          all_goals first | rfl | decide
  | sigwaitinfo set =>
      obtain ⟨signal, -, rfl⟩ := hexpected
      cases station with
      | watching => cases signal with
          | sighup => exact .hangup
          | sigchld => exact .child
          | _ => exact .call nofun nofun
      | serving => cases signal with
          | sighup => exact .reload
          | _ => exact .stop nofun
      | _ => cases hprice
  | wait =>
      obtain ⟨status, rfl⟩ := hexpected
      cases station with
      | watching =>
          cases hprice
          have hafter : Pace.after ⟨.watching, n⟩ ⟨.wait, .ok status.raw⟩ =
            if status.raw = (WaitStatus.exited 2).raw then ⟨.leaving, n - 1⟩
            else ⟨.watching, n - 1 + forkEffort⟩ := rfl
          rw [hafter]
          by_cases hstatus : status = .exited 2
          · rw [if_pos (raw_eq_terminate.mpr hstatus), hstatus]
            exact .reapLast hx
          · rw [if_neg (mt raw_eq_terminate.mp hstatus)]
            exact .reap hx hstatus
      | _ => cases hprice
  | kill pid signal =>
      cases station with
      | called =>
          cases hprice
          exact .tell hx r
      | _ =>
          refine hspend ⟨nofun, nofun, nofun, nofun, nofun, nofun⟩ ?_ ?_
          all_goals cases hprice
          all_goals first | rfl | decide
  | loadConfig path =>
      cases r with
      | thrown =>
          have hafter : Pace.after ⟨station, n⟩ ⟨.loadConfig path, .thrown⟩ = ⟨.broken, 0⟩ := by
            cases station <;> rfl
          rw [hafter]
          refine .loadThrows ?_
          cases station <;> cases hprice <;> exact hx
      | returned ret hasLogger =>
          refine hspend ⟨nofun, nofun, nofun, nofun, nofun, nofun⟩ ?_ ?_
          all_goals cases station <;> cases hprice
          all_goals first | rfl | decide
  | registerServices =>
      cases r with
      | thrown =>
          have hafter : Pace.after ⟨station, n⟩ ⟨.registerServices, .thrown⟩ = ⟨.broken, 0⟩ := by
            cases station <;> rfl
          rw [hafter]
          refine .servicesThrow ?_
          cases station <;> cases hprice
          exact hx
      | _ =>
          refine hspend ⟨nofun, nofun, nofun, nofun, nofun, nofun⟩ ?_ ?_
          all_goals cases station <;> cases hprice
          all_goals first | rfl | decide
  | fault reason => exact r.elim
  | _ =>
      refine hspend ⟨nofun, nofun, nofun, nofun, nofun, nofun⟩ ?_ ?_
      all_goals cases station <;> cases hprice
      all_goals first | rfl | decide

end Robotd
