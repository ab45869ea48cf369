import Robotd.Cli.Signals
import Robotd.Daemon.Duty

/-!
# How a monitor reloads

`vigil` follows a process of `monitor_proc` or `work_proc` from a SIGHUP over the opening and
reading of `CONFIG_LOAD` to the load of the path in its first line. `main` keeps it
(`vigilant_main`), and so do the loops round after round (`vigilant_resume`). So in the loops no
load comes but after a SIGHUP, and of nothing but the line that was read.
-/

namespace Robotd

open Lib Lib.CLib
open Lib.Program (Protocol Conforms Only)

/-- Where a process stands with a reload: it has not come to `monitor_proc`, it has no reload to
make, it has got a SIGHUP, it has opened `CONFIG_LOAD`, it has read this text. -/
inductive Vigil where
  | outside
  | idle
  | hung
  | opened (file : Handle)
  | read (text : List Char)
  deriving DecidableEq, Repr

/-- The calls that neither wait for a signal nor load. -/
def Call.idles : Call → Bool
  | .sigwaitinfo _ | .loadConfig _ => false
  | _ => true

namespace Vigil

def after : Vigil → Event → Vigil
  | outside, ⟨.sigprocmask _, _⟩ => idle
  | idle, ⟨.sigwaitinfo _, .ok .sighup⟩ => hung
  | hung, ⟨.fopen _ _, .ok file⟩ => opened file
  | hung, ⟨.fopen _ _, .error _⟩ => read []
  | opened _, ⟨.fread _, text⟩ => read text
  | read _, ⟨.loadConfig _, _⟩ => idle
  | v, _ => v

def allows : Vigil → Call → Prop
  | outside, _ => True
  | idle, c => ∀ path, c ≠ .loadConfig path
  | hung, c => c = .fopen configLoad .r
  | opened file, c => c = .fread file
  | read text, c => c = .loadConfig (String.ofList (getLine text)) ∨ ∃ reason, c = .fault reason

/-- Where a piece of code may end. -/
def Rests : Vigil → Next → Prop
  | outside, next => ∃ code, next = .exit code
  | v, _ => v = idle

/-- The same with an `exit` on the way. -/
def Ends (v : Vigil) : Except Int Next → Prop
  | .ok next => v.Rests next
  | .error code => v.Rests (.exit code)

end Vigil

/-- The protocol of a reload. -/
abbrev vigil : Protocol Call Response where
  Phase := Vigil
  after := Vigil.after
  allows := Vigil.allows
  expects _ := Expected

variable {α : Type} {post : Vigil → α → Prop}

/-- A call in front of code that has no reload to make. -/
theorem vigilant_idle {c : Call} {next : Response c → Sys α} (hc : c.idles = true)
    (h : ∀ r, Expected ⟨c, r⟩ → Conforms vigil post .idle (next r)) :
    Conforms vigil post .idle (.call c next) := by
  refine ⟨fun path => ?_, fun r hr => ?_⟩
  · rintro rfl
    cases hc
  · have hsame : vigil.after .idle ⟨c, r⟩ = .idle := by
      cases c with
      | sigwaitinfo => cases hc
      | _ => rfl
    rw [hsame]
    exact h r hr

/-- A reload ends where it has begun. -/
theorem vigilant_reloadConfig :
    Conforms vigil (fun v r => v = .idle ∧ ∃ ret, r = .ok ret) .hung reloadConfig.run := by
  rw [reloadConfig, configLoadLine, bind_assoc, Proc.run_make_bind]
  refine ⟨rfl, fun r _ => ?_⟩
  cases r with
  | ok file =>
      refine ⟨rfl, fun text _ => ⟨.inl rfl, fun r _ => ?_⟩⟩
      cases r with
      | returned ret hasLogger => exact ⟨rfl, ret, rfl⟩
      | thrown => exact vigilant_idle rfl fun r => r.elim
  | error e =>
      refine ⟨.inl rfl, fun r _ => ?_⟩
      cases r with
      | returned ret hasLogger => exact ⟨rfl, ret, rfl⟩
      | thrown => exact vigilant_idle rfl fun r => r.elim

/-- Nothing is left to be reloaded. -/
def AtRest (v : Vigil) (_ : Except Int Next) : Prop := v = .idle

theorem vigilant_killOrLog {pid : Int} {signal : Signal} {message : String} {next : Proc Next}
    (h : Conforms vigil AtRest .idle next.run) :
    Conforms vigil AtRest .idle (do killOrLog pid signal message; next : Proc Next).run :=
  ignored_killOrLog ⟨nofun, fun _ => rfl⟩ ⟨nofun, fun _ => rfl⟩ h

theorem vigilant_daemonExit : Conforms vigil AtRest .idle daemonExit.run :=
  vigilant_idle rfl fun _ _ => vigilant_idle rfl fun _ _ => rfl

theorem vigilant_sigchld (vars : MonitorVars) :
    Conforms vigil AtRest .idle (monitorSignal vars .sigchld).run := by
  rw [monitorSignal, Proc.run_make_bind]
  refine vigilant_idle rfl fun r hr => ?_
  obtain ⟨status, rfl⟩ := hr
  dsimp only
  by_cases hterminate : wexitstatus status.raw = childNeedTerminate
  · rw [if_pos hterminate]
    exact vigilant_idle rfl fun _ _ => vigilant_idle rfl fun _ _ => vigilant_daemonExit
  · rw [if_neg hterminate]
    by_cases hwork : wexitstatus status.raw = childNeedWork
    · rw [if_pos hwork]
      exact vigilant_idle rfl fun _ _ => rfl
    · rw [if_neg hwork]
      exact rfl

/-- After the reload the monitor is as before. -/
theorem vigilant_sighup (vars : MonitorVars) :
    Conforms vigil AtRest .hung (monitorSignal vars .sighup).run := by
  rw [monitorSignal, Proc.conforms_bind]
  refine vigilant_reloadConfig.mono fun v r hdone => ?_
  obtain ⟨rfl, ret, rfl⟩ := hdone
  have hend : Conforms vigil AtRest .idle (do
      killOrLog vars.pid .sighup "Couldn't send SIGHUP to child process"
      return .monitor { vars with needStart := false } : Proc Next).run :=
    vigilant_killOrLog rfl
  dsimp only
  split
  · exact vigilant_idle rfl fun _ _ => hend
  · exact vigilant_idle rfl fun _ _ => hend

theorem vigilant_stop (vars : MonitorVars) {signal : Signal} (hhup : signal ≠ .sighup)
    (hchld : signal ≠ .sigchld) : Conforms vigil AtRest .idle (monitorSignal vars signal).run := by
  have hstop : Conforms vigil AtRest .idle (do
      Proc.log "Received signal {}" [signal.name]
      killOrLog vars.pid .sigterm "Couldn't send SIGTERM to child process"
      Proc.log "Stop" []
      daemonExit : Proc Next).run := by
    refine vigilant_idle rfl fun _ _ => vigilant_killOrLog ?_
    exact vigilant_idle rfl fun _ _ => vigilant_daemonExit
  cases signal with
  | sigchld => exact absurd rfl hchld
  | sighup => exact absurd rfl hhup
  | _ => exact hstop

theorem vigilant_monitorWait (vars : MonitorVars) :
    Conforms vigil AtRest .idle (monitorWait vars).run := by
  have hallowed : Vigil.idle.allows (.sigwaitinfo monitorSignals) := fun path => by simp
  rw [monitorWait, Proc.run_make_bind]
  refine ⟨hallowed, fun r hr => ?_⟩
  obtain ⟨signal, -, rfl⟩ := hr
  by_cases hhup : signal = .sighup
  · subst hhup
    exact vigilant_sighup _
  · have hsame : vigil.after .idle ⟨.sigwaitinfo monitorSignals, .ok signal⟩ = .idle := by
      cases signal with
      | sighup => exact absurd rfl hhup
      | _ => rfl
    rw [hsame]
    by_cases hchld : signal = .sigchld
    · subst hchld
      exact vigilant_sigchld _
    · exact vigilant_stop _ hhup hchld

/-- A master has nothing to reload before its loop. -/
theorem vigilant_masterStart : Conforms vigil AtRest .idle masterStart.run := by
  refine vigilant_idle rfl fun _ _ => vigilant_idle rfl fun r _ => ?_
  cases r with
  | error e => exact vigilant_idle rfl fun _ _ => rfl
  | ok done =>
      refine vigilant_idle rfl fun r _ => ?_
      cases r with
      | error e => exact vigilant_idle rfl fun _ _ => rfl
      | ok done =>
          refine vigilant_idle rfl fun _ _ => vigilant_idle rfl fun r _ => ?_
          cases r with
          | error e => exact vigilant_idle rfl fun _ _ => rfl
          | ok done =>
              refine vigilant_idle rfl fun r _ => ?_
              cases r with
              | thrown => exact vigilant_idle rfl fun r => r.elim
              | exited code => exact rfl
              | running => exact rfl

theorem vigilant_monitorLoop (vars : MonitorVars) :
    Conforms vigil AtRest .idle (monitorLoop vars).run := by
  have hrest : ∀ pid : Int, Conforms vigil AtRest .idle (if pid = -1 then (do
        Proc.log "Fork failed ({})" [strerror]
        Proc.exit exitFailure)
      else if pid = 0 then masterStart
      else monitorWait { vars with pid := pid } : Proc Next).run := by
    intro pid
    rw [Proc.run_ite, Proc.run_ite]
    split
    · exact vigilant_idle rfl fun _ _ => rfl
    · split
      · exact vigilant_masterStart
      · exact vigilant_monitorWait _
  by_cases hneed : vars.needStart = true
  · rw [monitorLoop, if_pos hneed, bind_map_left, Proc.run_make_bind]
    exact vigilant_idle rfl fun r _ => hrest r.pid
  · rw [monitorLoop, if_neg hneed, pure_bind]
    exact hrest vars.pid

theorem vigilant_workLoop : Conforms vigil AtRest .idle workLoop.run := by
  have hallowed : Vigil.idle.allows (.sigwaitinfo [.sighup, .sigterm]) := fun path => by simp
  rw [workLoop, Proc.run_make_bind]
  refine ⟨hallowed, fun r hr => ?_⟩
  obtain ⟨signal, -, rfl⟩ := hr
  have hstop : Conforms vigil AtRest .idle (do
      Proc.log "Stopped" []
      return .exit childNeedTerminate : Proc Next).run :=
    vigilant_idle rfl fun _ _ => rfl
  cases signal with
  | sighup =>
      have hhung : vigil.after .idle ⟨.sigwaitinfo [.sighup, .sigterm], .ok .sighup⟩ = .hung := rfl
      rw [hhung]
      dsimp only
      rw [Proc.conforms_bind, masterReloadConfig, Proc.conforms_bind]
      refine vigilant_reloadConfig.mono fun v r hdone => ?_
      obtain ⟨rfl, ret, rfl⟩ := hdone
      refine vigilant_idle rfl fun _ _ => ?_
      show Conforms vigil AtRest .idle (if ret ≠ 0 then (do
          Proc.log "Reload config failed: {}" [strerror]
          return .work)
        else (do
          Proc.log "Reload config OK" []
          return .work) : Proc Next).run
      split
      · exact vigilant_idle rfl fun _ _ => rfl
      · exact vigilant_idle rfl fun _ _ => rfl
  | _ => exact hstop

theorem vigilant_program {code : Proc Next} (h : Conforms vigil AtRest .idle code.run) :
    Conforms vigil Vigil.Rests .idle code.program := by
  refine Program.Conforms.seq h fun v r hr => ?_
  obtain rfl : v = .idle := hr
  cases r with
  | ok next => exact rfl
  | error code => exact rfl

/-- A process that goes on has no reload to make. -/
theorem idle_of_resume {v : Vigil} {next : Next} {code : Sys Next} (hrests : v.Rests next)
    (h : next.resume = some code) : v = .idle := by
  cases v with
  | outside =>
      obtain ⟨code, rfl⟩ := hrests
      cases h
  | _ => exact hrests

/-- The next piece of code keeps the protocol like the one before. -/
theorem vigilant_resume {v : Vigil} {next : Next} {code : Sys Next} (hrests : v.Rests next)
    (h : next.resume = some code) : Conforms vigil Vigil.Rests v code := by
  obtain rfl := idle_of_resume hrests h
  cases next with
  | exit code => cases h
  | monitor vars =>
      cases h
      exact vigilant_program (vigilant_monitorLoop vars)
  | work =>
      cases h
      exact vigilant_program vigilant_workLoop

/-! ## Before the loops -/

/-- A program that leaves the signal mask alone stays outside. -/
theorem vigilant_of_unmasked {p : Sys α} (h : Only Unmasked p) :
    Conforms vigil (fun v _ => v = .outside) .outside p := by
  induction p with
  | ret a => rfl
  | call c next ih =>
      obtain ⟨hc, hnext⟩ := (Program.only_call c next).mp h
      refine ⟨trivial, fun r _ => ?_⟩
      have hsame : vigil.after .outside ⟨c, r⟩ = .outside := by
        cases c with
        | sigprocmask set => exact absurd rfl (hc set)
        | _ => rfl
      rw [hsame]
      exact ih r (hnext r)

theorem createPidFile_unmasked : Only Unmasked createPidFile.run := by
  refine only_seq (only_make nofun) fun r => ?_
  cases r with
  | ok f => exact only_seq (only_make nofun) fun _ => only_make nofun
  | error e => exact only_seq (only_make nofun) fun _ => trivial

theorem setPidFile_unmasked : Only Unmasked setPidFile.run := by
  refine only_seq (only_make nofun) fun r => ?_
  cases r with
  | ok f => exact only_seq (only_make nofun) fun _ => createPidFile_unmasked
  | error e => exact createPidFile_unmasked

theorem prepare_unmasked (steps : List (Setup × String)) : Only Unmasked (prepare steps).run := by
  induction steps with
  | nil => trivial
  | cons first rest ih =>
      refine only_seq (only_make nofun) fun r => ?_
      cases r with
      | ok done => exact ih
      | error e => exact only_seq (only_make nofun) fun _ => trivial

theorem daemonize_unmasked : Only Unmasked daemonize.run := by
  refine only_seq (only_make nofun) fun r => ?_
  cases r with
  | failed e => exact only_seq (only_make nofun) fun _ => trivial
  | child =>
      refine only_seq (prepare_unmasked _) fun failed => ?_
      cases failed with
      | some e => trivial
      | none => exact only_seq setPidFile_unmasked fun _ => trivial
  | parent pid => trivial

theorem daemon_unmasked (config : Path) : Only Unmasked (daemon config).run := by
  refine only_seq (only_make nofun) fun r => ?_
  cases r with
  | thrown => exact (Program.only_call _ _).mpr ⟨nofun, fun r => r.elim⟩
  | returned ret hasLogger =>
      dsimp only
      by_cases hret : ret ≠ 0
      · rw [if_pos hret]
        cases hasLogger with
        | true => exact only_seq (only_make nofun) fun _ => trivial
        | false => exact (Program.only_call _ _).mpr ⟨nofun, fun r => r.elim⟩
      · rw [if_neg hret]
        refine only_seq daemonize_unmasked fun done => ?_
        by_cases hdone : done ≠ 0
        · rw [if_pos hdone]
          trivial
        · rw [if_neg hdone]
          exact only_make nofun

/-- Every command comes to the loop of the monitor by its `sigprocmask`. -/
theorem vigilant_main (cwd : Path) (argv : List String) :
    Conforms vigil Vigil.Rests .outside (main cwd argv).program := by
  have hexit : ∀ code : Int, Vigil.outside.Rests (.exit code) := fun code => ⟨code, rfl⟩
  have hmain : Conforms vigil Vigil.Ends .outside (main cwd argv).run := by
    rw [main, Proc.conforms_bind, ExceptT.run_lift, map_eq_pure_bind, Program.conforms_bind]
    have hparse := vigilant_of_unmasked (parseOptions_unmasked cwd argv ⟨defaultConfigFile, 0⟩)
    refine Program.Conforms.mono hparse fun v out hout => ?_
    obtain ⟨ret, g⟩ := out
    obtain rfl : v = .outside := hout
    show Conforms vigil _ .outside (if ret < 0 then pure (Next.exit exitFailure)
      else if 0 < ret then pure (Next.exit exitSuccess)
      else do
        daemon g.configFile
        monitorProc : Proc Next).run
    by_cases hnegative : ret < 0
    · rw [if_pos hnegative]
      exact hexit exitFailure
    by_cases hpositive : 0 < ret
    · rw [if_neg hnegative, if_pos hpositive]
      exact hexit exitSuccess
    rw [if_neg hnegative, if_neg hpositive, Proc.conforms_bind]
    -- the `sigprocmask` of `monitor_proc` is the first one
    refine (vigilant_of_unmasked (daemon_unmasked g.configFile)).mono fun v r hout => ?_
    obtain rfl : v = .outside := hout
    cases r with
    | ok done => exact ⟨trivial, fun _ _ => rfl⟩
    | error code => exact hexit code
  refine Program.Conforms.seq hmain fun v r hr => ?_
  cases r with
  | ok next => exact hr
  | error code => exact hr

end Robotd
