import Robotd.Daemon.FailStop

/-!
# What a monitor acts on

`causation` follows a monitor from signal to signal: it reloads its configuration, signals its
child, waits for its end or leaves the loop because of the signal that it has got in this round,
and forks because of the last one. An error of `sigwaitinfo` is no signal, and yet the monitor goes
on with the one that it remembers. `acts_on_signals_iff` says that this is the only way for it to do
what nothing has told it to do.
-/

namespace Robotd

open Lib
open Lib.Program (Protocol Conforms Only)

/-- What the monitor has been told: that a master is to be forked; nothing in this round of its
loop; this signal; or `sigwaitinfo` has failed. -/
inductive Cause where
  | due
  | idle
  | got (signal : Signal)
  | failed
  deriving DecidableEq, Repr

namespace Cause

/-- At the head of the next round. -/
def round : Cause → Cause
  | due | got .sigchld => due
  | idle | got _ | failed => idle

/-- A SIGCHLD has come: the child is to be reaped. -/
def Reaps (cause : Cause) : Prop := cause = got .sigchld

/-- The configuration is to be loaded again, and the child told so. -/
def Reloads (cause : Cause) : Prop := cause = got .sighup

/-- The signal is one to stop at. -/
def Stops (cause : Cause) : Prop :=
  ∃ signal, cause = got signal ∧ signal ≠ .sigchld ∧ signal ≠ .sighup

end Cause

/-- How a round goes on after an error of `sigwaitinfo`, with what is in `siginfo`. -/
def oldSignal (vars : MonitorVars) : Proc Next := match vars.siginfo with
  | none => Proc.fault .uninitializedRead
  | some signal => monitorSignal { vars with siginfo := vars.siginfo } signal

/-- What the monitor has been told, and the value of its last `fork`. -/
structure Stand where
  cause : Cause
  child : Int
  deriving DecidableEq, Repr

namespace Stand

def after (s : Stand) : Event → Stand
  | ⟨.fork, r⟩ => ⟨.idle, r.pid⟩
  | ⟨.sigwaitinfo _, .ok signal⟩ => { s with cause := .got signal }
  | ⟨.sigwaitinfo _, .error _⟩ => { s with cause := .failed }
  | _ => s

/-- The call has its cause. -/
def accounts (s : Stand) : Call → Prop
  | .print _ _ _ | .sigprocmask _ => True
  | .fork => s.cause = .due
  | .sigwaitinfo set => s.cause = .idle ∧ set = monitorSignals
  | .wait => s.cause.Reaps
  | .fopen path mode => s.cause.Reloads ∧ path = configLoad ∧ mode = .r
  | .fread _ | .loadConfig _ => s.cause.Reloads
  | .fault reason => s.cause.Reloads ∧ reason = .uncaughtException
  | .kill pid signal => pid = s.child ∧
      (s.cause.Reloads ∧ signal = .sighup ∨ s.cause.Stops ∧ signal = .sigterm)
  | .unlink path => (s.cause.Reaps ∨ s.cause.Stops) ∧ path = pidFile
  | _ => False

/-- So has the end of a piece of the monitor: it exits on a signal, or when it cannot fork; it goes
round to fork, at first or after a SIGCHLD, or to wait again with the child that it has. -/
def Rests (s : Stand) : Next → Prop
  | .exit _ => s.cause.Reaps ∨ s.cause.Stops ∨ s.child = -1
  | .monitor vars =>
      vars.needStart = true ∧ (s.cause = .due ∨ s.cause.Reaps) ∨
      vars.needStart = false ∧ vars.pid = s.child ∧ 0 < s.child ∧
        (s.cause.Reloads ∨ s.cause = .failed)
  | .work => False

end Stand

/-- The answers to a monitor: it is the parent in each fork that succeeds, and what it gets is
among the signals it awaits. -/
def Told : Event → Prop
  | ⟨.fork, .failed _⟩ => True
  | ⟨.fork, .parent pid⟩ => 0 < pid
  | ⟨.fork, .child⟩ => False
  | ⟨.sigwaitinfo set, .ok signal⟩ => signal ∈ set
  | _ => True

instance (e : Event) : Decidable (Told e) := by
  unfold Told
  split <;> infer_instance

/-- `sigwaitinfo` fails. -/
def Fails : Event → Prop
  | ⟨.sigwaitinfo _, .error _⟩ => True
  | _ => False

instance (e : Event) : Decidable (Fails e) := by
  unfold Fails
  split <;> infer_instance

/-- The protocol of a monitor whose waits succeed. -/
abbrev causation : Protocol Call Response where
  Phase := Stand
  after := Stand.after
  allows := Stand.accounts
  expects _ e := Told e ∧ ¬Fails e

namespace Stand

/-- The same with an `exit` on the way. -/
def Ends (s : Stand) : Except Int Next → Prop
  | .ok next => s.Rests next
  | .error code => s.Rests (.exit code)

variable {s : Stand}

/-! ## The monitor keeps the protocol -/

/-- A message in front of a program. -/
theorem acts_log {α : Type} {post : Stand → α → Prop} {format : String} {args : List String}
    {next : Unit → Sys α} (h : ∀ r, Conforms causation post s (next r)) :
    Conforms causation post s (.call (.print .log format args) next) :=
  .ignored ⟨trivial, fun _ => rfl⟩ h

theorem acts_killOrLog {pid : Int} {signal : Signal} {message : String} {next : Proc Next}
    (hkill : s.accounts (.kill pid signal)) (h : Conforms causation Ends s next.run) :
    Conforms causation Ends s (do killOrLog pid signal message; next : Proc Next).run :=
  ignored_killOrLog ⟨hkill, fun _ => rfl⟩ ⟨trivial, fun _ => rfl⟩ h

theorem acts_daemonExit (h : s.cause.Reaps ∨ s.cause.Stops) :
    Conforms causation Ends s daemonExit.run := by
  refine acts_log fun _ => .ignored ⟨⟨h, rfl⟩, fun _ => rfl⟩ fun _ => ?_
  exact h.imp_right .inl

theorem acts_reloadConfig (h : s.cause.Reloads) :
    Conforms causation (fun t r => t = s ∧ ∃ ret, r = .ok ret) s reloadConfig.run := by
  refine ignored_reloadConfig fun c hc => ?_
  cases c with
  | fopen path mode => exact ⟨⟨h, hc⟩, fun _ => rfl⟩
  | fread | loadConfig => exact ⟨h, fun _ => rfl⟩
  | fault reason => exact ⟨⟨h, hc⟩, fun r => r.elim⟩
  | _ => exact absurd hc id

theorem acts_sigchld {vars : MonitorVars} (h : s.cause.Reaps) :
    Conforms causation Ends s (monitorSignal vars .sigchld).run := by
  rw [monitorSignal, Proc.run_make_bind]
  refine .ignored ⟨h, fun _ => rfl⟩ fun r => ?_
  dsimp only
  generalize wexitstatus _ = status
  have hrests : s.Rests (.monitor { vars with needStart := true, status := status }) :=
    .inl ⟨rfl, .inr h⟩
  by_cases hterminate : status = childNeedTerminate
  · rw [if_pos hterminate]
    exact acts_log fun _ => acts_log fun _ => acts_daemonExit (.inl h)
  · rw [if_neg hterminate]
    by_cases hwork : status = childNeedWork
    · rw [if_pos hwork]
      exact acts_log fun _ => hrests
    · rw [if_neg hwork]
      exact hrests

theorem acts_sighup {vars : MonitorVars} (h : s.cause.Reloads) (hpid : 0 < s.child)
    (hvars : vars.pid = s.child) : Conforms causation Ends s (monitorSignal vars .sighup).run := by
  have hend : Conforms causation Ends s (do
      killOrLog vars.pid .sighup "Couldn't send SIGHUP to child process"
      return .monitor { vars with needStart := false } : Proc Next).run :=
    acts_killOrLog ⟨hvars, .inl ⟨h, rfl⟩⟩ (.inr ⟨rfl, hvars, hpid, .inl h⟩)
  rw [monitorSignal, Proc.conforms_bind]
  refine (acts_reloadConfig h).mono fun t r hdone => ?_
  obtain ⟨rfl, ret, rfl⟩ := hdone
  dsimp only
  split
  · exact acts_log fun _ => hend
  · exact acts_log fun _ => hend

theorem acts_stop {vars : MonitorVars} {signal : Signal} (hsignal : s.cause = .got signal)
    (hchld : signal ≠ .sigchld) (hhup : signal ≠ .sighup) (hvars : vars.pid = s.child) :
    Conforms causation Ends s (monitorSignal vars signal).run := by
  have hstops : s.cause.Stops := ⟨signal, hsignal, hchld, hhup⟩
  have hstop : Conforms causation Ends s (do
      Proc.log "Received signal {}" [signal.name]
      killOrLog vars.pid .sigterm "Couldn't send SIGTERM to child process"
      Proc.log "Stop" []
      daemonExit : Proc Next).run := by
    refine acts_log fun _ => acts_killOrLog ⟨hvars, .inr ⟨hstops, rfl⟩⟩ ?_
    exact acts_log fun _ => acts_daemonExit (.inr hstops)
  cases signal with
  | sigchld => exact absurd rfl hchld
  | sighup => exact absurd rfl hhup
  | _ => exact hstop

theorem acts_monitorSignal {vars : MonitorVars} {signal : Signal} (hsignal : s.cause = .got signal)
    (hpid : 0 < s.child) (hvars : vars.pid = s.child) :
    Conforms causation Ends s (monitorSignal vars signal).run := by
  by_cases hchld : signal = .sigchld
  · subst hchld
    exact acts_sigchld hsignal
  by_cases hhup : signal = .sighup
  · subst hhup
    exact acts_sighup hsignal hpid hvars
  exact acts_stop hsignal hchld hhup hvars

theorem acts_monitorWait {vars : MonitorVars} (hidle : s.cause = .idle) (hpid : 0 < s.child)
    (hvars : vars.pid = s.child) : Conforms causation Ends s (monitorWait vars).run := by
  rw [monitorWait, Proc.run_make_bind]
  refine ⟨⟨hidle, rfl⟩, fun r hr => ?_⟩
  cases r with
  | ok signal => exact acts_monitorSignal rfl hpid hvars
  | error e => exact absurd trivial hr.2

/-- From the head of the loop. -/
theorem acts_monitorLoop {vars : MonitorVars} (h : s.Rests (.monitor vars)) :
    Conforms causation Ends { s with cause := s.cause.round } (monitorLoop vars).run := by
  rcases h with ⟨hneed, hdue⟩ | ⟨hneed, hvars, hpid, hwaits⟩
  · have hround : s.cause.round = .due := by
      rcases hdue with hdue | hdue
      · rw [hdue]
        rfl
      · rw [show s.cause = .got .sigchld from hdue]
        rfl
    rw [monitorLoop, if_pos hneed, bind_map_left, Proc.run_make_bind]
    refine ⟨hround, fun r hr => ?_⟩
    cases r with
    | failed e =>
        refine acts_log fun _ => ?_
        exact .inr (.inr rfl)
    | child => exact absurd hr.1 id
    | parent pid =>
        have hpos : 0 < pid := hr.1
        show Conforms causation Ends ⟨.idle, pid⟩ (if (pid : Int) = -1 then _ else if (pid : Int) = 0
          then masterStart else monitorWait { vars with pid := pid } : Proc Next).run
        rw [if_neg (by omega), if_neg (by omega)]
        exact acts_monitorWait rfl (by show (0 : Int) < pid; omega) rfl
  · have hround : s.cause.round = .idle := by
      rcases hwaits with hhup | hfailed
      · rw [show s.cause = .got .sighup from hhup]
        rfl
      · rw [hfailed]
        rfl
    rw [monitorLoop, if_neg (by simp [hneed]), pure_bind, hvars]
    show Conforms causation Ends { s with cause := s.cause.round } (if s.child = -1 then _
      else if s.child = 0 then masterStart else monitorWait { vars with pid := s.child } :
        Proc Next).run
    rw [if_neg (by omega), if_neg (by omega)]
    exact acts_monitorWait hround hpid rfl

theorem acts_program {code : Proc Next} (h : Conforms causation Ends s code.run) :
    Conforms causation Rests s code.program := by
  refine Program.Conforms.seq h fun t r hr => ?_
  cases r with
  | ok next => exact hr
  | error code => exact hr

/-! ## What a monitor makes of an error -/

/-- After an error of `sigwaitinfo` the monitor reads a signal number that was never written, waits
for its child, reloads, or stops, as it did after the signal before. -/
theorem not_acts_failed {vars : MonitorVars} {child : Int} (e : Errno) {next : Response
    (.sigwaitinfo monitorSignals) → Sys Next}
    (h : (monitorWait vars).program = .call (.sigwaitinfo monitorSignals) next) :
    ¬Conforms causation Rests ⟨.failed, child⟩ (next (.error e)) := by
  cases h
  intro hacts
  have hlogged := hacts.2 () ⟨trivial, id⟩
  -- The code goes on with the number in `siginfo`, whatever the error was.
  have hold : Conforms causation Rests ⟨.failed, child⟩ (oldSignal vars).program := hlogged
  rw [oldSignal] at hold
  cases hsiginfo : vars.siginfo with
  | none =>
      rw [hsiginfo] at hold
      cases hold.1.1
  | some signal =>
      rw [hsiginfo] at hold
      cases signal with
      | sigchld => cases hold.1
      | sighup => cases hold.1.1
      | _ =>
          rcases (hold.2 () ⟨trivial, id⟩).1 with ⟨-, ⟨hreload, -⟩ | ⟨⟨signal, hstop, -⟩, -⟩⟩
          · cases hreload
          · cases hstop

end Stand

/-! ## Runs -/

/-- A monitor in `monitor_proc`, and what it has been told. -/
structure Listener where
  code : Sys Next
  stand : Stand

namespace Listener

open Pair (answer resume answer_eq_some resume_eq_some)

/-- The monitor gets this answer to its call, or goes round its loop. -/
inductive Action where
  | call (e : Event)
  | round

def step (l : Listener) : Action → Option Listener
  | .call e => do
      let code ← answer l.code e
      if Told e then some ⟨code, l.stand.after e⟩ else none
  | .round => do
      let code ← resume l.code
      some ⟨code, { l.stand with cause := l.stand.cause.round }⟩

/-- A monitor at the start of `monitor_proc`, with no child. -/
def start : Listener := ⟨monitorProc.program, ⟨.due, 0⟩⟩

/-- Whatever the monitor does as long as its waits succeed has its cause. -/
def Acts (l : Listener) : Prop := Conforms causation Stand.Rests l.stand l.code

/-- What happens is not that `sigwaitinfo` fails. -/
def Sound : Action → Prop
  | .call e => ¬Fails e
  | .round => True

instance (a : Action) : Decidable (Sound a) := by
  unfold Sound
  split <;> infer_instance

/-- Where the monitor is: it is about to fork, it waits for a signal, or it handles one. -/
inductive Place : Sys Next → Prop where
  | forks (vars : MonitorVars) (hneed : vars.needStart = true) : Place (monitorLoop vars).program
  | waits (vars : MonitorVars) : Place (monitorWait vars).program
  | handles {code : Sys Next} (h : Only Call.Between code) : Place code

variable {l l' : Listener}

theorem acts_start : start.Acts := by
  refine Stand.acts_program ?_
  rw [monitorProc, Proc.run_make_bind]
  exact .ignored ⟨trivial, fun _ => rfl⟩ fun _ => .inl ⟨rfl, .inl rfl⟩

theorem place_program {code : Proc Next} (h : Only Call.Between code.run) : Place code.program := by
  refine .handles (h.bind fun r => ?_)
  cases r <;> trivial

/-- A message in front of code that handles a signal. -/
theorem place_log {format : String} {args : List String} {next : Proc Next}
    (h : Only Call.Between next.run) : Place (do Proc.log format args; next : Proc Next).program :=
  place_program (only_seq (only_make ⟨nofun, nofun⟩) fun _ => h)

theorem place_start : Place start.code :=
  place_program (only_seq (only_make ⟨nofun, nofun⟩) fun _ => trivial)

/-- What follows an answer of `sigwaitinfo`. -/
theorem place_monitorWait {vars : MonitorVars} {c : Call} {next : Response c → Sys Next}
    (h : (monitorWait vars).program = .call c next) (r : Response c) : Place (next r) := by
  cases h
  cases r with
  | ok signal => exact place_program (between_monitorSignal signal)
  | error e =>
      show Place (do
        Proc.log "sigwaitinfo error occured ({})" [strerror]
        oldSignal vars : Proc Next).program
      refine place_log ?_
      rw [oldSignal]
      cases vars.siginfo with
      | none => exact (Program.only_call _ _).mpr ⟨⟨by simp, by simp⟩, fun r => r.elim⟩
      | some signal => exact between_monitorSignal signal

/-- What follows an answer of `fork`. -/
theorem place_monitorLoop {vars : MonitorVars} (hneed : vars.needStart = true) {c : Call}
    {next : Response c → Sys Next} (h : (monitorLoop vars).program = .call c next) {r : Response c}
    (htold : Told ⟨c, r⟩) : Place (next r) := by
  rw [monitorLoop, if_pos hneed] at h
  cases h
  cases r with
  | failed e =>
      have hexit : Only Call.Between (Proc.exit exitFailure : Proc Next).run := trivial
      exact place_log hexit
  | child => exact absurd htold id
  | parent pid =>
      have hpos : 0 < pid := htold
      show Place (if (pid : Int) = -1 then (do
          Proc.log "Fork failed ({})" [strerror]
          Proc.exit exitFailure)
        else if (pid : Int) = 0 then masterStart
        else monitorWait { vars with pid := pid } : Proc Next).program
      rw [if_neg (by omega), if_neg (by omega)]
      exact .waits _

/-- A monitor that has its child waits at once. -/
theorem monitorLoop_waits {vars : MonitorVars} (hneed : vars.needStart = false) (hpid : 0 < vars.pid) :
    monitorLoop vars = monitorWait vars := by
  rw [monitorLoop, if_neg (by simp [hneed]), pure_bind]
  beta_reduce
  rw [if_neg (by omega), if_neg (by omega)]

theorem call_step {e : Event} (h : l.step (.call e) = some l') :
    ∃ next : Response e.1 → Sys Next, l.code = .call e.1 next ∧ Told e ∧
      l' = ⟨next e.2, l.stand.after e⟩ := by
  obtain ⟨code, hanswer, hrest⟩ := Option.bind_eq_some_iff.mp h
  obtain ⟨next, hcode, rfl⟩ := answer_eq_some hanswer
  split_ifs at hrest with htold
  exact ⟨next, hcode, htold, (Option.some.inj hrest).symm⟩

theorem round_step (h : l.step .round = some l') : ∃ next code, l.code = .ret next ∧
    next.resume = some code ∧ l' = ⟨code, { l.stand with cause := l.stand.cause.round }⟩ := by
  obtain ⟨code, hresume, hl'⟩ := Option.bind_eq_some_iff.mp h
  obtain ⟨next, hcode, hnext⟩ := resume_eq_some hresume
  exact ⟨next, code, hcode, hnext, (Option.some.inj hl').symm⟩

theorem place_step {a : Action} (hplace : Place l.code) (hacts : l.Acts)
    (hstep : l.step a = some l') : Place l'.code := by
  obtain ⟨code, stand⟩ := l
  cases a with
  | call e =>
      obtain ⟨next, rfl, htold, rfl⟩ := call_step hstep
      generalize hcode : Program.call e.1 next = code at hplace
      cases hplace with
      | forks vars hneed => exact place_monitorLoop hneed hcode.symm htold
      | waits vars => exact place_monitorWait hcode.symm e.2
      | handles h =>
          subst hcode
          exact .handles (((Program.only_call _ _).mp h).2 e.2)
  | round =>
      obtain ⟨next, code, rfl, hnext, rfl⟩ := round_step hstep
      cases next with
      | exit code => cases hnext
      | work => exact absurd hacts id
      | monitor vars =>
          cases hnext
          rcases hacts with ⟨hneed, -⟩ | ⟨hneed, hvars, hpid, -⟩
          · exact .forks vars hneed
          · rw [monitorLoop_waits hneed (hvars ▸ hpid)]
            exact .waits vars

/-- A monitor whose acts have their causes goes on so unless `sigwaitinfo` fails. -/
theorem acts_step_iff {a : Action} (hplace : Place l.code) (hacts : l.Acts)
    (hstep : l.step a = some l') : l'.Acts ↔ Sound a := by
  obtain ⟨code, stand⟩ := l
  cases a with
  | call e =>
      obtain ⟨next, rfl, htold, rfl⟩ := call_step hstep
      refine ⟨fun h hfails => ?_, fun hsound => hacts.2 e.2 ⟨htold, hsound⟩⟩
      obtain ⟨c, r⟩ := e
      cases c with
      | sigwaitinfo set => cases r with
          | ok signal => exact hfails
          | error e =>
              -- the monitor acts on the signal before, which has been acted on already
              obtain rfl : set = monitorSignals := hacts.1.2
              generalize hcode : Program.call (Call.sigwaitinfo monitorSignals) next = code at hplace
              cases hplace with
              | forks vars hneed =>
                  rw [monitorLoop, if_pos hneed] at hcode
                  cases hcode
              | waits vars => exact Stand.not_acts_failed e hcode.symm h
              | handles hbetween =>
                  subst hcode
                  -- no `sigwaitinfo` is made while a signal is handled
                  exact ((Program.only_call _ _).mp hbetween).1.2 monitorSignals rfl
      | _ => exact hfails
  | round =>
      refine iff_of_true ?_ trivial
      obtain ⟨next, code, rfl, hnext, rfl⟩ := round_step hstep
      cases next with
      | exit code => cases hnext
      | work => exact absurd hacts id
      | monitor vars =>
          cases hnext
          exact Stand.acts_program (Stand.acts_monitorLoop hacts)

/-- All that the monitor does in a run has its cause exactly when no `sigwaitinfo` of the run
fails. -/
theorem acts_on_signals_iff (actions : List Action) : Machine.Always step Acts start actions ↔
    Machine.Along step (fun l a => (l.step a).isSome = true → Sound a) start actions := by
  refine Machine.always_iff_along (I := fun l => Place l.code) ?_ ?_ place_start acts_start
  · exact fun l a l' hplace hacts hstep _ => place_step hplace hacts hstep
  · exact fun l a l' hplace hacts hstep => acts_step_iff hplace hacts hstep

/-- A monitor that has got a SIGHUP, loaded its configuration, and sent the SIGHUP on; its next
wait is interrupted. -/
def interrupted : List Action := [
  .call ⟨.sigprocmask monitorSignals, ()⟩,
  .round,
  .call ⟨.fork, .parent 4322⟩,
  .call ⟨.sigwaitinfo monitorSignals, .ok .sighup⟩,
  .call ⟨.fopen configLoad .r, .error .enoent⟩,
  .call ⟨.loadConfig "", .returned (-1) true⟩,
  .call ⟨.print .log "Reload config failed: {}" [strerror], ()⟩,
  .call ⟨.kill 4322 .sighup, .ok ()⟩,
  .round,
  .call ⟨.sigwaitinfo monitorSignals, .error ⟨4, by decide⟩⟩]

/-- It reloads once more. -/
theorem interrupted_reloads : ¬ ∀ actions, Machine.Always step Acts start actions := by
  intro hall
  have halong := (Machine.always_iff_along (I := fun l => Place l.code)
    (fun l a l' hplace hacts hstep _ => place_step hplace hacts hstep)
    (fun l a l' hplace hacts hstep => acts_step_iff hplace hacts hstep)
    place_start acts_start).mp (hall interrupted)
  revert halong
  decide +kernel

end Listener

end Robotd
