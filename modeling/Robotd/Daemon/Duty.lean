import Robotd.Daemon.Backtrace
import Robotd.Daemon.Protocol

/-!
# The exit codes of a master

The ends of a master that `monitor_proc` can tell apart by the exit code: the code that
`work_proc` returns, the code of `exit` in the constructors of `master` and of `tcp_server`, and
the one of the signal handler `self_debug`. `Duty` follows a master to its exit code, and
`partings_program` and `partings_resume` say that the code keeps to it, from the fork on. The flag
`debug` is the macro `DEBUG` of the build.
-/

namespace Robotd

open Lib Lib.CLib
open Lib.Program (Protocol Conforms Only)

/-- The end of a process that gives up: in the hope that it was a coincidence, a build without
`DEBUG` asks for another master. -/
def giveUp (debug : Bool) : Int := if debug then childNeedTerminate else childNeedWork

/-! ## The constructor of `tcp_server` -/

/-- The steps that may fail while the services are registered and run. -/
inductive Opening where
  | resolve
  | openAcceptor
  | reuseAddress
  | bind
  | listen
  | createThread
  deriving DecidableEq, Repr

/-- `register_all_services` and `run_all_services` for `tcp_server`, where these steps would fail.
The acceptor is opened and bound with an error code, the other steps throw. -/
def registerServices (debug : Bool) (failing : List Opening) : ServiceOutcome :=
  if .resolve ∈ failing then
    .thrown
  else if .openAcceptor ∈ failing then
    .exited (giveUp debug)
  else if .reuseAddress ∈ failing then
    .thrown
  else if .bind ∈ failing then
    .exited (giveUp debug)
  else if .listen ∈ failing then
    .thrown
  else if .createThread ∈ failing then
    .thrown
  else
    .running

/-- No step throws that is come to. -/
def Catches (failing : List Opening) : Prop :=
  .resolve ∉ failing ∧ (.openAcceptor ∈ failing ∨ .reuseAddress ∉ failing ∧
    (.bind ∈ failing ∨ .listen ∉ failing ∧ .createThread ∉ failing))

instance (failing : List Opening) : Decidable (Catches failing) :=
  inferInstanceAs (Decidable (_ ∧ _))

theorem registerServices_thrown_iff {debug : Bool} {failing : List Opening} :
    registerServices debug failing = .thrown ↔ ¬Catches failing := by
  unfold registerServices Catches
  split_ifs <;> simp_all

theorem registerServices_exited {debug : Bool} {failing : List Opening} {code : Int}
    (h : registerServices debug failing = .exited code) : code = giveUp debug := by
  unfold registerServices at h
  split_ifs at h <;> cases h <;> rfl

/-! ## The signal handler -/

/-- The signals that `work_proc` sets the handler for. -/
inductive ErrorSignal where
  | sigfpe
  | sigill
  | sigsegv
  | sigbus
  deriving DecidableEq, Repr

def ErrorSignal.name : ErrorSignal → String
  | sigfpe => "Floating point exception"
  | sigill => "Illegal instruction"
  | sigsegv => "Segmentation fault"
  | sigbus => "Bus error"

def ErrorSignal.number : ErrorSignal → Fin 127
  | sigfpe => 8
  | sigill => 4
  | sigsegv => 11
  | sigbus => 7

/-- A line of `backtrace_symbols`: the file, the function and the offset in it where they are
known, and the address. -/
structure Frame where
  file : String
  symbol : Option (String × String)
  address : String
  deriving DecidableEq, Repr

def Frame.line (frame : Frame) : String := match frame.symbol with
  | some (function, offset) =>
      frame.file ++ "(" ++ function ++ "+" ++ offset ++ ") [" ++ frame.address ++ "]"
  | none => frame.file ++ "() [" ++ frame.address ++ "]"

/-- What the handler finds: the address of the fault, at most 16 frames with the symbols unless
there is no memory for them, and the names that can be demangled. -/
structure Crash where
  address : String
  trace : List Frame
  symbols : Bool
  demangle : String → Option String

/-- The message for a frame, from its line. -/
def Crash.print (crash : Crash) (frame : Frame) : Option String :=
  (printLine (fun name => (crash.demangle (String.ofList name)).map String.toList)
    frame.line.toList).map String.ofList

/-- The messages for these frames. -/
def logFrames (crash : Crash) : List Frame → Proc Unit
  | [] => pure ()
  | frame :: rest => do
    match crash.print frame with
    | some text => Proc.log "{}" [text]
    | none => Proc.fault .nullPointer
    logFrames crash rest

/-- `self_debug`. The first frame is its own. -/
def selfDebug (debug : Bool) (signal : ErrorSignal) (crash : Crash) : Proc Next := do
  Proc.log "Signal: {}, Addr: 0x{}" [signal.name, crash.address]
  if crash.trace.length = 0 then
    Proc.log "backtrace error" []
    Proc.exit childNeedWork
  else
    if crash.symbols then
      Proc.log "== Backtrace ==" []
      logFrames crash crash.trace.tail
      Proc.log "== End Backtrace ==" []
    Proc.log "Stopped" []
    Proc.exit (giveUp debug)

/-! ## The protocol -/

/-- Where a master stands: at work, or with its exit code decided. -/
inductive Duty where
  | working
  | decided (code : Int)
  deriving DecidableEq, Repr

def Duty.after (duty : Duty) : Event → Duty
  | ⟨.setup .rlimitStack, .error _⟩ => decided childNeedWork
  | ⟨.setup .signalHandlers, .error _⟩ => decided childNeedTerminate
  | ⟨.setup .rlimitNofile, .error _⟩ => decided childNeedTerminate
  | ⟨.registerServices, .exited code⟩ => decided code
  | ⟨.sigwaitinfo _, .ok .sigterm⟩ => decided childNeedTerminate
  | _ => duty

/-- A process is the monitor, the monitor after a fork has failed, or a master. -/
inductive Part where
  | monitor
  | quitting
  | master (duty : Duty)
  deriving DecidableEq, Repr

def Part.after : Part → Event → Part
  | monitor, ⟨.fork, .child⟩ => master .working
  | monitor, ⟨.fork, .failed _⟩ => quitting
  | master duty, e => master (duty.after e)
  | part, _ => part

/-- The protocol of the fork and of the master's exit code. A monitor that could not fork only
writes messages. -/
abbrev partings : Protocol Call Response where
  Phase := Part
  after := Part.after
  allows part c := part = .quitting → ∃ stream format args, c = .print stream format args
  expects _
    | ⟨.sigwaitinfo set, r⟩ => ∃ signal ∈ set, r = .ok signal
    | _ => True

/-- Where a piece of code may end. -/
def Part.Rests : Part → Next → Prop
  | monitor, _ => True
  | quitting, next => ∃ code, next = .exit code
  | master duty, next => next = .work ∧ duty = .working ∨ ∃ code, next = .exit code ∧ duty = .decided code

/-- The same with an `exit` on the way. -/
def Part.Ends (part : Part) : Except Int Next → Prop
  | .ok next => part.Rests next
  | .error code => part.Rests (.exit code)

/-! ## The code -/

/-- A program that does not fork leaves the monitor what it is. -/
theorem conforms_of_only {α : Type} {p : Sys α} (h : Only (· ≠ .fork) p) :
    Conforms partings (fun part _ => part = .monitor) .monitor p := by
  induction p with
  | ret a => rfl
  | call c next ih =>
      obtain ⟨hc, hnext⟩ := (Program.only_call c next).mp h
      refine ⟨nofun, fun r _ => ?_⟩
      have hafter : partings.after .monitor ⟨c, r⟩ = .monitor := by
        cases c with
        | fork => exact absurd rfl hc
        | _ => rfl
      rw [hafter]
      exact ih r (hnext r)

/-- The calls of a master that decide nothing. -/
def Call.idle : Call → Bool
  | .fopen _ _ | .fread _ | .print _ _ _ | .fault _ | .sigprocmask _ | .loadConfig _ => true
  | .updateLoggers => true
  | _ => false

theorem conforms_idle {α : Type} {c : Call} {next : Response c → Sys α} {duty : Duty}
    {post : Part → α → Prop} (hc : c.idle = true)
    (hnext : ∀ r, Conforms partings post (.master duty) (next r)) :
    Conforms partings post (.master duty) (.call c next) := by
  refine ⟨nofun, fun r _ => ?_⟩
  have hafter : partings.after (.master duty) ⟨c, r⟩ = .master duty := by
    cases c with
    | fopen | fread | print | fault | sigprocmask | loadConfig | updateLoggers => rfl
    | _ => cases hc
  rw [hafter]
  exact hnext r

/-- The start of a master. -/
theorem partings_masterStart : Conforms partings Part.Ends (.master .working) masterStart.run := by
  have hends : ∀ code, Conforms partings Part.Ends (.master (.decided code))
      (.ret (.error code)) := fun code => .inr ⟨code, rfl, rfl⟩
  refine conforms_idle rfl fun _ => ⟨nofun, fun r _ => ?_⟩
  cases r with
  | error e => exact conforms_idle rfl fun _ => hends childNeedWork
  | ok done =>
      refine ⟨nofun, fun r _ => ?_⟩
      cases r with
      | error e => exact conforms_idle rfl fun _ => hends childNeedTerminate
      | ok done =>
          refine conforms_idle rfl fun _ => ⟨nofun, fun r _ => ?_⟩
          cases r with
          | error e => exact conforms_idle rfl fun _ => hends childNeedTerminate
          | ok done =>
              refine ⟨nofun, fun r _ => ?_⟩
              cases r with
              | thrown => exact conforms_idle rfl fun r => Empty.elim r
              | exited code => exact hends code
              | running => exact .inl ⟨rfl, rfl⟩

/-- A reload decides nothing, and does not exit. -/
theorem partings_reloadConfig {duty : Duty} : Conforms partings
    (fun part r => part = .master duty ∧ ∃ ret, r = .ok ret) (.master duty) reloadConfig.run := by
  refine ignored_reloadConfig fun c hc => ?_
  cases c with
  | fopen | fread | loadConfig | fault => exact ⟨by simp, fun _ => rfl⟩
  | _ => exact absurd hc id

/-- One round of the loop of a master. -/
theorem partings_workLoop : Conforms partings Part.Ends (.master .working) workLoop.run := by
  have hallowed : partings.allows (.master .working) (.sigwaitinfo [.sighup, .sigterm]) := by simp
  rw [workLoop, Proc.run_make_bind]
  refine ⟨hallowed, fun r hr => ?_⟩
  obtain ⟨signal, hsignal, rfl⟩ := hr
  have hreport : ∀ ret : Int, Conforms partings Part.Ends (.master .working) (if ret ≠ 0 then (do
        Proc.log "Reload config failed: {}" [strerror]
        return .work)
      else (do
        Proc.log "Reload config OK" []
        return .work) : Proc Next).run := by
    intro ret
    by_cases hret : ret ≠ 0
    · rw [if_pos hret]
      exact conforms_idle rfl fun _ => .inl ⟨rfl, rfl⟩
    · rw [if_neg hret]
      exact conforms_idle rfl fun _ => .inl ⟨rfl, rfl⟩
  have hawaited : signal = .sighup ∨ signal = .sigterm := by simpa using hsignal
  rcases hawaited with rfl | rfl
  · show Conforms partings Part.Ends (.master .working) (masterReloadConfig >>= _).run
    rw [Proc.conforms_bind, masterReloadConfig, Proc.conforms_bind]
    refine partings_reloadConfig.mono fun part r hpart => ?_
    obtain ⟨rfl, ret, rfl⟩ := hpart
    exact conforms_idle rfl fun _ => hreport ret
  · exact conforms_idle rfl fun _ => .inr ⟨childNeedTerminate, rfl, rfl⟩

/-- The messages of the handler lead to its exit code. -/
theorem partings_selfDebug {debug : Bool} {signal : ErrorSignal} {crash : Crash} {code : Int}
    (hcode : code = if crash.trace.length = 0 then childNeedWork else giveUp debug) :
    Conforms partings Part.Ends (.master (.decided code)) (selfDebug debug signal crash).run := by
  have hexit : Conforms partings Part.Ends (.master (.decided code)) (.ret (.error code)) :=
    .inr ⟨code, rfl, rfl⟩
  have hframes : ∀ (frames : List Frame) (next : Unit → Proc Next),
      Conforms partings Part.Ends (.master (.decided code)) (next ()).run →
        Conforms partings Part.Ends (.master (.decided code)) (logFrames crash frames >>= next).run := by
    intro frames next hnext
    induction frames with
    | nil => exact hnext
    | cons frame rest ih =>
        rw [logFrames]
        cases crash.print frame with
        | some text =>
            dsimp only
            rw [bind_assoc]
            exact conforms_idle rfl fun _ => ih
        | none =>
            dsimp only
            rw [bind_assoc]
            exact conforms_idle rfl fun r => Empty.elim r
  refine conforms_idle rfl fun _ => ?_
  dsimp only
  by_cases htrace : crash.trace.length = 0
  · rw [if_pos htrace]
    rw [if_pos htrace] at hcode
    subst hcode
    exact conforms_idle rfl fun _ => hexit
  · rw [if_neg htrace]
    rw [if_neg htrace] at hcode
    subst hcode
    have hstop : Conforms partings Part.Ends (.master (.decided (giveUp debug))) (do
        Proc.log "Stopped" []
        Proc.exit (giveUp debug) : Proc Next).run := conforms_idle rfl fun _ => hexit
    by_cases hsymbols : crash.symbols = true
    · rw [if_pos hsymbols]
      refine conforms_idle rfl fun _ => ?_
      exact hframes _ _ (conforms_idle rfl fun _ => hstop)
    · rw [if_neg hsymbols]
      exact hstop

/-! ## The monitor -/

theorem only_seq {α β : Type} {ok : Call → Prop} {x : Proc α} {f : α → Proc β} (hx : Only ok x.run)
    (hf : ∀ a, Only ok (f a).run) : Only ok (x >>= f).run := by
  rw [ExceptT.run_bind]
  refine hx.bind fun r => ?_
  cases r with
  | ok a => exact hf a
  | error code => trivial

theorem only_make {ok : Call → Prop} {c : Call} (hc : ok c) : Only ok (Proc.make c).run :=
  (Program.only_call c _).mpr ⟨hc, fun _ => trivial⟩

/-- A call that the monitor makes between its `fork` and its waits for signals. -/
def Call.Between (c : Call) : Prop := c ≠ .fork ∧ ∀ set, c ≠ .sigwaitinfo set

theorem between_reloadConfig : Only Call.Between reloadConfig.run := by
  have hline : Only Call.Between configLoadLine.run := by
    refine only_seq (only_make ⟨nofun, nofun⟩) fun r => ?_
    cases r with
    | ok file => exact only_seq (only_make ⟨nofun, nofun⟩) fun text => trivial
    | error e => trivial
  refine only_seq hline fun path => only_seq (only_make ⟨nofun, nofun⟩) fun r => ?_
  cases r with
  | returned ret hasLogger => trivial
  | thrown => exact (Program.only_call _ _).mpr ⟨⟨nofun, nofun⟩, fun r => Empty.elim r⟩

theorem between_killOrLog {pid : Int} {signal : Signal} {message : String} :
    Only Call.Between (killOrLog pid signal message).run := by
  refine only_seq (only_make ⟨nofun, nofun⟩) fun r => ?_
  cases r with
  | ok done => trivial
  | error e => exact only_make ⟨nofun, nofun⟩

theorem between_daemonExit : Only Call.Between daemonExit.run :=
  only_seq (only_make ⟨nofun, nofun⟩) fun _ => only_seq (only_make ⟨nofun, nofun⟩) fun _ => trivial

theorem between_monitorSignal {vars : MonitorVars} (signal : Signal) :
    Only Call.Between (monitorSignal vars signal).run := by
  have hstop : Only Call.Between (do
      Proc.log "Received signal {}" [signal.name]
      killOrLog vars.pid .sigterm "Couldn't send SIGTERM to child process"
      Proc.log "Stop" []
      daemonExit : Proc Next).run :=
    only_seq (only_make ⟨nofun, nofun⟩) fun _ => only_seq between_killOrLog fun _ =>
      only_seq (only_make ⟨nofun, nofun⟩) fun _ => between_daemonExit
  cases signal with
  | sigchld =>
      refine only_seq (only_make ⟨nofun, nofun⟩) fun status => ?_
      dsimp only
      split_ifs
      · exact only_seq (only_make ⟨nofun, nofun⟩) fun _ => only_seq (only_make ⟨nofun, nofun⟩) fun _ =>
          between_daemonExit
      · exact only_seq (only_make ⟨nofun, nofun⟩) fun _ => trivial
      · trivial
  | sighup =>
      refine only_seq between_reloadConfig fun ret => ?_
      split_ifs
      · exact only_seq (only_make ⟨nofun, nofun⟩) fun _ => only_seq between_killOrLog fun _ => trivial
      · exact only_seq (only_make ⟨nofun, nofun⟩) fun _ => only_seq between_killOrLog fun _ => trivial
  | _ => exact hstop

theorem forkless_monitorWait {vars : MonitorVars} : Only (· ≠ .fork) (monitorWait vars).run := by
  refine only_seq (only_make nofun) fun r => ?_
  cases r with
  | ok signal => exact (between_monitorSignal signal).mono fun _ h => h.1
  | error e =>
      refine only_seq (only_make nofun) fun _ => ?_
      cases vars.siginfo with
      | none => exact (Program.only_call _ _).mpr ⟨nofun, fun r => Empty.elim r⟩
      | some signal => exact (between_monitorSignal signal).mono fun _ h => h.1

theorem forkless_masterStart : Only (· ≠ .fork) masterStart.run := by
  refine only_seq (only_make nofun) fun _ => only_seq (only_make nofun) fun r => ?_
  cases r with
  | error e => exact only_seq (only_make nofun) fun _ => trivial
  | ok done =>
      refine only_seq (only_make nofun) fun r => ?_
      cases r with
      | error e => exact only_seq (only_make nofun) fun _ => trivial
      | ok done =>
          refine only_seq (only_make nofun) fun _ => only_seq (only_make nofun) fun r => ?_
          cases r with
          | error e => exact only_seq (only_make nofun) fun _ => trivial
          | ok done =>
              refine only_seq (only_make nofun) fun r => ?_
              cases r with
              | thrown => exact (Program.only_call _ _).mpr ⟨nofun, fun r => Empty.elim r⟩
              | exited code => trivial
              | running => trivial

theorem partings_of_only {code : Proc Next} (h : Only (· ≠ .fork) code.run) :
    Conforms partings Part.Ends .monitor code.run := by
  refine (conforms_of_only h).mono fun part r hpart => ?_
  rw [hpart]
  cases r <;> trivial

/-- One round of the loop of the monitor: its child begins as a master, and it ends when it
cannot have one. -/
theorem partings_monitorLoop {vars : MonitorVars} :
    Conforms partings Part.Ends .monitor (monitorLoop vars).run := by
  have hround : ∀ pid : Int, Only (· ≠ .fork) (if pid = -1 then (do
        Proc.log "Fork failed ({})" [strerror]
        Proc.exit exitFailure)
      else if pid = 0 then masterStart
      else monitorWait { vars with pid := pid } : Proc Next).run := by
    intro pid
    split_ifs
    · exact only_seq (only_make (by simp)) fun _ => trivial
    · exact forkless_masterStart
    · exact forkless_monitorWait
  by_cases hneed : vars.needStart = true
  · rw [monitorLoop, if_pos hneed, bind_map_left, Proc.run_make_bind]
    have hallowed : partings.allows .monitor .fork := by simp
    refine ⟨hallowed, fun r _ => ?_⟩
    cases r with
    | failed e => exact ⟨fun _ => ⟨_, _, _, rfl⟩, fun _ _ => ⟨exitFailure, rfl⟩⟩
    | child => exact partings_masterStart
    | parent pid => exact partings_of_only (hround pid)
  · rw [monitorLoop, if_neg hneed, pure_bind]
    exact partings_of_only (hround vars.pid)

theorem partings_program {part : Part} {code : Proc Next}
    (h : Conforms partings Part.Ends part code.run) :
    Conforms partings Part.Rests part code.program := by
  refine Program.Conforms.seq h fun ψ r hr => ?_
  cases r with
  | ok next => exact hr
  | error code => exact hr

/-- The next piece of code of a monitor in its loop, or of a master. -/
theorem partings_resume {part : Part} {next : Next} {code : Sys Next} (hrests : part.Rests next)
    (hwork : part = .monitor → next ≠ .work) (h : next.resume = some code) :
    Conforms partings Part.Rests part code := by
  cases part with
  | quitting =>
      obtain ⟨exitCode, rfl⟩ := hrests
      cases h
  | monitor => cases next with
      | exit code => cases h
      | monitor vars =>
          cases h
          exact partings_program partings_monitorLoop
      | work => exact absurd rfl (hwork rfl)
  | master duty =>
      rcases hrests with ⟨rfl, rfl⟩ | ⟨exitCode, rfl, -⟩
      · cases h
        exact partings_program partings_workLoop
      · cases h

end Robotd
