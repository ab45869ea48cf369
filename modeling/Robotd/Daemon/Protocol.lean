import Robotd.Daemon.Process

/-!
# The protocol of a monitor and its children

`supervision` says what `monitor_proc` may call next, as it follows from its last `fork`, `wait`
or signal; the child goes on as the master, so the protocol covers `work_proc` as well.
`conforms_resume` shows that the code keeps the protocol round after round, and `moves` lists all
that a call can do to where a process stands.
-/

namespace Robotd

open Lib Lib.CLib
open Lib.Program (Protocol Conforms)

/-! ## Pieces that a protocol may take no notice of -/

/-- The calls of a reload. -/
def Call.Reloads : Call → Prop
  | .fopen path mode => path = configLoad ∧ mode = .r
  | .fread _ | .loadConfig _ => True
  | .fault reason => reason = .uncaughtException
  | _ => False

section Ignored

variable {P : Protocol Call Response} {φ : P.Phase}

/-- A reload does not exit. -/
theorem ignored_reloadConfig (h : ∀ c : Call, c.Reloads → P.Ignores φ c) :
    Conforms P (fun ψ r => ψ = φ ∧ ∃ ret, r = .ok ret) φ reloadConfig.run := by
  have hline : Conforms P (fun ψ r => ψ = φ ∧ ∃ path, r = .ok path) φ configLoadLine.run := by
    refine .ignored (h _ ⟨rfl, rfl⟩) fun r => ?_
    cases r with
    | ok file => exact .ignored (h _ trivial) fun text => ⟨rfl, _, rfl⟩
    | error e => exact ⟨rfl, "", rfl⟩
  rw [reloadConfig, Proc.conforms_bind]
  refine hline.mono fun ψ r hread => ?_
  obtain ⟨rfl, path, rfl⟩ := hread
  refine .ignored (h _ trivial) fun r => ?_
  cases r with
  | returned ret hasLogger => exact ⟨rfl, ret, rfl⟩
  | thrown => exact .ignored (h _ rfl) fun r => Empty.elim r

theorem ignored_killOrLog {post : P.Phase → Except Int Next → Prop} {pid : Int} {signal : Signal}
    {message : String} {next : Proc Next} (hkill : P.Ignores φ (.kill pid signal))
    (hlog : P.Ignores φ (.print .log message [])) (h : Conforms P post φ next.run) :
    Conforms P post φ (do killOrLog pid signal message; next : Proc Next).run := by
  rw [killOrLog, bind_assoc, Proc.run_make_bind]
  refine .ignored hkill fun r => ?_
  cases r with
  | ok done => exact h
  | error e => exact .ignored hlog fun _ => h

end Ignored

/-! ## The ends of a child -/

instance neZeroCodes : NeZero 256 := ⟨by decide⟩

instance neZeroSignals : NeZero 127 := ⟨by decide⟩

/-- How a child has ended. -/
inductive WaitStatus where
  | exited (code : Fin 256)
  | signaled (signal : Fin 127) (core : Bool)
  deriving DecidableEq, Repr

/-- The word that `wait` stores. -/
def WaitStatus.raw : WaitStatus → Nat
  | exited code => code * 256
  | signaled signal core => signal + if core then 128 else 0

/-- `WEXITSTATUS` recognizes the exit with `CHILD_NEED_TERMINATE` among all ends of a child. -/
theorem wexitstatus_raw (status : WaitStatus) :
    wexitstatus status.raw = childNeedTerminate ↔ status = .exited 2 := by
  cases status with
  | exited code =>
      obtain ⟨code, hcode⟩ := code
      simp only [WaitStatus.raw, wexitstatus, childNeedTerminate, WaitStatus.exited.injEq, Fin.ext_iff]
      show (((code * 256 : Nat) : Int) / 256 % 256 = 2) ↔ code = 2
      omega
  | signaled signal core =>
      obtain ⟨signal, hsignal⟩ := signal
      refine iff_of_false ?_ fun h => by cases h
      simp only [WaitStatus.raw, wexitstatus, childNeedTerminate]
      cases core <;> simp <;> omega

/-! ## The protocol -/

/-- Where the monitor stands: a child is to be forked; it has a child and waits for a signal, or
has got this signal; it has reaped the last child; it has removed the PID file. Its child is the
master. -/
inductive Watch where
  | forking
  | waiting (pid : Nat)
  | got (pid : Nat) (signal : Signal)
  | ending
  | unlinked (children : List Nat)
  | master
  deriving DecidableEq, Repr

/-- The calls that may be made at almost any time and change nothing of the supervision. -/
def Call.background : Call → Bool
  | .fopen _ .r | .fread _ | .print _ _ _ | .fault _ | .setup _ | .sigprocmask _ | .loadConfig _ => true
  | .registerServices | .updateLoggers => true
  | _ => false

namespace Watch

/-- The unreaped children. -/
def children : Watch → List Nat
  | forking | ending | master => []
  | waiting pid | got pid _ => [pid]
  | unlinked children => children

/-- A signal may be awaited: there is a child, and the last signal has been dealt with. -/
def Waits : Watch → Prop
  | waiting _ | got _ .sighup => True
  | _ => False

/-- The loop has been left. -/
def Leaving : Watch → Prop
  | got _ signal => signal ≠ .sighup ∧ signal ≠ .sigchld
  | ending => True
  | _ => False

/-- The monitor is in its loop, and not on its way out. -/
def Loops : Watch → Prop
  | forking | waiting _ => True
  | got _ signal => signal = .sighup ∨ signal = .sigchld
  | _ => False

/-- No child is to be reaped. -/
def Calm (watch : Watch) : Prop := ∀ pid, watch ≠ got pid .sigchld

theorem Waits.not_leaving {watch : Watch} (h : watch.Waits) : ¬watch.Leaving := by
  intro hleaving
  cases watch with
  | got pid signal => cases signal with
      | sighup => exact hleaving.1 rfl
      | _ => exact h
  | waiting pid => exact hleaving
  | _ => exact h

instance (watch : Watch) : Decidable watch.Leaving := by
  cases watch <;> unfold Leaving <;> infer_instance

instance (watch : Watch) : Decidable watch.Loops := by
  cases watch <;> unfold Loops <;> infer_instance

def after : Watch → Event → Watch
  | forking, ⟨.fork, .parent pid⟩ => waiting pid
  | forking, ⟨.fork, .child⟩ => master
  | waiting pid, ⟨.sigwaitinfo _, .ok signal⟩ => got pid signal
  | got pid .sighup, ⟨.sigwaitinfo _, .ok signal⟩ => got pid signal
  | got _ .sigchld, ⟨.wait, .ok raw⟩ =>
      if raw = (WaitStatus.exited 2).raw then ending else forking
  | watch, ⟨.unlink _, _⟩ => unlinked watch.children
  | watch, _ => watch

def allows (watch : Watch) : Call → Prop
  | .fork => watch = forking
  | .wait => ∃ pid, watch = got pid .sigchld
  | .kill pid signal => ∃ child : Nat, pid = child ∧
      (signal = .sighup ∧ watch = got child .sighup ∨
        signal = .sigterm ∧ ∃ s, watch = got child s ∧ watch.Leaving)
  | .sigwaitinfo set => watch.Waits ∧ set = monitorSignals ∨ watch = master ∧ set = [.sighup, .sigterm]
  | .unlink path => watch.Leaving ∧ path = pidFile
  | c => watch.Calm ∧ c.background = true

end Watch

/-- What a process relies on: a fork succeeds, a signal is one of those awaited, and a reaped
child has ended. -/
def Expected : Event → Prop
  | ⟨.fork, r⟩ => r = .child ∨ ∃ pid : Nat, 0 < pid ∧ r = .parent pid
  | ⟨.sigwaitinfo set, r⟩ => ∃ signal ∈ set, r = .ok signal
  | ⟨.wait, r⟩ => ∃ status : WaitStatus, r = .ok status.raw
  | _ => True

/-- The protocol of the monitor and of its child. -/
abbrev supervision : Protocol Call Response where
  Phase := Watch
  after := Watch.after
  allows := Watch.allows
  expects _ := Expected

/-- Where a piece of code may end. -/
def Watch.Rests (watch : Watch) : Next → Prop
  | .exit _ => (∃ children, watch = .unlinked children) ∨ watch = .master
  | .monitor vars => vars.needStart = true ∧ watch = .forking ∨
      vars.needStart = false ∧ ∃ pid : Nat, 0 < pid ∧ vars.pid = pid ∧
        (watch = .waiting pid ∨ watch = .got pid .sighup)
  | .work => watch = .master

/-- The same with an `exit` on the way. -/
def Rests (watch : Watch) : Except Int Next → Prop
  | .ok next => watch.Rests next
  | .error code => watch.Rests (.exit code)

/-! ## The code -/

theorem allows_background {c : Call} (h : c.background = true) (watch : Watch) :
    watch.allows c ↔ watch.Calm := by
  cases c with
  | fopen path mode => cases mode <;> simp_all [Watch.allows]
  | fread | print | fault | setup | sigprocmask | loadConfig | registerServices | updateLoggers =>
      exact and_iff_left h
  | _ => cases h

theorem after_background {c : Call} (h : c.background = true) (watch : Watch) (r : Response c) :
    watch.after ⟨c, r⟩ = watch := by
  cases c with
  | fopen | fread | print | fault | setup | sigprocmask | loadConfig | registerServices
    | updateLoggers => cases watch with
      | got pid signal => cases signal <;> rfl
      | _ => rfl
  | _ => cases h

theorem after_kill (watch : Watch) (pid : Int) (signal : Signal) (r : Response (.kill pid signal)) :
    watch.after ⟨.kill pid signal, r⟩ = watch := by
  cases watch with
  | got pid signal => cases signal <;> rfl
  | _ => rfl

theorem ignores_background {c : Call} {watch : Watch} (hcalm : watch.Calm) (hc : c.background = true) :
    supervision.Ignores watch c :=
  ⟨(allows_background hc watch).mpr hcalm, after_background hc watch⟩

/-- A call in the background in front of a program. -/
theorem conforms_background {α : Type} {c : Call} {next : Response c → Sys α} {watch : Watch}
    {post : Watch → α → Prop} (hcalm : watch.Calm) (hc : c.background = true)
    (hnext : ∀ r, Conforms supervision post watch (next r)) :
    Conforms supervision post watch (.call c next) :=
  .ignored (ignores_background hcalm hc) hnext

/-- A signal to a child in front of a program. -/
theorem conforms_killOrLog {pid : Nat} {signal : Signal} {message : String} {watch : Watch}
    {next : Proc Next} (hcalm : watch.Calm) (hallows : supervision.allows watch (.kill pid signal))
    (hnext : Conforms supervision Rests watch next.run) :
    Conforms supervision Rests watch (do killOrLog pid signal message; next : Proc Next).run :=
  ignored_killOrLog ⟨hallows, after_kill watch pid signal⟩ (ignores_background hcalm rfl) hnext

/-- A reload is in the background, and does not exit. -/
theorem conforms_reloadConfig {watch : Watch} (hcalm : watch.Calm) : Conforms supervision
    (fun ψ r => ψ = watch ∧ ∃ ret, r = .ok ret) watch reloadConfig.run := by
  refine ignored_reloadConfig fun c hc => ignores_background hcalm ?_
  cases c with
  | fopen path mode =>
      rw [hc.2]
      rfl
  | fread | loadConfig | fault => rfl
  | _ => exact absurd hc id

/-- The end of a monitor that has left its loop. -/
theorem conforms_daemonExit {watch : Watch} (hcalm : watch.Calm) (hleaving : watch.Leaving) :
    Conforms supervision Rests watch daemonExit.run := by
  refine conforms_background hcalm rfl fun _ => ⟨⟨hleaving, rfl⟩, fun r _ => .inl ?_⟩
  refine ⟨watch.children, ?_⟩
  cases watch with
  | got pid signal => cases signal <;> rfl
  | _ => rfl

theorem raw_eq_terminate {status : WaitStatus} :
    status.raw = (WaitStatus.exited 2).raw ↔ status = .exited 2 := by
  constructor
  · intro h
    rw [← wexitstatus_raw, h, wexitstatus_raw]
  · exact fun h => h ▸ rfl

/-- What follows a SIGCHLD: the end after an exit with `CHILD_NEED_TERMINATE`, else a fork. -/
theorem conforms_sigchld {vars : MonitorVars} {pid : Nat} :
    Conforms supervision Rests (.got pid .sigchld) (monitorSignal vars .sigchld).run := by
  rw [monitorSignal, Proc.run_make_bind]
  refine ⟨⟨pid, rfl⟩, fun r hr => ?_⟩
  obtain ⟨status, rfl⟩ := hr
  have hafter : supervision.after (.got pid .sigchld) ⟨.wait, .ok status.raw⟩ =
    if status.raw = (WaitStatus.exited 2).raw then .ending else .forking := rfl
  rw [hafter]
  dsimp only
  by_cases hstatus : status = .exited 2
  · rw [if_pos (raw_eq_terminate.mpr hstatus), if_pos ((wexitstatus_raw status).mpr hstatus)]
    have hcalm : Watch.ending.Calm := nofun
    refine conforms_background hcalm rfl fun _ => conforms_background hcalm rfl fun _ => ?_
    exact conforms_daemonExit hcalm trivial
  · rw [if_neg (mt raw_eq_terminate.mp hstatus), if_neg (mt (wexitstatus_raw status).mp hstatus)]
    have hcalm : Watch.forking.Calm := nofun
    have hrests : Watch.forking.Rests (.monitor { vars with
      needStart := true, status := wexitstatus status.raw }) := .inl ⟨rfl, rfl⟩
    by_cases hwork : wexitstatus status.raw = childNeedWork
    · rw [if_pos hwork]
      exact conforms_background hcalm rfl fun _ => hrests
    · rw [if_neg hwork]
      exact hrests

/-- What follows a SIGHUP: the child gets it too, and the next signal is awaited. -/
theorem conforms_sighup {vars : MonitorVars} {pid : Nat} (hpid : 0 < pid) (hvars : vars.pid = pid) :
    Conforms supervision Rests (.got pid .sighup) (monitorSignal vars .sighup).run := by
  have hcalm : (Watch.got pid .sighup).Calm := nofun
  have hforward : ∀ message, Conforms supervision Rests (.got pid .sighup)
      (killOrLog vars.pid .sighup message >>= fun _ =>
        pure (.monitor { vars with needStart := false })).run := by
    intro message
    rw [hvars]
    refine conforms_killOrLog hcalm ⟨pid, rfl, .inl ⟨rfl, rfl⟩⟩ ?_
    exact .inr ⟨rfl, pid, hpid, rfl, .inr rfl⟩
  rw [monitorSignal, Proc.conforms_bind]
  refine (conforms_reloadConfig hcalm).mono fun ψ r hψ => ?_
  obtain ⟨rfl, ret, rfl⟩ := hψ
  dsimp only
  by_cases hret : ret ≠ 0
  · rw [if_pos hret]
    exact conforms_background hcalm rfl fun _ => hforward _
  · rw [if_neg hret]
    exact conforms_background hcalm rfl fun _ => hforward _

/-- What follows the other signals: the child is told to stop, and the monitor ends. -/
theorem conforms_stop {vars : MonitorVars} {pid : Nat} {signal : Signal} (hvars : vars.pid = pid)
    (hchld : signal ≠ .sigchld) (hhup : signal ≠ .sighup) :
    Conforms supervision Rests (.got pid signal) (monitorSignal vars signal).run := by
  have hcalm : (Watch.got pid signal).Calm := by
    intro pid' hgot
    cases hgot
    exact hchld rfl
  have hleaving : (Watch.got pid signal).Leaving := ⟨hhup, hchld⟩
  have hstop : Conforms supervision Rests (.got pid signal) (do
      Proc.log "Received signal {}" [signal.name]
      killOrLog vars.pid .sigterm "Couldn't send SIGTERM to child process"
      Proc.log "Stop" []
      daemonExit : Proc Next).run := by
    rw [hvars]
    refine conforms_background hcalm rfl fun _ => ?_
    refine conforms_killOrLog hcalm ⟨pid, rfl, .inr ⟨rfl, signal, rfl, hleaving⟩⟩ ?_
    exact conforms_background hcalm rfl fun _ => conforms_daemonExit hcalm hleaving
  cases signal with
  | sigchld => exact absurd rfl hchld
  | sighup => exact absurd rfl hhup
  | _ => exact hstop

theorem conforms_monitorSignal {vars : MonitorVars} {pid : Nat} (signal : Signal) (hpid : 0 < pid)
    (hvars : vars.pid = pid) :
    Conforms supervision Rests (.got pid signal) (monitorSignal vars signal).run := by
  by_cases hchld : signal = .sigchld
  · rw [hchld]
    exact conforms_sigchld
  by_cases hhup : signal = .sighup
  · rw [hhup]
    exact conforms_sighup hpid hvars
  exact conforms_stop hvars hchld hhup

/-- The wait for a signal with the child `pid`, and what follows. -/
theorem conforms_monitorWait {vars : MonitorVars} {pid : Nat} {watch : Watch} (hpid : 0 < pid)
    (hvars : vars.pid = pid) (hwatch : watch = .waiting pid ∨ watch = .got pid .sighup) :
    Conforms supervision Rests watch (monitorWait vars).run := by
  have hwaits : watch.Waits := by
    rcases hwatch with rfl | rfl <;> trivial
  rw [monitorWait, Proc.run_make_bind]
  refine ⟨.inl ⟨hwaits, rfl⟩, fun r hr => ?_⟩
  obtain ⟨signal, -, rfl⟩ := hr
  have hafter : supervision.after watch ⟨.sigwaitinfo monitorSignals, .ok signal⟩ =
      .got pid signal := by
    rcases hwatch with rfl | rfl <;> rfl
  rw [hafter]
  exact conforms_monitorSignal signal hpid hvars

/-- The child on its way to the loop of `work_proc`. -/
theorem conforms_masterStart : Conforms supervision Rests .master masterStart.run := by
  have hcalm : Watch.master.Calm := nofun
  refine conforms_background hcalm rfl fun _ => conforms_background hcalm rfl fun r => ?_
  cases r with
  | error e => exact conforms_background hcalm rfl fun _ => .inr rfl
  | ok done =>
      refine conforms_background hcalm rfl fun r => ?_
      cases r with
      | error e => exact conforms_background hcalm rfl fun _ => .inr rfl
      | ok done =>
          refine conforms_background hcalm rfl fun _ => conforms_background hcalm rfl fun r => ?_
          cases r with
          | error e => exact conforms_background hcalm rfl fun _ => .inr rfl
          | ok done =>
              refine conforms_background hcalm rfl fun r => ?_
              cases r with
              | thrown => exact conforms_background hcalm rfl fun r => Empty.elim r
              | exited code => exact .inr rfl
              | running => exact rfl

/-- One round of the loop keeps the protocol. -/
theorem conforms_monitorLoop {vars : MonitorVars} {watch : Watch}
    (h : watch.Rests (.monitor vars)) :
    Conforms supervision Rests watch (monitorLoop vars).run := by
  have hchild : ∀ pid : Nat, 0 < pid → (pid : Int) ≠ -1 ∧ (pid : Int) ≠ 0 := by
    intro pid hpid
    omega
  rcases h with ⟨hneed, rfl⟩ | ⟨hneed, pid, hpid, hvars, hwatch⟩
  · rw [monitorLoop, if_pos hneed, bind_map_left, Proc.run_make_bind]
    refine ⟨rfl, fun r hr => ?_⟩
    rcases hr with rfl | ⟨pid, hpid, rfl⟩
    · exact conforms_masterStart
    · have hne : (ForkResult.parent pid).pid ≠ -1 ∧ (ForkResult.parent pid).pid ≠ 0 := hchild pid hpid
      beta_reduce
      rw [if_neg hne.1, if_neg hne.2]
      exact conforms_monitorWait hpid rfl (.inl rfl)
  · rw [monitorLoop, if_neg (by simp [hneed]), pure_bind, hvars]
    beta_reduce
    rw [if_neg (hchild pid hpid).1, if_neg (hchild pid hpid).2]
    exact conforms_monitorWait hpid rfl hwatch

/-- One round of the loop of the master does. -/
theorem conforms_workLoop : Conforms supervision Rests .master workLoop.run := by
  have hcalm : Watch.master.Calm := nofun
  rw [workLoop, Proc.run_make_bind]
  refine ⟨.inr ⟨rfl, rfl⟩, fun r hr => ?_⟩
  obtain ⟨signal, hsignal, rfl⟩ := hr
  have hafter : supervision.after .master ⟨.sigwaitinfo [.sighup, .sigterm], .ok signal⟩ = .master := rfl
  rw [hafter]
  have hstop : Conforms supervision Rests .master (do
      Proc.log "Stopped" []
      return .exit childNeedTerminate : Proc Next).run :=
    conforms_background hcalm rfl fun _ => .inr rfl
  have hreport : ∀ ret : Int, Conforms supervision Rests .master (if ret ≠ 0 then (do
        Proc.log "Reload config failed: {}" [strerror]
        return .work)
      else (do
        Proc.log "Reload config OK" []
        return .work) : Proc Next).run := by
    intro ret
    by_cases hret : ret ≠ 0
    · rw [if_pos hret]
      exact conforms_background hcalm rfl fun _ => rfl
    · rw [if_neg hret]
      exact conforms_background hcalm rfl fun _ => rfl
  cases signal with
  | sighup =>
      dsimp only
      rw [Proc.conforms_bind, masterReloadConfig, Proc.conforms_bind]
      refine (conforms_reloadConfig hcalm).mono fun ψ r hψ => ?_
      obtain ⟨rfl, ret, rfl⟩ := hψ
      exact conforms_background hcalm rfl fun _ => hreport ret
  | _ => exact hstop

theorem conforms_program {watch : Watch} {code : Proc Next}
    (h : Conforms supervision Rests watch code.run) :
    Conforms supervision Watch.Rests watch code.program := by
  refine Program.Conforms.seq h fun ψ r hr => ?_
  cases r with
  | ok next => exact hr
  | error code => exact hr

/-- The next piece of code after one that has kept the protocol keeps it. -/
theorem conforms_resume {watch : Watch} {next : Next} {code : Sys Next} (hrests : watch.Rests next)
    (h : next.resume = some code) : Conforms supervision Watch.Rests watch code := by
  cases next with
  | exit code => cases h
  | monitor vars =>
      cases h
      exact conforms_program (conforms_monitorLoop hrests)
  | work =>
      cases h
      obtain rfl : watch = .master := hrests
      exact conforms_program conforms_workLoop

/-! ## What a call can do -/

/-- The calls that the protocol allows and what they change. -/
inductive Moves : Watch → Event → Watch → Prop where
  | background {watch : Watch} {c : Call} (hcalm : watch.Calm) (hc : c.background = true)
      (r : Response c) : Moves watch ⟨c, r⟩ watch
  | forked {pid : Nat} (hpid : 0 < pid) : Moves .forking ⟨.fork, .parent pid⟩ (.waiting pid)
  | child : Moves .forking ⟨.fork, .child⟩ .master
  | signal {watch : Watch} {pid : Nat} (hwatch : watch = .waiting pid ∨ watch = .got pid .sighup)
      (signal : Signal) : Moves watch ⟨.sigwaitinfo monitorSignals, .ok signal⟩ (.got pid signal)
  | masterSignal (signal : Signal) :
      Moves .master ⟨.sigwaitinfo [.sighup, .sigterm], .ok signal⟩ .master
  | forward {pid : Nat} (r : Response (.kill pid .sighup)) :
      Moves (.got pid .sighup) ⟨.kill pid .sighup, r⟩ (.got pid .sighup)
  | stop {pid : Nat} {signal : Signal} (hleaving : (Watch.got pid signal).Leaving)
      (r : Response (.kill pid .sigterm)) :
      Moves (.got pid signal) ⟨.kill pid .sigterm, r⟩ (.got pid signal)
  | reapLast {pid : Nat} :
      Moves (.got pid .sigchld) ⟨.wait, .ok (WaitStatus.exited 2).raw⟩ .ending
  | reap {pid : Nat} {status : WaitStatus} (hstatus : status ≠ .exited 2) :
      Moves (.got pid .sigchld) ⟨.wait, .ok status.raw⟩ .forking
  | unlink {watch : Watch} (hleaving : watch.Leaving) (r : Response (.unlink pidFile)) :
      Moves watch ⟨.unlink pidFile, r⟩ (.unlinked watch.children)

/-- An allowed call with an expected answer is one of these. -/
theorem moves {watch : Watch} {e : Event} (hallows : watch.allows e.1) (hexpected : Expected e) :
    Moves watch e (watch.after e) := by
  obtain ⟨c, r⟩ := e
  by_cases hc : c.background = true
  · rw [after_background hc]
    exact .background ((allows_background hc watch).mp hallows) hc r
  cases c with
  | fork =>
      obtain rfl : watch = .forking := hallows
      rcases hexpected with rfl | ⟨pid, hpid, rfl⟩
      · exact .child
      · exact .forked hpid
  | wait =>
      obtain ⟨pid, rfl⟩ := hallows
      obtain ⟨status, rfl⟩ := hexpected
      by_cases hstatus : status = .exited 2
      · have hafter : (Watch.got pid .sigchld).after ⟨.wait, .ok status.raw⟩ = .ending :=
          if_pos (raw_eq_terminate.mpr hstatus)
        rw [hafter, hstatus]
        exact .reapLast
      · have hafter : (Watch.got pid .sigchld).after ⟨.wait, .ok status.raw⟩ = .forking :=
          if_neg (mt raw_eq_terminate.mp hstatus)
        rw [hafter]
        exact .reap hstatus
  | kill pid signal =>
      rw [after_kill]
      rcases hallows with ⟨child, rfl, ⟨rfl, rfl⟩ | ⟨rfl, s, rfl, hleaving⟩⟩
      · exact .forward r
      · exact .stop hleaving r
  | sigwaitinfo set =>
      obtain ⟨signal, -, rfl⟩ := hexpected
      rcases hallows with ⟨hwaits, rfl⟩ | ⟨rfl, rfl⟩
      · cases watch with
        | waiting pid => exact .signal (.inl rfl) signal
        | got pid last => cases last with
            | sighup => exact .signal (.inr rfl) signal
            | _ => exact absurd hwaits id
        | _ => exact absurd hwaits id
      · exact .masterSignal signal
  | unlink path =>
      obtain ⟨hleaving, rfl⟩ := hallows
      have hafter : watch.after ⟨.unlink pidFile, r⟩ = .unlinked watch.children := by
        cases watch with
        | got pid signal => cases signal <;> rfl
        | _ => rfl
      rw [hafter]
      exact .unlink hleaving r
  | fopen path mode => cases mode with
      | r => exact absurd rfl hc
      | w => exact absurd hallows.2 Bool.false_ne_true
  | fread | print | fault | setup | sigprocmask | loadConfig | registerServices | updateLoggers =>
      exact absurd rfl hc
  | fwrite | stat | mkdir | readdirProc | getpid => exact absurd hallows.2 Bool.false_ne_true

end Robotd
