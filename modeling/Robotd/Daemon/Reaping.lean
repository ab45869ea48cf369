import Robotd.Daemon.Cause

/-!
# The wait of a monitor for its master

A monitor takes a SIGCHLD for the end of its master and calls `wait`, which blocks until there is
one. The kernel raises a SIGCHLD for a stop and a continue as well, and one that is pending stands
for all that has happened since the last was taken. `unblocked_iff` says which runs of the monitor
and its masters never come to a `wait` that blocks: those where each SIGCHLD that is taken tells of
the end of the master that the monitor has.
-/

namespace Robotd

open Lib
open Lib.Program (Protocol Conforms)

/-! ## When a monitor waits for its master -/

/-- What a monitor does: it has no master; it waits for a signal, or has passed on a SIGHUP;
`sigwaitinfo` has failed; it is to reap its master; it is on its way out. -/
inductive RoundMode where
  | childless
  | waiting
  | erring
  | reaping
  | leaving
  deriving DecidableEq, Repr

/-- What it does about the signal in `siginfo`. -/
def RoundMode.acts : Option Signal → RoundMode
  | some .sigchld => reaping
  | some .sighup => waiting
  | _ => leaving

/-- The signal in `siginfo`, and what the monitor does. -/
structure Round where
  last : Option Signal
  mode : RoundMode
  deriving DecidableEq, Repr

/-- The calls that say nothing of the master and of signals. -/
def Call.quiet : Call → Bool
  | .fork | .sigwaitinfo _ | .wait => false
  | _ => true

namespace Round

def after (φ : Round) : Event → Round
  | ⟨.fork, .parent _⟩ => { φ with mode := .waiting }
  | ⟨.fork, _⟩ => { φ with mode := .leaving }
  | ⟨.sigwaitinfo _, .ok signal⟩ => ⟨some signal, .acts (some signal)⟩
  | ⟨.sigwaitinfo _, .error _⟩ => { φ with mode := .erring }
  | ⟨.wait, _⟩ => { φ with mode := .childless }
  | ⟨.print _ _ _, _⟩ => if φ.mode = .erring then { φ with mode := .acts φ.last } else φ
  | _ => φ

/-- The monitor neither reports an error nor reaps. -/
def Calm (φ : Round) : Prop := φ.mode ≠ .erring ∧ φ.mode ≠ .reaping

def allows (φ : Round) : Call → Prop
  | .fork => φ.mode = .childless
  | .sigwaitinfo set => φ.mode = .waiting ∧ set = monitorSignals
  | .wait => φ.mode = .reaping
  | .print _ _ _ => φ.mode ≠ .reaping
  | _ => φ.Calm

/-- Where a piece of the monitor may end. -/
def Rests (φ : Round) : Next → Prop
  | .exit _ => φ.mode = .childless ∨ φ.mode = .leaving
  | .monitor vars => vars.siginfo = φ.last ∧
      (vars.needStart = true ∧ φ.mode = .childless ∨
        vars.needStart = false ∧ 0 < vars.pid ∧ φ.mode = .waiting)
  | .work => False

/-- The same with an `exit` on the way. -/
def Ends (φ : Round) : Except Int Next → Prop
  | .ok next => φ.Rests next
  | .error code => φ.Rests (.exit code)

end Round

/-- The protocol of a monitor that reaps its masters. -/
abbrev reaping : Protocol Call Response where
  Phase := Round
  after := Round.after
  allows := Round.allows
  expects _ := Told

namespace Round

variable {φ : Round}

theorem ignores_quiet {c : Call} (hcalm : φ.Calm) (hc : c.quiet = true) : reaping.Ignores φ c := by
  cases c with
  | fork | sigwaitinfo | wait => cases hc
  | print stream format args => exact ⟨hcalm.2, fun _ => if_neg hcalm.1⟩
  | _ => exact ⟨hcalm, fun _ => rfl⟩

theorem reaping_quiet {α : Type} {post : Round → α → Prop} {c : Call} {next : Response c → Sys α}
    (hcalm : φ.Calm) (hc : c.quiet = true) (h : ∀ r, Conforms reaping post φ (next r)) :
    Conforms reaping post φ (.call c next) :=
  .ignored (ignores_quiet hcalm hc) h

theorem reaping_killOrLog {pid : Int} {signal : Signal} {message : String} {next : Proc Next}
    (hcalm : φ.Calm) (h : Conforms reaping Ends φ next.run) :
    Conforms reaping Ends φ (do killOrLog pid signal message; next : Proc Next).run :=
  ignored_killOrLog (ignores_quiet hcalm rfl) (ignores_quiet hcalm rfl) h

theorem reaping_daemonExit (hmode : φ.mode = .childless ∨ φ.mode = .leaving) :
    Conforms reaping Ends φ daemonExit.run := by
  have hcalm : φ.Calm := by
    rcases hmode with hmode | hmode
    · exact ⟨by simp [hmode], by simp [hmode]⟩
    · exact ⟨by simp [hmode], by simp [hmode]⟩
  exact reaping_quiet hcalm rfl fun _ => reaping_quiet hcalm rfl fun _ => hmode

theorem reaping_sigchld {vars : MonitorVars} (hmode : φ.mode = .reaping)
    (hlast : vars.siginfo = φ.last) :
    Conforms reaping Ends φ (monitorSignal vars .sigchld).run := by
  rw [monitorSignal, Proc.run_make_bind]
  refine ⟨hmode, fun r _ => ?_⟩
  show Conforms reaping Ends { φ with mode := .childless } _
  have hcalm : ({ φ with mode := .childless } : Round).Calm := ⟨by simp, by simp⟩
  dsimp only
  generalize wexitstatus _ = status
  have hrests : ({ φ with mode := .childless } : Round).Rests (.monitor { vars with
    needStart := true, status := status }) := ⟨hlast, .inl ⟨rfl, rfl⟩⟩
  by_cases hterminate : status = childNeedTerminate
  · rw [if_pos hterminate]
    refine reaping_quiet hcalm rfl fun _ => reaping_quiet hcalm rfl fun _ => ?_
    exact reaping_daemonExit (.inl rfl)
  · rw [if_neg hterminate]
    by_cases hwork : status = childNeedWork
    · rw [if_pos hwork]
      exact reaping_quiet hcalm rfl fun _ => hrests
    · rw [if_neg hwork]
      exact hrests

theorem reaping_sighup {vars : MonitorVars} (hmode : φ.mode = .waiting)
    (hlast : vars.siginfo = φ.last) (hpid : 0 < vars.pid) :
    Conforms reaping Ends φ (monitorSignal vars .sighup).run := by
  have hcalm : φ.Calm := ⟨by simp [hmode], by simp [hmode]⟩
  have hend : Conforms reaping Ends φ (do
      killOrLog vars.pid .sighup "Couldn't send SIGHUP to child process"
      return .monitor { vars with needStart := false } : Proc Next).run :=
    reaping_killOrLog hcalm ⟨hlast, .inr ⟨rfl, hpid, hmode⟩⟩
  rw [monitorSignal, Proc.conforms_bind]
  refine (ignored_reloadConfig fun c hc => ignores_quiet hcalm ?_).mono fun ψ r hdone => ?_
  · cases c with
    | fopen | fread | loadConfig | fault => rfl
    | _ => exact absurd hc id
  · obtain ⟨rfl, ret, rfl⟩ := hdone
    dsimp only
    split
    · exact reaping_quiet hcalm rfl fun _ => hend
    · exact reaping_quiet hcalm rfl fun _ => hend

theorem reaping_stop {vars : MonitorVars} {signal : Signal} (hmode : φ.mode = .leaving)
    (hchld : signal ≠ .sigchld) (hhup : signal ≠ .sighup) :
    Conforms reaping Ends φ (monitorSignal vars signal).run := by
  have hcalm : φ.Calm := ⟨by simp [hmode], by simp [hmode]⟩
  have hstop : Conforms reaping Ends φ (do
      Proc.log "Received signal {}" [signal.name]
      killOrLog vars.pid .sigterm "Couldn't send SIGTERM to child process"
      Proc.log "Stop" []
      daemonExit : Proc Next).run := by
    refine reaping_quiet hcalm rfl fun _ => reaping_killOrLog hcalm ?_
    exact reaping_quiet hcalm rfl fun _ => reaping_daemonExit (.inr hmode)
  cases signal with
  | sigchld => exact absurd rfl hchld
  | sighup => exact absurd rfl hhup
  | _ => exact hstop

/-- The signal in `siginfo` is dealt with, whether it has just come or not. -/
theorem reaping_monitorSignal {vars : MonitorVars} {signal : Signal} (hlast : φ.last = some signal)
    (hmode : φ.mode = .acts φ.last) (hvars : vars.siginfo = some signal) (hpid : 0 < vars.pid) :
    Conforms reaping Ends φ (monitorSignal vars signal).run := by
  have hsame : vars.siginfo = φ.last := hvars.trans hlast.symm
  rw [hlast] at hmode
  by_cases hchld : signal = .sigchld
  · subst hchld
    exact reaping_sigchld hmode hsame
  by_cases hhup : signal = .sighup
  · subst hhup
    exact reaping_sighup hmode hsame hpid
  refine reaping_stop (hmode.trans ?_) hchld hhup
  cases signal with
  | sigchld => exact absurd rfl hchld
  | sighup => exact absurd rfl hhup
  | _ => rfl

theorem reaping_monitorWait {vars : MonitorVars} (hmode : φ.mode = .waiting)
    (hlast : vars.siginfo = φ.last) (hpid : 0 < vars.pid) :
    Conforms reaping Ends φ (monitorWait vars).run := by
  rw [monitorWait, Proc.run_make_bind]
  refine ⟨⟨hmode, rfl⟩, fun r hr => ?_⟩
  cases r with
  | ok signal => exact reaping_monitorSignal rfl rfl rfl hpid
  | error e =>
      have hold : Conforms reaping Ends ⟨φ.last, .acts φ.last⟩ (oldSignal vars).run := by
        rw [oldSignal, hlast]
        cases hφ : φ.last with
        | none =>
            have hcalm : (⟨none, .acts none⟩ : Round).Calm :=
              ⟨by simp [RoundMode.acts], by simp [RoundMode.acts]⟩
            exact reaping_quiet hcalm rfl fun r => r.elim
        | some signal => exact reaping_monitorSignal rfl rfl (hlast.trans hφ) hpid
      have herring : RoundMode.erring ≠ .reaping := by simp
      exact ⟨herring, fun r _ => hold⟩

theorem reaping_monitorLoop {vars : MonitorVars} (h : φ.Rests (.monitor vars)) :
    Conforms reaping Ends φ (monitorLoop vars).run := by
  rcases h with ⟨hlast, ⟨hneed, hmode⟩ | ⟨hneed, hpid, hmode⟩⟩
  · rw [monitorLoop, if_pos hneed, bind_map_left, Proc.run_make_bind]
    refine ⟨hmode, fun r hr => ?_⟩
    cases r with
    | failed e =>
        have hcalm : ({ φ with mode := .leaving } : Round).Calm := ⟨by simp, by simp⟩
        exact reaping_quiet hcalm rfl fun _ => .inr rfl
    | child => exact absurd hr id
    | parent pid =>
        have hpos : 0 < pid := hr
        show Conforms reaping Ends { φ with mode := .waiting } (if (pid : Int) = -1 then _
          else if (pid : Int) = 0 then masterStart
          else monitorWait { vars with pid := pid } : Proc Next).run
        rw [if_neg (by omega), if_neg (by omega)]
        exact reaping_monitorWait rfl hlast (by show (0 : Int) < pid; omega)
  · rw [Listener.monitorLoop_waits hneed hpid]
    exact reaping_monitorWait hmode hlast hpid

theorem reaping_program {code : Proc Next} (h : Conforms reaping Ends φ code.run) :
    Conforms reaping Rests φ code.program := by
  refine Program.Conforms.seq h fun ψ r hr => ?_
  cases r with
  | ok next => exact hr
  | error code => exact hr

end Round

/-! ## Runs -/

/-- What the kernel tells the parent of a child. -/
inductive Change where
  | stopped
  | continued
  | terminated (status : WaitStatus)
  deriving DecidableEq, Repr

/-- The life of a master until it is reaped. -/
inductive MasterLife where
  | running
  | stopped
  | terminated (status : WaitStatus)
  deriving DecidableEq, Repr

def MasterLife.after : MasterLife → Change → Option MasterLife
  | running, .stopped => some stopped
  | stopped, .continued => some running
  | running, .terminated status | stopped, .terminated status => some (terminated status)
  | _, _ => none

/-- A monitor with its master. The signals that are pending for it are those in `pending`, and a
SIGCHLD for the changes of its master in `news` or, when it is `stale`, for one before. -/
structure Keeper where
  code : Sys Next
  round : Round
  master : Option MasterLife
  pending : List Signal
  news : List Change
  stale : Bool

namespace Keeper

open Pair (answer resume answer_eq_some resume_eq_some)

/-- The monitor gets this answer to its call or goes round its loop; somebody sends it a signal; a
change in the life of the master raises a SIGCHLD. -/
inductive Action where
  | call (e : Event)
  | loop
  | send (signal : Signal)
  | change (c : Change)

/-- What a call of the monitor does besides. `sigwaitinfo` takes a pending signal, or fails; `wait`
reaps a master that has terminated, and blocks as long as it has not. -/
def effect (k : Keeper) : Event → Option Keeper
  | ⟨.fork, .parent _⟩ => some { k with master := some .running }
  | ⟨.sigwaitinfo _, .ok .sigchld⟩ =>
      if k.news ≠ [] ∨ k.stale = true then some { k with news := [], stale := false } else none
  | ⟨.sigwaitinfo _, .ok signal⟩ =>
      if signal ∈ k.pending then some { k with pending := k.pending.filter (· ≠ signal) } else none
  | ⟨.wait, .ok raw⟩ => match k.master with
      | some (.terminated status) =>
          if raw = status.raw then
            some { k with master := none, news := [], stale := k.stale || !k.news.isEmpty }
          else
            none
      | _ => none
  | ⟨.wait, .error _⟩ => none
  | _ => some k

def step (k : Keeper) : Action → Option Keeper
  | .call e => do
      let code ← answer k.code e
      let k' ← k.effect e
      if Told e then some { k' with code := code, round := k.round.after e } else none
  | .loop => do
      let code ← resume k.code
      some { k with code := code }
  | .send signal => if signal = .sigchld then none else some { k with pending := k.pending.insert signal }
  | .change c => do
      let life ← (← k.master).after c
      some { k with master := some life, news := k.news ++ [c] }

/-- A monitor at the start of `monitor_proc`. -/
def start : Keeper := ⟨monitorProc.program, ⟨none, .childless⟩, none, [], [], false⟩

/-- A call of `wait` does not block: the master has terminated. -/
def Unblocked (k : Keeper) : Prop :=
  ∀ next, k.code = .call .wait next → ∃ status, k.master = some (.terminated status)

/-- A SIGCHLD is pending, and the end of the master is among its causes. -/
def Tells (k : Keeper) : Prop := ∃ c ∈ k.news, ∃ status, c = .terminated status

instance (k : Keeper) : Decidable k.Tells :=
  have : DecidablePred fun c : Change => ∃ status, c = .terminated status
    | .stopped | .continued => .isFalse nofun
    | .terminated status => .isTrue ⟨status, rfl⟩
  inferInstanceAs (Decidable (∃ c ∈ k.news, ∃ status, c = .terminated status))

/-- The monitor takes no SIGCHLD but one that tells of the end of its master; and after a
`sigwaitinfo` that has failed, where the signal before was a SIGCHLD, such a one is pending once the
error has been reported. -/
def Timely (k : Keeper) : Action → Prop
  | .call ⟨.sigwaitinfo _, .ok .sigchld⟩ => k.Tells
  | .call ⟨.print _ _ _, _⟩ => k.round = ⟨some .sigchld, .erring⟩ → k.Tells
  | _ => True

instance (k : Keeper) (a : Action) : Decidable (k.Timely a) := by
  unfold Timely
  split <;> infer_instance

/-- The master and its SIGCHLD fit what the monitor does. -/
def Fits (k : Keeper) : RoundMode → Prop
  | .childless => k.master = none ∧ k.news = []
  | .waiting | .erring => ∃ life, k.master = some life ∧
      ((∃ status, life = .terminated status) ↔ k.Tells)
  | .reaping | .leaving => True

structure Kept (k : Keeper) : Prop where
  conforms : Conforms reaping Round.Rests k.round k.code
  fits : k.Fits k.round.mode

variable {k k' : Keeper}

theorem Fits.congr {mode : RoundMode} (h : k.Fits mode) (hmaster : k'.master = k.master)
    (hnews : k'.news = k.news) : k'.Fits mode := by
  have htells : k'.Tells ↔ k.Tells := by rw [Tells, Tells, hnews]
  cases mode with
  | childless => exact ⟨hmaster.trans h.1, hnews.trans h.2⟩
  | waiting | erring =>
      obtain ⟨life, hlife, hiff⟩ := h
      exact ⟨life, hmaster.trans hlife, hiff.trans htells.symm⟩
  | reaping | leaving => trivial

theorem kept_start : start.Kept := by
  refine ⟨Round.reaping_program ?_, rfl, rfl⟩
  have hcalm : start.round.Calm := ⟨by simp [start], by simp [start]⟩
  rw [monitorProc, Proc.run_make_bind]
  exact Round.reaping_quiet hcalm rfl fun _ => ⟨rfl, .inl ⟨rfl, rfl⟩⟩

/-- A monitor is at its `wait` exactly when it is to reap its master. -/
theorem waits_iff (h : k.Kept) : (∃ next, k.code = .call .wait next) ↔ k.round.mode = .reaping := by
  obtain ⟨hconforms, -⟩ := h
  constructor
  · rintro ⟨next, hcode⟩
    rw [hcode] at hconforms
    exact hconforms.1
  · intro hmode
    cases hcode : k.code with
    | ret next =>
        rw [hcode] at hconforms
        cases next with
        | exit code => simp [Round.Rests, hmode] at hconforms
        | monitor vars => simp [Round.Rests, hmode] at hconforms
        | work => exact absurd hconforms id
    | call c next =>
        rw [hcode] at hconforms
        cases c with
        | wait => exact ⟨next, rfl⟩
        | fork => exact absurd (hmode.symm.trans hconforms.1) nofun
        | sigwaitinfo set => exact absurd (hmode.symm.trans hconforms.1.1) nofun
        | print stream format args => exact absurd hmode hconforms.1
        | _ => exact absurd hmode hconforms.1.2

theorem unblocked_iff_reaping (h : k.Kept) : k.Unblocked ↔
    (k.round.mode = .reaping → ∃ status, k.master = some (.terminated status)) := by
  rw [← waits_iff h]
  exact ⟨fun hk ⟨next, hcode⟩ => hk next hcode, fun hk next hcode => hk ⟨next, hcode⟩⟩

/-- A call of the monitor that is answered. -/
theorem call_step {e : Event} (h : k.step (.call e) = some k') :
    ∃ (next : Response e.1 → Sys Next) (t : Keeper), k.code = .call e.1 next ∧ k.effect e = some t ∧
      Told e ∧ k' = { t with code := next e.2, round := k.round.after e } := by
  obtain ⟨code, hanswer, hrest⟩ := Option.bind_eq_some_iff.mp h
  obtain ⟨t, heffect, hrest⟩ := Option.bind_eq_some_iff.mp hrest
  obtain ⟨next, hcode, rfl⟩ := answer_eq_some hanswer
  split_ifs at hrest with htold
  exact ⟨next, t, hcode, heffect, htold, (Option.some.inj hrest).symm⟩

theorem change_step {c : Change} (h : k.step (.change c) = some k') : ∃ life life' : MasterLife,
    k.master = some life ∧ life.after c = some life' ∧
      k' = { k with master := some life', news := k.news ++ [c] } := by
  obtain ⟨life, hlife, hrest⟩ := Option.bind_eq_some_iff.mp h
  obtain ⟨life', hafter, hk'⟩ := Option.bind_eq_some_iff.mp hrest
  exact ⟨life, life', hlife, hafter, (Option.some.inj hk').symm⟩

/-- The life of a master ends with the change that says so. -/
theorem terminated_after {life life' : MasterLife} {c : Change} (h : life.after c = some life') :
    (¬∃ status, life = .terminated status) ∧
      ((∃ status, life' = .terminated status) ↔ ∃ status, c = .terminated status) := by
  cases life <;> cases c <;> cases h <;> simp

/-- Signals but SIGCHLD do not concern the master. -/
theorem effect_signal {set : List Signal} {signal : Signal} {t : Keeper} (hchld : signal ≠ .sigchld)
    (h : k.effect ⟨.sigwaitinfo set, .ok signal⟩ = some t) :
    t.master = k.master ∧ t.news = k.news ∧ t.stale = k.stale := by
  cases signal with
  | sigchld => exact absurd rfl hchld
  | _ =>
      rw [effect] at h
      · split_ifs at h
        cases h
        exact ⟨rfl, rfl, rfl⟩
      · exact nofun

theorem effect_wait {r : Response .wait} {t : Keeper} (h : k.effect ⟨.wait, r⟩ = some t) :
    t.master = none ∧ t.news = [] := by
  cases r with
  | error e => cases h
  | ok raw =>
      rw [effect] at h
      split at h
      · split_ifs at h
        cases h
        exact ⟨rfl, rfl⟩
      · cases h

theorem effect_quiet {c : Call} {r : Response c} {t : Keeper} (hc : c.quiet = true)
    (h : k.effect ⟨c, r⟩ = some t) : t = k := by
  cases c with
  | fork | sigwaitinfo | wait => cases hc
  | _ => exact (Option.some.inj h).symm

/-- What the monitor goes on to do about a signal fits, as waiting for one does. -/
theorem fits_acts {last : Option Signal} (h : k.Fits .waiting) : k.Fits (.acts last) := by
  cases last with
  | none => trivial
  | some signal => cases signal with
      | sighup => exact h
      | _ => trivial

theorem fits_call {e : Event} {next : Response e.1 → Sys Next} {t : Keeper} (h : k.Kept)
    (hcode : k.code = .call e.1 next) (heffect : k.effect e = some t) (htold : Told e) :
    t.Fits (k.round.after e).mode := by
  obtain ⟨hconforms, hfits⟩ := h
  rw [hcode] at hconforms
  have hallows : k.round.allows e.1 := hconforms.1
  obtain ⟨c, r⟩ := e
  cases c with
  | fork => cases r with
      | failed e => trivial
      | child => exact absurd htold id
      | parent pid =>
          cases heffect
          rw [show k.round.mode = .childless from hallows] at hfits
          -- a new master runs, and no news is left of the one before
          refine ⟨.running, rfl, iff_of_false nofun ?_⟩
          rintro ⟨c, hc, -⟩
          exact absurd (hfits.2 ▸ hc) List.not_mem_nil
  | wait => exact effect_wait heffect
  | sigwaitinfo set =>
      rw [hallows.1] at hfits
      cases r with
      | error e =>
          cases heffect
          exact hfits
      | ok signal =>
          by_cases hchld : signal = .sigchld
          · subst hchld
            trivial
          · obtain ⟨hmaster, hnews, -⟩ := effect_signal hchld heffect
            exact fits_acts (hfits.congr hmaster hnews)
  | print stream format args =>
      rw [effect_quiet rfl heffect]
      -- after the report of an error the signal before it is acted on
      by_cases herring : k.round.mode = .erring
      · rw [show k.round.after ⟨.print stream format args, r⟩ = _ from if_pos herring]
        rw [herring] at hfits
        exact fits_acts hfits
      · rw [show k.round.after ⟨.print stream format args, r⟩ = _ from if_neg herring]
        exact hfits
  | _ =>
      rw [effect_quiet rfl heffect]
      exact hfits

theorem fits_change {c : Change} {life life' : MasterLife} (hlife : k.master = some life)
    (hafter : life.after c = some life') {mode : RoundMode} (h : k.Fits mode) :
    ({ k with master := some life', news := k.news ++ [c] } : Keeper).Fits mode := by
  obtain ⟨hlived, hends⟩ := terminated_after hafter
  have hwaits : k.Fits .waiting →
      ({ k with master := some life', news := k.news ++ [c] } : Keeper).Fits .waiting := by
    rintro ⟨life, hsame, hiff⟩
    obtain rfl := Option.some.inj (hlife.symm.trans hsame)
    refine ⟨life', rfl, hends.trans ?_⟩
    have hnone : ¬k.Tells := fun htells => hlived (hiff.mpr htells)
    constructor
    · exact fun hstatus => ⟨c, List.mem_append_right _ (List.mem_singleton_self c), hstatus⟩
    · rintro ⟨c', hc', hstatus⟩
      rcases List.mem_append.mp hc' with hold | hnew
      · exact absurd ⟨c', hold, hstatus⟩ hnone
      · exact List.mem_singleton.mp hnew ▸ hstatus
  cases mode with
  | childless => exact absurd (hlife.symm.trans h.1) nofun
  | waiting | erring => exact hwaits h
  | reaping | leaving => trivial

theorem kept_step {a : Action} (h : k.Kept) (hstep : k.step a = some k') : k'.Kept := by
  cases a with
  | call e =>
      obtain ⟨next, t, hcode, heffect, htold, rfl⟩ := call_step hstep
      refine ⟨?_, (fits_call h hcode heffect htold).congr rfl rfl⟩
      have hconforms := h.conforms
      rw [hcode] at hconforms
      exact hconforms.2 e.2 htold
  | loop =>
      obtain ⟨code, hresume, hk'⟩ := Option.bind_eq_some_iff.mp hstep
      obtain ⟨next, hcode, hnext⟩ := resume_eq_some hresume
      cases hk'
      refine ⟨?_, h.fits.congr rfl rfl⟩
      have hconforms := h.conforms
      rw [hcode] at hconforms
      cases next with
      | exit code => cases hnext
      | work => exact absurd hconforms id
      | monitor vars =>
          cases hnext
          exact Round.reaping_program (Round.reaping_monitorLoop hconforms)
  | send signal =>
      rw [step] at hstep
      split_ifs at hstep
      cases hstep
      exact ⟨h.conforms, h.fits.congr rfl rfl⟩
  | change c =>
      obtain ⟨life, life', hlife, hafter, rfl⟩ := change_step hstep
      exact ⟨h.conforms, fits_change hlife hafter h.fits⟩

/-- Where the monitor has a master, its end is told of by a pending SIGCHLD. -/
theorem terminated_iff_tells (h : k.Kept) (hmode : k.round.mode = .waiting ∨ k.round.mode = .erring) :
    (∃ status, k.master = some (.terminated status)) ↔ k.Tells := by
  have hfits : k.Fits .waiting := by
    rcases hmode with hmode | hmode
    · exact hmode ▸ h.fits
    · have herring := h.fits
      rw [hmode] at herring
      exact herring
  obtain ⟨life, hlife, hiff⟩ := hfits
  rw [hlife, ← hiff]
  simp

/-- A monitor that is not to reap its master makes no call that blocks. -/
theorem unblocked_of_mode (h : k.Kept) (hmode : k.round.mode ≠ .reaping) : k.Unblocked :=
  (unblocked_iff_reaping h).mpr fun hreaping => absurd hreaping hmode

theorem acts_eq_reaping {last : Option Signal} : RoundMode.acts last = .reaping ↔ last = some .sigchld := by
  cases last with
  | none => simp [RoundMode.acts]
  | some signal => cases signal <;> simp [RoundMode.acts]

theorem acts_ne_erring {last : Option Signal} : RoundMode.acts last ≠ .erring := by
  cases last with
  | none => nofun
  | some signal => cases signal <;> nofun

theorem unblocked_call_iff {e : Event} (h : k.Kept) (hstep : k.step (.call e) = some k') :
    k'.Unblocked ↔ k.Timely (.call e) := by
  have hk' := kept_step h hstep
  obtain ⟨next, t, hcode, heffect, htold, rfl⟩ := call_step hstep
  have hconforms := h.conforms
  rw [hcode] at hconforms
  have hallows : k.round.allows e.1 := hconforms.1
  have helse : (k.round.after e).mode ≠ .reaping → k.Timely (.call e) →
      (({ t with code := next e.2, round := k.round.after e } : Keeper).Unblocked ↔
        k.Timely (.call e)) :=
    fun hmode htimely => iff_of_true (unblocked_of_mode hk' hmode) htimely
  obtain ⟨c, r⟩ := e
  cases c with
  | fork => cases r with
      | child => exact absurd htold id
      | failed e => exact helse nofun trivial
      | parent pid => exact helse nofun trivial
  | wait => exact helse nofun trivial
  -- only a SIGCHLD leads to the `wait`
  | sigwaitinfo set => cases r with
      | error e => exact helse nofun trivial
      | ok signal =>
          by_cases hchld : signal = .sigchld
          · subst hchld
            rw [effect] at heffect
            split_ifs at heffect
            cases heffect
            rw [unblocked_iff_reaping hk']
            exact ⟨fun hk => (terminated_iff_tells h (.inl hallows.1)).mp (hk rfl),
              fun htells _ => (terminated_iff_tells h (.inl hallows.1)).mpr htells⟩
          · refine helse (fun hmode => ?_) ?_
            · exact hchld (Option.some.inj (acts_eq_reaping.mp hmode))
            · cases signal with
              | sigchld => exact absurd rfl hchld
              | _ => trivial
  | print stream format args =>
      rw [effect_quiet rfl heffect] at hk' ⊢
      have hround : k.round.after ⟨.print stream format args, r⟩ =
        if k.round.mode = .erring then { k.round with mode := .acts k.round.last } else k.round := rfl
      -- the report of a failed `sigwaitinfo`, with a SIGCHLD from before
      by_cases hwait : k.round = ⟨some .sigchld, .erring⟩
      · rw [unblocked_iff_reaping hk', hround]
        have hmode : k.round.mode = .erring := by rw [hwait]
        have htells := terminated_iff_tells h (.inr hmode)
        rw [if_pos hmode, hwait]
        exact ⟨fun hk _ => htells.mp (hk rfl), fun hk _ => htells.mpr (hk hwait)⟩
      · rw [effect_quiet rfl heffect] at helse
        refine helse (fun hmode => hwait ?_) fun hcontra => absurd hcontra hwait
        rw [hround] at hmode
        by_cases herring : k.round.mode = .erring
        · rw [if_pos herring] at hmode
          have hlast := acts_eq_reaping.mp hmode
          generalize k.round = φ at hlast herring
          cases φ
          cases hlast
          cases herring
          rfl
        · rw [if_neg herring] at hmode
          exact absurd hmode hallows
  | _ => exact helse hallows.2 trivial

theorem unblocked_step_iff {a : Action} (h : k.Kept) (hk : k.Unblocked) (hstep : k.step a = some k') :
    k'.Unblocked ↔ k.Timely a := by
  cases a with
  | call e => exact unblocked_call_iff h hstep
  | loop =>
      refine iff_of_true (unblocked_of_mode (kept_step h hstep) ?_) trivial
      obtain ⟨code, hresume, hk'⟩ := Option.bind_eq_some_iff.mp hstep
      obtain ⟨next, hcode, hnext⟩ := resume_eq_some hresume
      cases hk'
      intro hmode
      obtain ⟨next', hwait⟩ := (waits_iff h).mpr hmode
      exact absurd (hcode.symm.trans hwait) nofun
  | send signal =>
      rw [step] at hstep
      split_ifs at hstep
      cases hstep
      exact iff_of_true hk trivial
  | change c =>
      obtain ⟨life, life', hlife, hafter, rfl⟩ := change_step hstep
      refine iff_of_true (fun next hcode => ?_) trivial
      obtain ⟨status, hended⟩ := hk next hcode
      exact absurd ⟨status, Option.some.inj (hlife.symm.trans hended)⟩ (terminated_after hafter).1

/-- The monitor never comes to a `wait` that blocks in exactly those runs whose SIGCHLDs tell it of
the end of its master. -/
theorem unblocked_iff (actions : List Action) : Machine.Always step Unblocked start actions ↔
    Machine.Along step (fun k a => (k.step a).isSome = true → k.Timely a) start actions := by
  refine Machine.always_iff_along (I := Kept) ?_ ?_ kept_start (unblocked_of_mode kept_start nofun)
  · exact fun k a k' h _ hstep _ => kept_step h hstep
  · exact fun k a k' h hk hstep => unblocked_step_iff h hk hstep

/-- A monitor whose master is stopped. -/
def suspended : List Action := [
  .call ⟨.sigprocmask monitorSignals, ()⟩,
  .loop,
  .call ⟨.fork, .parent 4322⟩,
  .change .stopped,
  .send .sigterm,
  .call ⟨.sigwaitinfo monitorSignals, .ok .sigchld⟩]

/-- It waits for the master, and not for the SIGTERM that is pending. -/
theorem suspended_blocks : ¬ ∀ actions, Machine.Always step Unblocked start actions := by
  intro hall
  have halong := (Machine.always_iff_along (I := Kept)
    (fun k a k' h _ hstep _ => kept_step h hstep)
    (fun k a k' h hk hstep => unblocked_step_iff h hk hstep)
    kept_start (unblocked_of_mode kept_start nofun)).mp (hall suspended)
  revert halong
  decide +kernel

/-! ## Masters that are never stopped -/

/-- No master is stopped, and no `sigwaitinfo` fails. -/
def Undisturbed : Action → Prop
  | .call e => ¬Fails e
  | .change c => c ≠ .stopped
  | .loop | .send _ => True

/-- All that the monitor is yet to be told is the end of its master. -/
structure Fresh (k : Keeper) : Prop where
  stale : k.stale = false
  sound : k.round.mode ≠ .erring
  unstopped : k.master ≠ some .stopped
  ends : ∀ c ∈ k.news, ∃ status, c = .terminated status
  taken : k.round.mode = .reaping → k.news = []

theorem Fresh.timely {a : Action} (h : k.Fresh) (hstep : k.step a = some k') : k.Timely a := by
  cases a with
  | loop | send | change => trivial
  | call e =>
      obtain ⟨next, t, -, heffect, -, -⟩ := call_step hstep
      obtain ⟨c, r⟩ := e
      cases c with
      | print => exact fun hround => absurd (congrArg Round.mode hround) h.sound
      | sigwaitinfo set => cases r with
          | error e => trivial
          | ok signal => cases signal with
              | sigchld =>
                  rw [effect] at heffect
                  split_ifs at heffect with hpending
                  rcases hpending with hnews | hstale
                  · obtain ⟨c, hc⟩ := List.exists_mem_of_ne_nil _ hnews
                    exact ⟨c, hc, h.ends c hc⟩
                  · exact absurd (h.stale.symm.trans hstale) Bool.false_ne_true
              | _ => trivial
      | _ => trivial

theorem fresh_call {e : Event} (h : k.Kept) (hfresh : k.Fresh) (hsound : ¬Fails e)
    (hstep : k.step (.call e) = some k') : k'.Fresh := by
  obtain ⟨next, t, hcode, heffect, htold, rfl⟩ := call_step hstep
  have hconforms := h.conforms
  rw [hcode] at hconforms
  have hallows : k.round.allows e.1 := hconforms.1
  obtain ⟨c, r⟩ := e
  cases c with
  | fork => cases r with
      | child => exact absurd htold id
      | failed e =>
          cases heffect
          exact ⟨hfresh.stale, nofun, hfresh.unstopped, hfresh.ends, nofun⟩
      | parent pid =>
          cases heffect
          exact ⟨hfresh.stale, nofun, nofun, hfresh.ends, nofun⟩
  | wait =>
      -- the SIGCHLD that was taken has told of all there was
      have hnews := hfresh.taken hallows
      cases r with
      | error e => cases heffect
      | ok raw =>
          rw [effect] at heffect
          split at heffect
          · split_ifs at heffect
            cases heffect
            refine ⟨?_, nofun, nofun, nofun, nofun⟩
            simp [hfresh.stale, hnews]
          · cases heffect
  | sigwaitinfo set => cases r with
      | error e => exact absurd trivial hsound
      | ok signal =>
          by_cases hchld : signal = .sigchld
          · subst hchld
            rw [effect] at heffect
            split_ifs at heffect
            cases heffect
            exact ⟨rfl, nofun, hfresh.unstopped, nofun, fun _ => rfl⟩
          · obtain ⟨hmaster, hnews, hstale⟩ := effect_signal hchld heffect
            refine ⟨hstale.trans hfresh.stale, acts_ne_erring, ?_, ?_, fun hmode => ?_⟩
            · exact fun hstopped => hfresh.unstopped (hmaster.symm.trans hstopped)
            · exact fun c hc => hfresh.ends c (hnews ▸ hc)
            · exact absurd (Option.some.inj (acts_eq_reaping.mp hmode)) hchld
  | print stream format args =>
      rw [effect_quiet rfl heffect]
      have hround : k.round.after ⟨.print stream format args, r⟩ = k.round := if_neg hfresh.sound
      rw [hround]
      exact ⟨hfresh.stale, hfresh.sound, hfresh.unstopped, hfresh.ends, hfresh.taken⟩
  | _ =>
      rw [effect_quiet rfl heffect]
      exact ⟨hfresh.stale, hfresh.sound, hfresh.unstopped, hfresh.ends, hfresh.taken⟩

theorem fresh_change {c : Change} {life life' : MasterLife} (hfresh : k.Fresh) (hk : k.Unblocked)
    (h : k.Kept) (hc : c ≠ .stopped) (hlife : k.master = some life) (hafter : life.after c = some life') :
    ({ k with master := some life', news := k.news ++ [c] } : Keeper).Fresh := by
  have hends : life' ≠ .stopped ∧ ∃ status, c = .terminated status := by
    cases c with
    | stopped => exact absurd rfl hc
    | continued => cases life with
        | stopped => exact absurd hlife hfresh.unstopped
        | _ => cases hafter
    | terminated status => cases life <;> cases hafter <;> exact ⟨nofun, status, rfl⟩
  refine ⟨hfresh.stale, hfresh.sound, fun hstopped => ?_, fun c' hc' => ?_, fun hmode => ?_⟩
  · exact hends.1 (Option.some.inj hstopped)
  · rcases List.mem_append.mp hc' with hold | hnew
    · exact hfresh.ends c' hold
    · exact List.mem_singleton.mp hnew ▸ hends.2
  · -- A master that is to be reaped has terminated already.
    obtain ⟨status, hended⟩ := (unblocked_iff_reaping h).mp hk hmode
    exact absurd ⟨status, Option.some.inj (hlife.symm.trans hended)⟩ (terminated_after hafter).1

theorem fresh_step {a : Action} (h : k.Kept) (hk : k.Unblocked) (hfresh : k.Fresh) (ha : Undisturbed a)
    (hstep : k.step a = some k') : k'.Fresh := by
  cases a with
  | call e => exact fresh_call h hfresh ha hstep
  | loop =>
      obtain ⟨code, -, hk'⟩ := Option.bind_eq_some_iff.mp hstep
      cases hk'
      exact ⟨hfresh.stale, hfresh.sound, hfresh.unstopped, hfresh.ends, hfresh.taken⟩
  | send signal =>
      rw [step] at hstep
      split_ifs at hstep
      cases hstep
      exact ⟨hfresh.stale, hfresh.sound, hfresh.unstopped, hfresh.ends, hfresh.taken⟩
  | change c =>
      obtain ⟨life, life', hlife, hafter, rfl⟩ := change_step hstep
      exact fresh_change hfresh hk h ha hlife hafter

/-- A monitor whose masters are never stopped, and whose `sigwaitinfo` never fails, is never
stuck. -/
theorem unblocked_of_undisturbed {actions : List Action} (h : ∀ a ∈ actions, Undisturbed a) :
    Machine.Always step Unblocked start actions := by
  have hstart : start.Kept ∧ start.Unblocked ∧ start.Fresh :=
    ⟨kept_start, unblocked_of_mode kept_start nofun, rfl, nofun, nofun, nofun, nofun⟩
  have halways : Machine.Always step (fun k => k.Kept ∧ k.Unblocked ∧ k.Fresh) start actions := by
    refine Machine.Along.always ?_ hstart (Machine.along_of_forall h)
    rintro k a k' ⟨hkept, hk, hfresh⟩ ha hstep
    exact ⟨kept_step hkept hstep, (unblocked_step_iff hkept hk hstep).mpr (hfresh.timely hstep),
      fresh_step hkept hk hfresh ha hstep⟩
  exact halways.mono fun k hk => hk.2.1

end Keeper

end Robotd
