import Robotd.Daemon.Duty
import Robotd.Daemon.Supervision
import Robotd.Lib.Machine

/-!
# The monitor and the ends of its masters

A machine of two processes: the monitor in `monitor_proc` and the master that it has forked. The
master may fail in every way that its code and its system allow: in a call, with an exception or a
signal at any moment, and in the handler of a signal. `fail_stop` says when the monitor of a build
with `DEBUG` ends after that and forks no other master.
-/

namespace Robotd

open Lib Lib.CLib
open Lib.Program (Conforms)

/-- A live master: its code to come, whether its handlers are set, and whether it has been told to
stop. -/
structure MasterProcess where
  code : Sys Next
  handlers : Bool
  stopped : Bool

/-- The child of a monitor. -/
inductive Child where
  | live (master : MasterProcess)
  | ended (status : WaitStatus)

/-- A monitor and its child: the code of the monitor unless it was killed, whether it has got a
signal that ends it, the child until it is reaped, whether a SIGCHLD is pending, and whether some
master has ended abnormally. -/
structure Pair where
  monitor : Option (Sys Next)
  leaving : Bool
  child : Option Child
  sigchld : Bool
  failed : Bool

/-- The master after a call. -/
def MasterProcess.after (m : MasterProcess) (code : Sys Next) : Event → Option MasterProcess
  | ⟨.setup .signalHandlers, .ok _⟩ => some { m with code := code, handlers := true }
  | ⟨.sigwaitinfo set, .ok signal⟩ =>
      if signal ∈ set then
        some { m with code := code, stopped := m.stopped || signal = .sigterm }
      else
        none
  | ⟨.sigwaitinfo _, .error _⟩ => none
  | ⟨.registerServices, _⟩ => none
  | _ => some { m with code := code }

namespace Pair

/-- What happens next: the monitor makes a call and gets this answer, goes on with its loop, or is
killed; a SIGCHLD comes that tells of no end; the master makes a call, registers its services, goes
on with its loop, exits, gets a signal that it handles, or dies of a signal, as it does of an
exception that nothing catches. -/
inductive Action where
  | monitor (e : Event)
  | monitorLoop
  | monitorKilled
  | notice
  | master (e : Event)
  | register (failing : List Opening)
  | masterLoop
  | exit
  | crash (signal : ErrorSignal) (report : Crash)
  | killed (signal : Fin 127) (core : Bool)

/-- A process gets the response to its call. -/
def answer : Sys Next → Event → Option (Sys Next)
  | .call c next, e => if h : e.1 = c then some (next (h ▸ e.2)) else none
  | .ret _, _ => none

/-- The next round of a process in its loop. -/
def resume : Sys Next → Option (Sys Next)
  | .ret next => next.resume
  | .call _ _ => none

/-- What a call of the monitor with this code does besides. -/
def effect (s : Pair) (code : Sys Next) : Event → Option Pair
  | ⟨.fork, .parent pid⟩ =>
      if 0 < pid then
        (answer code ⟨.fork, .child⟩).map fun child =>
          { s with child := some (.live ⟨child, false, false⟩) }
      else
        none
  | ⟨.fork, .child⟩ => none
  | ⟨.sigwaitinfo set, .ok signal⟩ =>
      if signal ∈ set ∧ (signal = .sigchld → s.sigchld = true) then
        some { s with
          leaving := s.leaving || (signal ≠ .sighup && signal ≠ .sigchld)
          sigchld := s.sigchld && signal ≠ .sigchld }
      else
        none
  | ⟨.sigwaitinfo _, .error _⟩ => none
  | ⟨.wait, .ok raw⟩ => match s.child with
      | some (.ended status) => if raw = status.raw then some { s with child := none } else none
      | _ => none
  | ⟨.wait, .error _⟩ => none
  | _ => some s

/-- The master has ended, and the monitor is told. -/
def ends (s : Pair) (status : WaitStatus) (abnormal : Bool) : Pair :=
  { s with
    child := some (.ended status)
    sigchld := true
    failed := s.failed || abnormal }

/-- What a live master does. -/
def masterStep (debug : Bool) (s : Pair) (m : MasterProcess) : Action → Option Pair
  | .master e => do
      let m' ← m.after (← answer m.code e) e
      some { s with child := some (.live m') }
  | .register failing => do
      let code ← answer m.code ⟨.registerServices, registerServices debug failing⟩
      some { s with child := some (.live { m with code := code }) }
  | .masterLoop => do
      let code ← resume m.code
      some { s with child := some (.live { m with code := code }) }
  | .exit => match m.code with
      | .ret (.exit code) => some (s.ends (.exited (Fin.ofNat 256 (code % 256).toNat)) !m.stopped)
      | _ => none
  | .crash signal report =>
      if m.handlers then
        some { s with child := some (.live ⟨(selfDebug debug signal report).program, true, false⟩) }
      else
        none
  | .killed signal core => if signal = 0 then none else some (s.ends (.signaled signal core) true)
  | _ => none

def step (debug : Bool) (s : Pair) : Action → Option Pair
  | .monitor e => do
      let code ← s.monitor
      let code' ← answer code e
      let s' ← s.effect code e
      some { s' with monitor := some code' }
  | .monitorLoop => do
      let code ← resume (← s.monitor)
      some { s with monitor := some code }
  | .monitorKilled => some { s with monitor := none }
  | .notice => some { s with sigchld := true }
  | a => match s.child with
      | some (.live m) => s.masterStep debug m a
      | _ => none

/-- A monitor at the start of `monitor_proc`. -/
def start : Pair := ⟨some monitorProc.program, false, none, false, false⟩

/-- The monitor ends when a master has ended abnormally: it forks no other one, it finds a SIGCHLD
when it awaits a signal and the master when it waits for it, and it does not go round its loop again
once it has reaped it. -/
structure FailStops (s : Pair) : Prop where
  forks : ∀ next, s.monitor ≠ some (.call .fork next)
  awaits : ∀ set next, s.monitor = some (.call (.sigwaitinfo set) next) → s.sigchld = true
  waits : ∀ next, s.monitor = some (.call .wait next) → ∃ status, s.child = some (.ended status)
  loops : ∀ vars, s.monitor = some (.ret (.monitor vars)) →
    vars.needStart = false ∧ ∃ status, s.child = some (.ended status)

/-- The monitor is on its way out, or gone. -/
def Left (s : Pair) : Prop := s.leaving = true ∨ s.monitor = none

instance (s : Pair) : Decidable s.Left :=
  decidable_of_iff (s.leaving = true ∨ s.monitor.isNone = true) (by simp [Left])

/-- A master does not die of a signal, which an exception comes to as well; the limit on the stack
can be set, the services are registered without an exception, and the handler of a signal finds a
backtrace. -/
def Action.Caught : Action → Prop
  | .master ⟨.setup .rlimitStack, r⟩ => r.isOk = true
  | .register failing => Catches failing
  | .crash _ report => report.trace ≠ []
  | .killed _ _ => False
  | _ => True

instance (a : Action) : Decidable a.Caught := by
  unfold Action.Caught
  split <;> infer_instance

/-- What a master does as long as the monitor is in its loop. -/
def Contained (s : Pair) (a : Action) : Prop := s.Left ∨ a.Caught

instance (s : Pair) (a : Action) : Decidable (s.Contained a) := inferInstanceAs (Decidable (_ ∨ _))

variable {s s' : Pair}

theorem answer_eq_some {code code' : Sys Next} {e : Event} (h : answer code e = some code') :
    ∃ next : Response e.1 → Sys Next, code = .call e.1 next ∧ code' = next e.2 := by
  cases code with
  | ret next => cases h
  | call c next =>
      obtain ⟨c', r⟩ := e
      by_cases hcall : c' = c
      · subst hcall
        rw [answer, dif_pos rfl] at h
        exact ⟨next, rfl, (Option.some.inj h).symm⟩
      · rw [answer, dif_neg hcall] at h
        cases h

theorem resume_eq_some {code code' : Sys Next} (h : resume code = some code') :
    ∃ next, code = .ret next ∧ next.resume = some code' := by
  cases code with
  | ret next => exact ⟨next, rfl, h⟩
  | call c next => cases h

/-! ## Where the monitor stands -/

/-- The monitor supervises its child: a failed master is there to be reaped. -/
def Holds (s : Pair) : Prop :=
  s.leaving = false ∧ (s.failed = true → ∃ status, s.child = some (.ended status))

/-- The state fits where the monitor stands. -/
def Fits (s : Pair) : Watch → Prop
  | .forking => s.leaving = false ∧ s.child = none ∧ s.failed = false
  | .waiting _ | .got _ .sighup =>
      s.Holds ∧ ((∃ status, s.child = some (.ended status)) → s.sigchld = true)
  | .got _ .sigchld => s.Holds
  | .got _ _ => s.leaving = true
  | .ending | .unlinked _ => True
  | .master => False

/-- A monitor stands somewhere in its protocol, or could not fork. -/
def Stands (s : Pair) (code : Sys Next) : Prop :=
  (∃ watch, s.Fits watch ∧ Conforms supervision Watch.Rests watch code ∧
    Conforms partings Part.Rests .monitor code) ∨
  Conforms partings Part.Rests .quitting code

/-- While the monitor is in its loop, a master comes to no exit code but `CHILD_NEED_TERMINATE`. -/
structure Kept (s : Pair) : Prop where
  monitor : ∀ code, s.monitor = some code → s.Stands code
  live : ∀ m, s.child = some (.live m) → s.Left ∨ ∃ duty : Duty,
    (∀ code, duty = .decided code → code = childNeedTerminate) ∧
      Conforms partings Part.Rests (.master duty) m.code
  ended : ∀ status, s.child = some (.ended status) → s.Left ∨ status = .exited 2

theorem kept_start : start.Kept := by
  refine ⟨?_, nofun, nofun⟩
  rintro code ⟨⟩
  refine .inl ⟨.forking, ⟨rfl, rfl, rfl⟩, Watcher.watched_start.conforms, ?_⟩
  exact partings_program (partings_of_only (only_seq (only_make nofun) fun _ => trivial))

/-- A call of the monitor that is answered. -/
theorem monitor_step {debug : Bool} {e : Event} (h : s.step debug (.monitor e) = some s') :
    ∃ (next : Response e.1 → Sys Next) (t : Pair), s.monitor = some (.call e.1 next) ∧
      s.effect (.call e.1 next) e = some t ∧ s' = { t with monitor := some (next e.2) } := by
  obtain ⟨code, hmonitor, hrest⟩ := Option.bind_eq_some_iff.mp h
  obtain ⟨code', hanswer, hrest⟩ := Option.bind_eq_some_iff.mp hrest
  obtain ⟨t, heffect, hs'⟩ := Option.bind_eq_some_iff.mp hrest
  obtain ⟨next, rfl, rfl⟩ := answer_eq_some hanswer
  exact ⟨next, t, hmonitor, heffect, (Option.some.inj hs').symm⟩

/-- What is answered is expected, unless a fork fails. -/
theorem expected_of_effect {code : Sys Next} {e : Event} {t : Pair} (h : s.effect code e = some t)
    (hfork : ∀ errno, e ≠ ⟨.fork, .failed errno⟩) : Expected e := by
  obtain ⟨c, r⟩ := e
  cases c with
  | fork => cases r with
      | failed errno => exact absurd rfl (hfork errno)
      | child => exact .inl rfl
      | parent pid =>
          rw [effect] at h
          split_ifs at h with hpid
          exact .inr ⟨pid, hpid, rfl⟩
  | sigwaitinfo set => cases r with
      | error errno => cases h
      | ok signal =>
          rw [effect] at h
          split_ifs at h with hsignal
          exact ⟨signal, hsignal.1, rfl⟩
  | wait => cases r with
      | error errno => cases h
      | ok raw =>
          rw [effect] at h
          split at h
          · split_ifs at h with hraw
            exact ⟨_, congrArg _ hraw⟩
          · cases h
  | _ => trivial

/-- A call in the background does nothing besides. -/
theorem effect_background {code : Sys Next} {c : Call} {r : Response c} {t : Pair}
    (hc : c.background = true) (h : s.effect code ⟨c, r⟩ = some t) : t = s := by
  cases c with
  | fork | sigwaitinfo | wait => cases hc
  | _ => exact (Option.some.inj h).symm

/-- `wait` reaps the master that has ended. -/
theorem effect_wait {code : Sys Next} {raw : Nat} {t : Pair}
    (h : s.effect code ⟨.wait, .ok raw⟩ = some t) :
    ∃ status, s.child = some (.ended status) ∧ raw = status.raw ∧ t = { s with child := none } := by
  rw [effect] at h
  split at h
  · rename_i status hchild
    split_ifs at h with hraw
    exact ⟨status, hchild, hraw, (Option.some.inj h).symm⟩
  · cases h

/-- Where a monitor stands only depends on what has become of its child. -/
theorem Fits.congr {t : Pair} {watch : Watch} (h : s.Fits watch) (hleaving : t.leaving = s.leaving)
    (hchild : t.child = s.child) (hsigchld : s.sigchld = true → t.sigchld = true)
    (hfailed : t.failed = s.failed) : t.Fits watch := by
  have hholds : s.Holds → t.Holds := by
    rintro ⟨hin, hdead⟩
    exact ⟨hleaving.trans hin, fun hfail => hchild ▸ hdead (hfailed ▸ hfail)⟩
  cases watch with
  | forking => exact ⟨hleaving.trans h.1, hchild.trans h.2.1, hfailed.trans h.2.2⟩
  | waiting pid => exact ⟨hholds h.1, fun hdead => hsigchld (h.2 (hchild ▸ hdead))⟩
  | got pid signal => cases signal with
      | sighup => exact ⟨hholds h.1, fun hdead => hsigchld (h.2 (hchild ▸ hdead))⟩
      | sigchld => exact hholds h
      | _ => exact hleaving.trans h
  | ending | unlinked children => trivial
  | master => exact h

theorem Stands.congr {t : Pair} {code : Sys Next} (h : s.Stands code)
    (hleaving : t.leaving = s.leaving) (hchild : t.child = s.child)
    (hsigchld : s.sigchld = true → t.sigchld = true) (hfailed : t.failed = s.failed) :
    t.Stands code := by
  rcases h with ⟨watch, hfits, hconforms⟩ | hquitting
  · exact .inl ⟨watch, hfits.congr hleaving hchild hsigchld hfailed, hconforms⟩
  · exact .inr hquitting

/-- The monitor makes a call and goes on. Its child is what it was, or has been reaped. -/
theorem Kept.call {t : Pair} {code : Sys Next} (h : s.Kept) (hmonitor : s.monitor ≠ none)
    (hstands : t.Stands code) (hchild : t.child = s.child ∨ t.child = none)
    (hleaves : s.leaving = true → t.leaving = true) :
    ({ t with monitor := some code } : Pair).Kept := by
  have hleft : s.Left → ({ t with monitor := some code } : Pair).Left := by
    rintro (hleaving | hgone)
    · exact .inl (hleaves hleaving)
    · exact absurd hgone hmonitor
  refine ⟨?_, fun m hm => ?_, fun status hstatus => ?_⟩
  · rintro code' ⟨⟩
    exact hstands.congr rfl rfl id rfl
  · rcases hchild with hsame | hnone
    · exact (h.live m (hsame ▸ hm)).imp_left hleft
    · exact absurd (hnone.symm.trans hm) nofun
  · rcases hchild with hsame | hnone
    · exact (h.ended status (hsame ▸ hstatus)).imp_left hleft
    · exact absurd (hnone.symm.trans hstatus) nofun

/-- A master that has just been forked. -/
theorem fits_forked {pid : Nat} {m : MasterProcess} (hin : s.leaving = false) (hfine : s.failed = false)
    (hchild : s.child = some (.live m)) : s.Fits (.waiting pid) := by
  refine ⟨⟨hin, fun hfail => absurd (hfine.symm.trans hfail) Bool.false_ne_true⟩, ?_⟩
  rintro ⟨status, hended⟩
  rw [hchild] at hended
  cases hended

/-- A monitor that waits for a signal gets one. -/
theorem fits_signal {code : Sys Next} {pid : Nat} {set : List Signal} {signal : Signal} {t : Pair}
    (hfits : s.Fits (.waiting pid))
    (heffect : s.effect code ⟨.sigwaitinfo set, .ok signal⟩ = some t) :
    t.Fits (.got pid signal) ∧ t.child = s.child ∧ (s.leaving = true → t.leaving = true) := by
  obtain ⟨⟨hin, hdead⟩, htold⟩ := hfits
  rw [effect] at heffect
  split_ifs at heffect
  cases heffect
  refine ⟨?_, rfl, fun hleaving => by simp [hleaving]⟩
  cases signal with
  | sighup => exact ⟨⟨by simp [hin], hdead⟩, fun hended => by simp [htold hended]⟩
  | sigchld => exact ⟨by simp [hin], hdead⟩
  | _ => simp [Fits]

/-- A call other than `fork` leaves the monitor what it is. -/
theorem partings_next {e : Event} {next : Response e.1 → Sys Next}
    (h : Conforms partings Part.Rests .monitor (.call e.1 next)) (hexpected : Expected e)
    (hfork : e.1 ≠ .fork) : Conforms partings Part.Rests .monitor (next e.2) := by
  obtain ⟨c, r⟩ := e
  have hnext := h.2 r
  cases c with
  | fork => exact absurd rfl hfork
  | sigwaitinfo set => exact hnext hexpected
  | _ => exact hnext trivial

/-- What the monitor does keeps it all. -/
theorem kept_monitor {debug : Bool} {e : Event} (h : s.Kept) (hstep : s.step debug (.monitor e) = some s') :
    s'.Kept := by
  obtain ⟨next, t, hmonitor, heffect, rfl⟩ := monitor_step hstep
  have hin : s.monitor ≠ none := by
    rw [hmonitor]
    nofun
  rcases h.monitor _ hmonitor with ⟨watch, hfits, hsupervision, hpartings⟩ | hquitting
  · by_cases hfork : ∃ errno, e = ⟨.fork, .failed errno⟩
    · obtain ⟨errno, rfl⟩ := hfork
      cases heffect
      exact h.call hin (.inr (hpartings.2 (.failed errno) trivial)) (.inl rfl) id
    have hexpected := expected_of_effect heffect fun errno he => hfork ⟨errno, he⟩
    have hnext := hsupervision.2 e.2 hexpected
    have hmoves := moves hsupervision.1 hexpected
    have hnext' : Conforms supervision Watch.Rests (watch.after e) (next e.2) := hnext
    have hkept : e.1 ≠ .fork → (t.child = s.child ∨ t.child = none) →
        (s.leaving = true → t.leaving = true) → t.Fits (watch.after e) →
        ({ t with monitor := some (next e.2) } : Pair).Kept := by
      intro hcall hchild hleaves hafter
      have hstands : t.Stands (next e.2) :=
        .inl ⟨_, hafter, hnext', partings_next hpartings hexpected hcall⟩
      exact h.call hin hstands hchild hleaves
    generalize watch.after e = watch' at hmoves hkept hnext'
    cases hmoves with
    | background hcalm hc r =>
        obtain rfl := effect_background hc heffect
        exact hkept (background_ne hc).2 (.inl rfl) id hfits
    | forked hpid =>
        obtain ⟨hin', hnone, hfine⟩ := hfits
        rw [effect, if_pos hpid] at heffect
        obtain ⟨child, hchild, rfl⟩ := Option.map_eq_some_iff.mp heffect
        obtain ⟨next', hcall, rfl⟩ := answer_eq_some hchild
        cases hcall
        refine ⟨?_, ?_, nofun⟩
        · rintro code ⟨⟩
          exact .inl ⟨_, fits_forked hin' hfine rfl, hnext', hpartings.2 (.parent _) trivial⟩
        · rintro m ⟨⟩
          exact .inr ⟨.working, nofun, hpartings.2 .child trivial⟩
    | child => cases heffect
    | signal hwaits signal =>
        rename_i pid
        have hwaiting : s.Fits (.waiting pid) := by
          rcases hwaits with rfl | rfl <;> exact hfits
        obtain ⟨hgot, hchild, hleaves⟩ := fits_signal hwaiting heffect
        exact hkept nofun (.inl hchild) hleaves hgot
    | masterSignal signal => exact absurd hfits id
    | forward r =>
        cases heffect
        exact hkept nofun (.inl rfl) id hfits
    | stop hleaving r =>
        cases heffect
        exact hkept nofun (.inl rfl) id hfits
    | reapLast =>
        obtain ⟨status, -, -, rfl⟩ := effect_wait heffect
        exact hkept nofun (.inr rfl) id trivial
    | reap hstatus =>
        obtain ⟨ended, hended, hraw, rfl⟩ := effect_wait heffect
        exfalso
        rcases h.ended ended hended with (hleaving | hgone) | rfl
        · exact absurd (hfits.1.symm.trans hleaving) Bool.false_ne_true
        · exact hin hgone
        · exact hstatus (raw_eq_terminate.mp hraw)
    | unlink hleaving r =>
        cases heffect
        exact hkept nofun (.inl rfl) id trivial
  · obtain ⟨stream, format, args, hprint⟩ := hquitting.1 rfl
    obtain ⟨c, r⟩ := e
    dsimp only at hprint
    subst hprint
    cases heffect
    exact h.call hin (.inr (hquitting.2 r trivial)) (.inl rfl) id

/-- The monitor begins another round. -/
theorem kept_monitorLoop {debug : Bool} (h : s.Kept) (hstep : s.step debug .monitorLoop = some s') :
    s'.Kept := by
  obtain ⟨code, hmonitor, hrest⟩ := Option.bind_eq_some_iff.mp hstep
  obtain ⟨code', hresume, hs'⟩ := Option.bind_eq_some_iff.mp hrest
  cases hs'
  have hin : s.monitor ≠ none := by
    rw [hmonitor]
    nofun
  obtain ⟨next, rfl, hresume⟩ := resume_eq_some hresume
  refine h.call hin ?_ (.inl rfl) id
  rcases h.monitor _ hmonitor with ⟨watch, hfits, hsupervision, hpartings⟩ | hquitting
  · refine .inl ⟨watch, hfits, conforms_resume hsupervision hresume, ?_⟩
    refine partings_resume hpartings (fun _ hwork => ?_) hresume
    rw [hwork] at hsupervision
    obtain rfl : watch = .master := hsupervision
    exact hfits
  · exact .inr (partings_resume hquitting nofun hresume)

/-! ## What a master does -/

/-- A live master goes on or ends, and a monitor in its loop is told of its end. -/
theorem Kept.advance {t : Pair} {m : MasterProcess} (h : s.Kept) (hlive : s.child = some (.live m))
    (hmonitor : t.monitor = s.monitor) (hleaving : t.leaving = s.leaving)
    (hfailed : s.failed = false → t.failed = true → ∃ status, t.child = some (.ended status))
    (htold : (∃ status, t.child = some (.ended status)) → t.sigchld = true)
    (hmaster : ∀ m', t.child = some (.live m') → s.Left ∨ ∃ duty : Duty,
      (∀ code, duty = .decided code → code = childNeedTerminate) ∧
        Conforms partings Part.Rests (.master duty) m'.code)
    (hended : ∀ status, t.child = some (.ended status) → s.Left ∨ status = .exited 2) : t.Kept := by
  have hfine : s.Holds → s.failed = false := by
    rintro ⟨-, hdead⟩
    by_contra hfail
    obtain ⟨status, hstatus⟩ := hdead (by simpa using hfail)
    rw [hlive] at hstatus
    cases hstatus
  have hholds : s.Holds → t.Holds := fun hs => ⟨hleaving.trans hs.1, hfailed (hfine hs)⟩
  have hfits : ∀ watch, s.Fits watch → t.Fits watch := by
    intro watch hwatch
    cases watch with
    | forking => exact absurd (hlive.symm.trans hwatch.2.1) nofun
    | waiting pid => exact ⟨hholds hwatch.1, htold⟩
    | got pid signal => cases signal with
        | sighup => exact ⟨hholds hwatch.1, htold⟩
        | sigchld => exact hholds hwatch
        | _ => exact hleaving.trans hwatch
    | ending | unlinked children => trivial
    | master => exact hwatch
  have hleft : s.Left → t.Left := by
    rintro (hs | hs)
    · exact .inl (hleaving.trans hs)
    · exact .inr (hmonitor.trans hs)
  refine ⟨fun code hcode => ?_, fun m' hm' => (hmaster m' hm').imp_left hleft,
    fun status hstatus => (hended status hstatus).imp_left hleft⟩
  rcases h.monitor code (hmonitor ▸ hcode) with ⟨watch, hwatch, hconforms⟩ | hquitting
  · exact .inl ⟨watch, hfits watch hwatch, hconforms⟩
  · exact .inr hquitting

/-- A master goes on with code that keeps to its duty. -/
theorem Kept.live_to {m m' : MasterProcess} {duty : Duty} (h : s.Kept) (hlive : s.child = some (.live m))
    (hduty : ∀ code, duty = .decided code → code = childNeedTerminate)
    (hconforms : Conforms partings Part.Rests (.master duty) m'.code) :
    ({ s with child := some (.live m') } : Pair).Kept := by
  refine h.advance hlive rfl rfl ?_ ?_ ?_ nofun
  · intro hfine hfail
    exact absurd (hfine.symm.trans hfail) Bool.false_ne_true
  · rintro ⟨status, hended⟩
    cases hended
  · rintro _ ⟨⟩
    exact .inr ⟨duty, hduty, hconforms⟩

/-- A master whose monitor is on its way out goes on in some way. -/
theorem Kept.live_left {m m' : MasterProcess} (h : s.Kept) (hlive : s.child = some (.live m))
    (hleft : s.Left) : ({ s with child := some (.live m') } : Pair).Kept := by
  refine h.advance hlive rfl rfl ?_ ?_ (fun _ _ => .inl hleft) nofun
  · intro hfine hfail
    exact absurd (hfine.symm.trans hfail) Bool.false_ne_true
  · rintro ⟨status, hended⟩
    cases hended

/-- A master ends. -/
theorem Kept.ends {m : MasterProcess} {status : WaitStatus} {abnormal : Bool} (h : s.Kept)
    (hlive : s.child = some (.live m)) (hstatus : s.Left ∨ status = .exited 2) :
    (s.ends status abnormal).Kept := by
  refine h.advance hlive rfl rfl (fun _ _ => ⟨status, rfl⟩) (fun _ => rfl) nofun ?_
  rintro _ ⟨⟩
  exact hstatus

/-- What a call decides, it decides for `CHILD_NEED_TERMINATE`. -/
theorem duty_after {duty : Duty} {m m' : MasterProcess} {code : Sys Next} {e : Event}
    (hduty : ∀ code, duty = .decided code → code = childNeedTerminate)
    (hafter : m.after code e = some m') (hstack : ∀ errno, e ≠ ⟨.setup .rlimitStack, .error errno⟩) :
    m'.code = code ∧ ∀ exitCode, duty.after e = .decided exitCode → exitCode = childNeedTerminate := by
  obtain ⟨c, r⟩ := e
  cases c with
  | setup what => cases what with
      | rlimitStack => cases r with
          | ok done =>
              cases hafter
              exact ⟨rfl, hduty⟩
          | error errno => exact absurd rfl (hstack errno)
      | signalHandlers | rlimitNofile => cases r with
          | ok done =>
              cases hafter
              exact ⟨rfl, hduty⟩
          | error errno =>
              cases hafter
              exact ⟨rfl, fun exitCode h => (Duty.decided.inj h).symm⟩
      | _ =>
          cases hafter
          exact ⟨rfl, hduty⟩
  | sigwaitinfo set => cases r with
      | error errno => cases hafter
      | ok signal =>
          rw [MasterProcess.after] at hafter
          split_ifs at hafter
          cases hafter
          refine ⟨rfl, fun exitCode h => ?_⟩
          cases signal with
          | sigterm => exact (Duty.decided.inj h).symm
          | _ => exact hduty exitCode h
  | registerServices => cases hafter
  | _ =>
      cases hafter
      exact ⟨rfl, hduty⟩

/-- What a master is answered is expected. -/
theorem conforms_after {duty : Duty} {m m' : MasterProcess} {code : Sys Next} {e : Event}
    {next : Response e.1 → Sys Next} (hafter : m.after code e = some m')
    (h : Conforms partings Part.Rests (.master duty) (.call e.1 next)) :
    Conforms partings Part.Rests (.master (duty.after e)) (next e.2) := by
  obtain ⟨c, r⟩ := e
  have hnext := h.2 r
  cases c with
  | sigwaitinfo set => cases r with
      | error errno => cases hafter
      | ok signal =>
          rw [MasterProcess.after] at hafter
          split_ifs at hafter with hsignal
          exact hnext ⟨signal, hsignal, rfl⟩
  | _ => exact hnext trivial

/-- A live master goes on or ends. -/
theorem masterStep_cases {debug : Bool} {m : MasterProcess} {a : Action}
    (h : s.masterStep debug m a = some s') :
    (∃ m', s' = { s with child := some (.live m') }) ∨ ∃ status abnormal, s' = s.ends status abnormal := by
  cases a with
  | monitor | monitorLoop | monitorKilled | notice => cases h
  | master e =>
      obtain ⟨code, -, hrest⟩ := Option.bind_eq_some_iff.mp h
      obtain ⟨m', -, hs'⟩ := Option.bind_eq_some_iff.mp hrest
      exact .inl ⟨m', (Option.some.inj hs').symm⟩
  | register failing =>
      obtain ⟨code, -, hs'⟩ := Option.bind_eq_some_iff.mp h
      exact .inl ⟨_, (Option.some.inj hs').symm⟩
  | masterLoop =>
      obtain ⟨code, -, hs'⟩ := Option.bind_eq_some_iff.mp h
      exact .inl ⟨_, (Option.some.inj hs').symm⟩
  | exit =>
      rw [masterStep] at h
      split at h
      · exact .inr ⟨_, _, (Option.some.inj h).symm⟩
      · cases h
  | crash signal report =>
      rw [masterStep] at h
      split_ifs at h
      exact .inl ⟨_, (Option.some.inj h).symm⟩
  | killed signal core =>
      rw [masterStep] at h
      split_ifs at h
      exact .inr ⟨_, _, (Option.some.inj h).symm⟩

theorem kept_left {debug : Bool} {m : MasterProcess} {a : Action} (h : s.Kept)
    (hlive : s.child = some (.live m)) (hleft : s.Left) (hstep : s.masterStep debug m a = some s') :
    s'.Kept := by
  rcases masterStep_cases hstep with ⟨m', rfl⟩ | ⟨status, abnormal, rfl⟩
  · exact h.live_left hlive hleft
  · exact h.ends hlive (.inl hleft)

/-- A contained action of a live master keeps it all. -/
theorem kept_master {m : MasterProcess} {a : Action} (h : s.Kept) (hlive : s.child = some (.live m))
    (hok : s.Contained a) (hstep : s.masterStep true m a = some s') : s'.Kept := by
  rcases h.live m hlive with hleft | ⟨duty, hduty, hconforms⟩
  · exact kept_left h hlive hleft hstep
  · rcases hok with hleft | hok
    · exact kept_left h hlive hleft hstep
    cases a with
    | monitor | monitorLoop | monitorKilled | notice => cases hstep
    | master e =>
        obtain ⟨code, hanswer, hrest⟩ := Option.bind_eq_some_iff.mp hstep
        obtain ⟨m', hafter, hs'⟩ := Option.bind_eq_some_iff.mp hrest
        cases hs'
        obtain ⟨next, hcode, rfl⟩ := answer_eq_some hanswer
        rw [hcode] at hconforms
        have hstack : ∀ errno, e ≠ ⟨.setup .rlimitStack, .error errno⟩ := by
          rintro errno rfl
          cases hok
        obtain ⟨hm', hdecided⟩ := duty_after hduty hafter hstack
        exact h.live_to hlive hdecided (hm' ▸ conforms_after hafter hconforms)
    | register failing =>
        obtain ⟨code, hanswer, hs'⟩ := Option.bind_eq_some_iff.mp hstep
        cases hs'
        obtain ⟨next, hcode, rfl⟩ := answer_eq_some hanswer
        rw [hcode] at hconforms
        refine h.live_to hlive ?_ (hconforms.2 (registerServices true failing) trivial)
        cases hservices : registerServices true failing with
        | running => exact hduty
        | exited code =>
            intro exitCode hdecided
            rw [← Duty.decided.inj hdecided]
            exact registerServices_exited hservices
        | thrown => exact absurd hok (registerServices_thrown_iff.mp hservices)
    | masterLoop =>
        obtain ⟨code, hresume, hs'⟩ := Option.bind_eq_some_iff.mp hstep
        cases hs'
        obtain ⟨next, hcode, hresume⟩ := resume_eq_some hresume
        rw [hcode] at hconforms
        exact h.live_to hlive hduty (partings_resume hconforms nofun hresume)
    | exit =>
        rw [masterStep] at hstep
        split at hstep
        · rename_i code hcode
          cases hstep
          rw [hcode] at hconforms
          rcases hconforms with ⟨hwork, -⟩ | ⟨exitCode, hexit, hdecided⟩
          · cases hwork
          · cases hexit
            rw [hduty code hdecided]
            exact h.ends hlive (.inr (by decide))
        · cases hstep
    | crash signal report =>
        rw [masterStep] at hstep
        split_ifs at hstep
        cases hstep
        -- where there is a trace, a build with `DEBUG` asks for no other master
        have htrace : report.trace.length ≠ 0 := mt List.length_eq_zero_iff.mp hok
        have hdebug : childNeedTerminate =
            if report.trace.length = 0 then childNeedWork else giveUp true := by
          rw [if_neg htrace]
          rfl
        refine h.live_to hlive ?_ (partings_program (partings_selfDebug hdebug))
        exact fun code hdecided => (Duty.decided.inj hdecided).symm
    | killed signal core => exact absurd hok id

/-! ## Runs -/

/-- The step lemma. -/
theorem kept_step {a : Action} (h : s.Kept) (hok : s.Contained a) (hstep : s.step true a = some s') :
    s'.Kept := by
  have hmaster : (match s.child with
      | some (.live m) => s.masterStep true m a
      | _ => none) = some s' → s'.Kept := by
    intro hs'
    split at hs'
    · rename_i m hlive
      exact kept_master h hlive hok hs'
    · cases hs'
  cases a with
  | monitor e => exact kept_monitor h hstep
  | monitorLoop => exact kept_monitorLoop h hstep
  | monitorKilled =>
      cases hstep
      exact ⟨nofun, fun _ _ => .inl (.inr rfl), fun _ _ => .inl (.inr rfl)⟩
  | notice =>
      cases hstep
      refine ⟨fun code hcode => ?_, h.live, h.ended⟩
      exact (h.monitor code hcode).congr rfl rfl (fun _ => rfl) rfl
  | _ => exact hmaster hstep

/-- A monitor one of whose masters has failed is on its way to the end. -/
theorem Kept.failStops (h : s.Kept) (hfailed : s.failed = true) : s.FailStops := by
  refine ⟨fun next hcode => ?_, fun set next hcode => ?_, fun next hcode => ?_, fun vars hcode => ?_⟩
  · rcases h.monitor _ hcode with ⟨watch, hfits, hsupervision, -⟩ | hquitting
    · obtain rfl : watch = .forking := hsupervision.1
      exact absurd (hfits.2.2.symm.trans hfailed) Bool.false_ne_true
    · obtain ⟨stream, format, args, hprint⟩ := hquitting.1 rfl
      cases hprint
  · rcases h.monitor _ hcode with ⟨watch, hfits, hsupervision, -⟩ | hquitting
    · rcases hsupervision.1 with ⟨hwaits, -⟩ | ⟨rfl, -⟩
      · have hwaiting : s.Fits (.waiting 0) := by
          cases watch with
          | waiting pid => exact hfits
          | got pid signal => cases signal with
              | sighup => exact hfits
              | _ => exact absurd hwaits id
          | _ => exact absurd hwaits id
        exact hwaiting.2 (hwaiting.1.2 hfailed)
      · exact absurd hfits id
    · obtain ⟨stream, format, args, hprint⟩ := hquitting.1 rfl
      cases hprint
  · rcases h.monitor _ hcode with ⟨watch, hfits, hsupervision, -⟩ | hquitting
    · obtain ⟨pid, rfl⟩ := hsupervision.1
      exact hfits.2 hfailed
    · obtain ⟨stream, format, args, hprint⟩ := hquitting.1 rfl
      cases hprint
  · rcases h.monitor _ hcode with ⟨watch, hfits, hsupervision, -⟩ | hquitting
    · rcases hsupervision with ⟨-, rfl⟩ | ⟨hneed, pid, -, -, rfl | rfl⟩
      · exact absurd (hfits.2.2.symm.trans hfailed) Bool.false_ne_true
      · exact ⟨hneed, hfits.1.2 hfailed⟩
      · exact ⟨hneed, hfits.1.2 hfailed⟩
    · obtain ⟨exitCode, hexit⟩ := hquitting
      cases hexit

/-- In a build with `DEBUG`, in every run whose master ends are contained, the monitor ends when a
master has ended abnormally. -/
theorem fail_stop (h : Machine.Reached (step true) Contained (· = start) s)
    (hfailed : s.failed = true) : s.FailStops := by
  refine Kept.failStops ?_ hfailed
  refine Machine.Reached.invariant (I := Kept) h ?_ ?_
  · rintro s rfl
    exact kept_start
  · exact fun s a s' hs hok hstep => kept_step hs hok hstep

/-- A monitor that has forked a master, up to the registration of its services. -/
def booting : List Action := [
  .monitor ⟨.sigprocmask monitorSignals, ()⟩,
  .monitorLoop,
  .monitor ⟨.fork, .parent 4322⟩,
  .master ⟨.print .log "Run" [], ()⟩,
  .master ⟨.setup .rlimitStack, .ok ()⟩,
  .master ⟨.setup .signalHandlers, .ok ()⟩,
  .master ⟨.sigprocmask [.sighup, .sigterm], ()⟩,
  .master ⟨.setup .rlimitNofile, .ok ()⟩]

/-- When the address cannot be bound, the monitor ends. -/
theorem bind_fail_stop : ∃ s, Machine.Reached (step true) Contained (· = start) s ∧
    s.failed = true ∧ s.FailStops := by
  have hlong : Machine.Along (step true) Contained start (booting ++ [.register [.bind], .exit]) := by
    decide +kernel
  have hfails : ((Machine.run (step true) start (booting ++ [.register [.bind], .exit])).any
      fun s => decide (s.failed = true)) = true := by
    decide +kernel
  obtain ⟨s, hrun, hfailed⟩ := Machine.exists_run hfails
  have hstart : Machine.Reached (step true) Contained (· = start) start := .start rfl
  have hreached := hstart.run hlong hrun
  exact ⟨s, hreached, hfailed, fail_stop hreached hfailed⟩

/-- The monitor is about to fork. -/
def forksNext (s : Pair) : Bool := match s.monitor with
  | some (.call .fork _) => true
  | _ => false

/-- When the address cannot be resolved, the exception ends the master with a SIGABRT, and the
monitor forks another one. -/
theorem resolve_not_fail_stop : ¬ ∀ s, Machine.Reached (step true) (fun _ _ => True) (· = start) s →
    s.failed = true → s.FailStops := by
  intro hall
  have hforks : ((Machine.run (step true) start (booting ++ [.register [.resolve], .killed 6 true,
      .monitor ⟨.sigwaitinfo monitorSignals, .ok .sigchld⟩,
      .monitor ⟨.wait, .ok (WaitStatus.signaled 6 true).raw⟩, .monitorLoop])).any
        fun s => decide (s.failed = true ∧ s.forksNext = true)) = true := by
    decide +kernel
  have hlong : Machine.Along (step true) (fun _ _ => True) start (booting ++ [.register [.resolve],
      .killed 6 true, .monitor ⟨.sigwaitinfo monitorSignals, .ok .sigchld⟩,
      .monitor ⟨.wait, .ok (WaitStatus.signaled 6 true).raw⟩, .monitorLoop]) := by
    decide +kernel
  obtain ⟨s, hrun, hfailed, hfork⟩ := Machine.exists_run hforks
  have hstart : Machine.Reached (step true) (fun _ _ => True) (· = start) start := .start rfl
  have hstops := hall s (hstart.run hlong hrun) hfailed
  unfold forksNext at hfork
  split at hfork
  · exact hstops.forks _ (by assumption)
  · cases hfork

end Pair

end Robotd
