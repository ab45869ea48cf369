import Robotd.Host.Addressee
import Robotd.Host.Family

/-!
# Signals for a daemon that is starting

A daemon can be found from `set_pid_file` on and blocks its signals in `monitor_proc`. A signal of
the command line that comes in between ends it (`registered_daemon_killed`); one that comes later
pends until the loop of the monitor takes it. `signals_received_iff` says so of all runs.
-/

namespace Robotd

open Lib Lib.CLib

namespace Life

/-- A daemon between its `fork` and the `sigprocmask` of `monitor_proc`. -/
def Exposed : Life → Prop
  | registering | created _ | signed _ _ | registered => True
  | _ => False

/-- A daemon. -/
def Background : Life → Prop
  | monitoring watch => watch ≠ .master
  | φ => φ.Exposed

instance (φ : Life) : Decidable φ.Exposed := match φ with
  | registering | created _ | signed _ _ | registered => isTrue trivial
  | arriving | found _ | numbered _ | stale | vacant | addressed _ | wordless | told | starting
    | parted | monitoring _ => isFalse id

theorem Exposed.background {φ : Life} (h : φ.Exposed) : φ.Background := by
  cases φ with
  | monitoring watch => exact absurd h id
  | _ => exact h

theorem Exposed.outside {φ : Life} (h : φ.Exposed) : φ.Outside := by
  cases φ with
  | monitoring watch => exact h
  | _ => trivial

theorem Background.not_foreground {φ : Life} (h : φ.Background) : ¬φ.Foreground := by
  intro hforeground
  cases φ with
  | registering | created | signed | registered | monitoring => exact hforeground
  | _ => exact h

end Life

/-- The call blocks the signal. -/
def masks (signal : Signal) : Event → Bool
  | ⟨.sigprocmask set, _⟩ => signal ∈ set
  | _ => false

theorem blocks_snoc {p p' : Process} {e : Event} (h : p'.past = p.past ++ [e]) (signal : Signal) :
    p'.blocks signal = (p.blocks signal || masks signal e) := by
  have hone : [e].any (masks signal) = masks signal e := by
    rw [List.any_cons, List.any_nil, Bool.or_false]
  rw [← hone]
  show p'.past.any (masks signal) = (p.past.any (masks signal) || [e].any (masks signal))
  rw [h, List.any_append]

theorem masks_monitorSignals (signal : Signal) (r : Unit) :
    masks signal ⟨.sigprocmask monitorSignals, r⟩ = true := by
  cases signal <;> rfl

/-- A process leaves the phases outside `monitor_proc` for good, and by its `sigprocmask`. -/
theorem Life.masks_of_moves {option : String} {φ φ' : Life} {e : Event} (h : Moves option φ e φ')
    (signal : Signal) : φ'.Outside ∧ φ.Outside ∧ masks signal e = false ∨
      ¬φ'.Outside ∧ (¬φ.Outside ∨ masks signal e = true) := by
  cases h with
  | rest hφ hc r =>
      refine .inl ⟨hφ, hφ, ?_⟩
      rcases hc with hc | ⟨what, rfl⟩
      · rename_i c
        cases c with
        | sigprocmask => exact absurd hc id
        | _ => rfl
      · rfl
  | fails hφ hc r =>
      rename_i c
      refine .inl ⟨?_, ?_, ?_⟩
      · rcases hφ with rfl | rfl <;> trivial
      · rcases hφ with rfl | rfl <;> trivial
      · cases c with
        | sigprocmask => cases hc
        | _ => rfl
  | start hopens r => exact .inl ⟨trivial, hopens.outside, rfl⟩
  | watch r => exact .inr ⟨id, .inr (masks_monitorSignals signal r)⟩
  | monitor hmoves => exact .inr ⟨id, .inl id⟩
  | _ => exact .inl ⟨trivial, trivial, rfl⟩

namespace Host

variable {s s' : Host} {a : Action}

/-- The processes of `monitor_proc` block all signals, and the others none. -/
structure Masked (s : Host) : Prop where
  lawful : s.Lawful
  blocks : ∀ pid p, s.process pid = some p → ∀ signal, p.blocks signal = true ↔ ¬p.phase.Outside

theorem masked_step (h : s.Masked) (hstep : s.step a = some s') : s'.Masked := by
  refine ⟨lawful_step h.lawful hstep, fun pid p' hp' signal => ?_⟩
  have hacted : ∀ {q : Nat} {p : Process} {e : Event}, s.process q = some p → Acted p e p' →
      Life.Expects e → (p'.blocks signal = true ↔ ¬p'.phase.Outside) := by
    intro q p e hp hacted hexpects
    obtain ⟨next, hcode, -⟩ := hacted.code
    have hmoves := moves_of_lawful (h.lawful.process q p hp) hcode hexpects
    rw [← phase_snoc hacted.past] at hmoves
    rw [blocks_snoc hacted.past, Bool.or_eq_true, h.blocks q p hp signal]
    rcases Life.masks_of_moves hmoves signal with ⟨hout', hout, hmasks⟩ | ⟨hin, hor⟩
    · rw [hmasks]
      exact iff_of_false (fun hor => hor.elim (fun hin => hin hout) nofun) fun hin => hin hout'
    · exact iff_of_true hor hin
  cases fate_of_step hstep hp' with
  | kept p hp hsame hother =>
      have hblocks : p'.blocks signal = p.blocks signal := by
        rw [Process.blocks, Process.blocks, hsame.past]
      rw [hblocks, hsame.phase]
      exact h.blocks pid p hp signal
  | spawned cwd argv ha hfree heq =>
      subst heq
      exact iff_of_false nofun fun hin => hin trivial
  | other ha hfree heq =>
      subst heq
      exact iff_of_false nofun fun hin => hin trivial
  | acted choice p e ha hp hact hanswers hfs => exact hacted hp hact (expects_of_answers hanswers)
  | born parent p ha hfree hp hparent hact hfs => exact hacted hp hact ⟨.inl rfl, trivial⟩

theorem masked_idle (h : s.Idle) : s.Masked := by
  refine ⟨lawful_idle h, fun pid p hp => ?_⟩
  rw [h pid] at hp
  cases hp

/-! ## The signals of the command line -/

/-- In this step a command sends the signal to the daemon `t` with the number `q`. -/
structure Sends (s : Host) (a : Action) (signal : Signal) (q : Nat) (t : Process) : Prop where
  command : ∃ pid choice p target, a = .run pid choice ∧ s.process pid = some p ∧
    p.phase.Foreground ∧ p.next = some (.kill target signal) ∧ target.toNat = q
  process : s.process q = some t
  daemon : t.phase.Background

/-- The signal pends for the process. -/
def Pends (s : Host) (q : Nat) (signal : Signal) : Prop := ∃ t ∈ s.process q, signal ∈ t.pending

/-- The process neither takes the signal in this step nor exits nor ends by a fault nor is killed
from outside. -/
def Untaken (q : Nat) (signal : Signal) (_ : Host) (a : Action) : Prop :=
  a ≠ .run q (.signal signal) ∧ a ≠ .exit q ∧ a ≠ .abort q ∧ ∀ status, a ≠ .crash q status

/-- A signal that a command sends to a daemon in this step pends until the daemon takes it. -/
def Received (s : Host) (a : Action) : Prop :=
  ∀ signal q t s', s.Sends a signal q t → s.step a = some s' → ∀ rest,
    Machine.Along step (Untaken q signal) s' rest →
      Machine.Always step (fun s => s.Pends q signal) s' rest

/-- No command sends a signal to a daemon between its `fork` and its `sigprocmask`. -/
def Shielded (s : Host) (a : Action) : Prop := ∀ signal q t, s.Sends a signal q t → ¬t.phase.Exposed

variable {signal : Signal} {q : Nat} {t : Process}

/-- The daemon after the step is what `kill` makes of it. -/
theorem process_of_sends (hsends : s.Sends a signal q t) (hstep : s.step a = some s') :
    ∃ target : Int, target.toNat = q ∧ s'.process q = (s.kill target signal).2.process q := by
  obtain ⟨pid, choice, p, target, rfl, hp, hforeground, hnext, rfl⟩ := hsends.command
  refine ⟨target, rfl, ?_⟩
  have hne : target.toNat ≠ pid := by
    intro heq
    obtain rfl : p = t := Option.some.inj (hp.symm.trans (heq ▸ hsends.process))
    exact hsends.daemon.not_foreground hforeground
  cases steps_of_step hstep with
  | call hp' hcode hanswer =>
      obtain rfl := Option.some.inj (hp'.symm.trans hp)
      obtain rfl := Option.some.inj ((next_of_code hcode).symm.trans hnext)
      have hkill := congrArg Prod.snd (Option.some.inj hanswer)
      simp only [update, if_neg hne, hkill]
  | fork hp' hcode hfree =>
      obtain rfl := Option.some.inj (hp'.symm.trans hp)
      have hfork := (next_of_code hcode).symm.trans hnext
      cases hfork

/-- A blocked signal becomes pending. -/
theorem raised_of_sends (hsends : s.Sends a signal q t) (hstep : s.step a = some s')
    (hblocks : t.blocks signal = true) : s'.process q = some (t.raised signal) := by
  obtain ⟨target, rfl, hprocess⟩ := process_of_sends hsends hstep
  have hkill : (s.kill target signal).2 = s.raise target.toNat signal := by
    simp only [kill, hsends.process, hblocks, true_or, if_true]
  rw [hprocess, hkill]
  simp only [raise, update, if_true, hsends.process, Option.map_some, hblocks]

/-- One that is not blocked ends the process. -/
theorem ended_of_sends (hsends : s.Sends a signal q t) (hstep : s.step a = some s')
    (hblocks : t.blocks signal = false) (hsignal : signal ≠ .sigchld) : s'.process q = none := by
  obtain ⟨target, rfl, hprocess⟩ := process_of_sends hsends hstep
  have hkill : (s.kill target signal).2 = s.die target.toNat (.signaled signal.number false) := by
    simp [kill, hsends.process, hblocks, hsignal]
  rw [hprocess, hkill]
  exact process_die_self _ _

theorem signal_of_sends (hlawful : s.Lawful) (hsends : s.Sends a signal q t) : signal ≠ .sigchld := by
  obtain ⟨pid, choice, p, target, rfl, hp, hforeground, hnext, rfl⟩ := hsends.command
  have hallows := allows_of_next (hlawful.process pid p hp) hnext
  obtain ⟨n, -, -, hsignal⟩ := Life.addressed_of_kill hforeground hallows
  rcases signalOf_eq hsignal with rfl | rfl <;> nofun

/-- A command can always send its signal. -/
theorem step_of_sends (hsends : s.Sends a signal q t) : ∃ s', s.step a = some s' := by
  obtain ⟨pid, choice, p, target, rfl, hp, hforeground, hnext, rfl⟩ := hsends.command
  cases hcode : p.code with
  | ret next =>
      rw [Process.next, hcode] at hnext
      cases hnext
  | call c next =>
      obtain rfl := Option.some.inj ((next_of_code hcode).symm.trans hnext)
      refine ⟨(s.kill target signal).2.update pid fun p =>
        p.answered ⟨.kill target signal, (s.kill target signal).1⟩ (next (s.kill target signal).1), ?_⟩
      show s.process pid >>= s.call pid choice = _
      rw [hp]
      show s.call pid choice p = _
      rw [call, hcode]
      rfl

/-! ## Signals that pend -/

/-- The signal pends, and no signal can end the process. -/
structure Keeps (s : Host) (q : Nat) (signal : Signal) (t : Process) : Prop where
  process : s.process q = some t
  pending : signal ∈ t.pending
  blocks : ∀ signal', t.blocks signal' = true

theorem keeps_step (h : ∃ t, s.Keeps q signal t) (huntaken : Untaken q signal s a)
    (hstep : s.step a = some s') : ∃ t, s'.Keeps q signal t := by
  obtain ⟨t, ht, hpending, hblocks⟩ := h
  have honward : s.Ends q t a ∨ (a = .run q (.signal signal) ∧ ∃ set, t.next = some (.sigwaitinfo set)) ∨
      ∃ t', s'.process q = some t' ∧ t.Onward signal t' := onward_of_step hstep ht
  rcases honward with hends | ⟨htaken, -⟩ | ⟨t', ht', honward⟩
  · cases hends with
    | exit hcode => exact absurd rfl huntaken.2.1
    | abort hnext => exact absurd rfl huntaken.2.2.1
    | crash status => exact absurd rfl (huntaken.2.2.2 status)
    | killed hr hnext htarget hnot =>
        rw [hblocks] at hnot
        cases hnot
  · exact absurd htaken huntaken.1
  · refine ⟨t', ht', honward.pending hpending, fun signal' => ?_⟩
    obtain ⟨rest, hpast⟩ := honward.past
    have hbefore : t.past.any (masks signal') = true := hblocks signal'
    show t'.past.any (masks signal') = true
    rw [← hpast, List.any_append, hbefore, Bool.true_or]

/-- A signal is received exactly when the daemon has blocked it. -/
theorem received_iff (h : s.Masked) : s.Received a ↔ s.Shielded a := by
  constructor
  · intro hreceived signal q t hsends hexposed
    obtain ⟨s', hstep⟩ := step_of_sends hsends
    obtain ⟨t', ht', -⟩ := (hreceived signal q t s' hsends hstep [] trivial).head
    have hblocks : t.blocks signal = false := by
      by_contra hblocks
      refine (h.blocks q t hsends.process signal).mp ?_ hexposed.outside
      exact Bool.eq_true_of_not_eq_false hblocks
    rw [ended_of_sends hsends hstep hblocks (signal_of_sends h.lawful hsends)] at ht'
    cases ht'
  · intro hshielded signal q t s' hsends hstep rest halong
    have hinside : ¬t.phase.Outside := by
      intro hout
      have hexposed := hshielded signal q t hsends
      have hdaemon := hsends.daemon
      cases hphase : t.phase <;> rw [hphase] at hout hexposed hdaemon <;>
        first | exact hexposed trivial | exact hdaemon | exact hout
    have hblocks : ∀ signal', t.blocks signal' = true := fun signal' =>
      (h.blocks q t hsends.process signal').mpr hinside
    have hkeeps : ∃ t', s'.Keeps q signal t' := by
      refine ⟨t.raised signal, raised_of_sends hsends hstep (hblocks signal), ?_, hblocks⟩
      exact List.mem_insert_self
    have halways : Machine.Always step (fun s => ∃ t, s.Keeps q signal t) s' rest :=
      halong.always (fun s a s' => keeps_step) hkeeps
    exact halways.mono fun s hkept => hkept.imp fun t hkeeps => ⟨hkeeps.process, hkeeps.pending⟩

/-- In every run, all signals of the command line to a daemon pend until the daemon takes them
exactly when none is sent to a daemon between its `fork` and its `sigprocmask`. -/
theorem signals_received_iff (h : s.Idle) (actions : List Action) :
    Machine.Along step Received s actions ↔ Machine.Along step Shielded s actions :=
  Machine.along_congr (fun _ _ _ hmasked => masked_step hmasked) (fun _ _ => received_iff)
    (masked_idle h)

/-! ## Runs -/

instance (φ : Life) : Decidable φ.Background := match φ with
  | .monitoring watch => inferInstanceAs (Decidable (watch ≠ .master))
  | .registering | .created _ | .signed _ _ | .registered => isTrue trivial
  | .arriving | .found _ | .numbered _ | .stale | .vacant | .addressed _ | .wordless | .told
    | .starting | .parted => isFalse id

/-- The target of a `kill`. -/
def target : Call → Option Nat
  | .kill pid _ => some pid.toNat
  | _ => none

theorem shielded_iff (s : Host) (a : Action) : s.Shielded a ↔ match a with
    | .run pid _ => ∀ p ∈ s.process pid, p.phase.Foreground → ∀ q ∈ p.next.bind target,
        ∀ t ∈ s.process q, ¬t.phase.Exposed
    | _ => True := by
  constructor
  · intro hshielded
    split
    · rename_i pid choice
      intro p hp hforeground q hq t ht hexposed
      obtain ⟨c, hnext, hc⟩ := Option.bind_eq_some_iff.mp hq
      cases c with
      | kill aim signal =>
          refine hshielded signal q t ⟨?_, ht, hexposed.background⟩ hexposed
          exact ⟨pid, choice, p, aim, rfl, hp, hforeground, hnext, Option.some.inj hc⟩
      | _ => cases hc
    · trivial
  · intro h signal q t hsends
    obtain ⟨pid, choice, p, aim, rfl, hp, hforeground, hnext, rfl⟩ := hsends.command
    exact h p hp hforeground aim.toNat (by rw [hnext]; rfl) t hsends.process

instance (s : Host) (a : Action) : Decidable (s.Shielded a) :=
  haveI : Decidable (match a with
      | .run pid _ => ∀ p ∈ s.process pid, p.phase.Foreground → ∀ q ∈ p.next.bind target,
          ∀ t ∈ s.process q, ¬t.phase.Exposed
      | _ => True) := match a with
    | .run pid _ => inferInstanceAs (Decidable (∀ p ∈ s.process pid, p.phase.Foreground →
        ∀ q ∈ p.next.bind target, ∀ t ∈ s.process q, ¬t.phase.Exposed))
    | .spawn _ _ _ | .other _ | .exit _ | .abort _ | .crash _ _ => isTrue trivial
  decidable_of_iff' _ (shielded_iff s a)

/-- The SIGTERM of `stop` is received by a daemon that has reached its loop. -/
theorem stop_received :
    (Machine.run step installed (loading 100 101 102 ++ stopping 200 ++ calls 200 1)).isSome = true ∧
      Machine.Along step Received installed (loading 100 101 102 ++ stopping 200 ++ calls 200 1) :=
  ⟨by decide +kernel, (signals_received_iff (idle_ofFiles _) _).mpr (by decide +kernel)⟩

/-- A daemon that has written its PID file and not blocked its signals yet is ended by `stop`. -/
theorem registered_daemon_killed :
    ¬ ∀ s : Host, s.Idle → ∀ actions, Machine.Along step Received s actions := by
  intro hall
  have hrun : ∃ s, Machine.run step installed
        (deciding 100 ++ launch 100 101 ++ calls 101 5 ++ stopping 200) = some s ∧
      ((s.process 200).any (fun p => decide (p.phase.Foreground ∧
          p.next = some (.kill 101 .sigterm))) = true ∧
        (s.process 101).any (fun t => decide t.phase.Background) = true ∧
        ((s.step (.run 200 .none)).any fun s' => (s'.process 101).isNone) = true) :=
    Machine.exists_run (by decide +kernel)
  obtain ⟨s, hrun, hcommand, hdaemon, hkilled⟩ := hrun
  obtain ⟨p, hp, hcommand⟩ := (Option.any_eq_true _ _).mp hcommand
  obtain ⟨t, ht, hdaemon⟩ := (Option.any_eq_true _ _).mp hdaemon
  obtain ⟨s', hstep, hnone⟩ := (Option.any_eq_true _ _).mp hkilled
  obtain ⟨hforeground, hkill⟩ := of_decide_eq_true hcommand
  have hsends : s.Sends (.run 200 .none) .sigterm 101 t :=
    ⟨⟨200, .none, p, 101, rfl, hp, hforeground, hkill, rfl⟩, ht, of_decide_eq_true hdaemon⟩
  have halong := hall installed (idle_ofFiles _)
    (deciding 100 ++ launch 100 101 ++ calls 101 5 ++ stopping 200 ++ .run 200 .none :: [])
  obtain ⟨t', ht', -⟩ := (halong.next hrun .sigterm 101 t s' hsends hstep [] trivial).head
  rw [ht'] at hnone
  cases hnone

end Host

end Robotd
