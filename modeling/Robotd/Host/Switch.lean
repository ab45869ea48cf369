import Robotd.Host.Served
import Robotd.Host.Vigilance

/-!
# Any number of `load`s

`Ledger` is a host with the text last flushed to `CONFIG_LOAD`. Any number of `load`s run at the
same time, each a list of calls that come between those of the others; the daemon takes their
SIGHUPs, of which several may have become one. `Switching` says that each process is the daemon, a
`load` on its way or takes no part, and `Switching.step` that it stays so, as long as no `load`
reads `CONFIG_LOAD` while it holds no word.
-/

namespace Robotd

open Lib Lib.CLib Cli
open Lib.Program (Protocol Conforms)

/-! ## The runs -/

/-- A host and the text last flushed to `CONFIG_LOAD`. -/
structure Ledger where
  host : Host
  flushed : Option (List Char)

/-- What a process flushes to `CONFIG_LOAD` in this step. -/
def Host.flushing (s : Host) : Action → Option (List Char)
  | .run pid _ => (s.process pid).bind fun p => match p.next with
      | some (.fwrite file text) => if file.path = configLoad then some text else none
      | _ => none
  | _ => none

namespace Ledger

def step (l : Ledger) (a : Action) : Option Ledger :=
  (l.host.step a).map fun s => ⟨s, (l.host.flushing a).or l.flushed⟩

/-- The daemon `d` is in its loop and named by its PID file, `CONFIG_LOAD` can be read and written,
and all others have done or are masters. -/
structure Ready (d : Nat) (l : Ledger) : Prop where
  reached : Machine.Reached Host.step (fun _ _ => True) Host.Idle l.host
  daemon : ∃ p, l.host.process d = some p ∧ p.phase.Loops
  small : d < 65536
  served : Served d l.host.fs
  others : ∀ q p, q ≠ d → l.host.process q = some p → p.Apart
  unflushed : l.flushed = none

/-- Of the commands only `load`s are started, of files that are there and whose paths can be read
back, none of them is killed, and the daemon stays in its loop. -/
def Switches (d : Nat) (l : Ledger) (a : Action) : Prop :=
  (match a with
    | .spawn _ cwd argv => argv.length = 3 ∧ argument argv 1 = key 0 ∧
        ∃ path ∈ locateConfig l.host.fs cwd (argument argv 2), Session.Plain path
    | .crash pid _ => ∀ p ∈ l.host.process pid, p.Apart
    | _ => True) ∧
  ∀ s ∈ l.host.step a, ∃ p ∈ s.process d, p.phase.Loops

/-- No `load` finds `CONFIG_LOAD` without a word. -/
def Legible (l : Ledger) : Action → Prop
  | .run pid _ => ∀ p ∈ l.host.process pid, p.Loads → match p.next with
      | some (.fread file) => file.path = configLoad → scanWord (l.host.fs.read file) ≠ []
      | _ => True
  | _ => True

/-- All `load`s have ended, and the daemon `d` waits for a signal with no SIGHUP pending. -/
def Quiet (d : Nat) (l : Ledger) : Prop :=
  (∀ q p, l.host.process q = some p → ¬p.Loads) ∧ ∃ p, l.host.process d = some p ∧
    .sighup ∉ p.pending ∧ p.next = some (.sigwaitinfo monitorSignals)

/-- Nothing is lost: a `load` makes ten calls at most and can make the next one until it has sent
its SIGHUP, it does not end before, and when all have ended the daemon has loaded last what was
flushed last. -/
structure Delivered (d : Nat) (l : Ledger) : Prop where
  reaches : ∀ q p, l.host.process q = some p → p.Loads → p.Sent d ∨
    p.past.length < 10 ∧ ∃ choice, (l.step (.run q choice)).isSome = true
  stays : ∀ q p, l.host.process q = some p → p.Loads → ¬p.Sent d → ∀ a l', l.Switches d a →
    l.step a = some l' → (l'.host.process q).isSome = true
  last : l.Quiet d → ∀ text, l.flushed = some text → ∃ path p, text = path.toList ++ ['\n'] ∧
    l.host.process d = some p ∧ p.loaded = some path

end Ledger

namespace Host

variable {s s' : Host} {d : Nat}

/-- What every step keeps. -/
structure Switching (s : Host) (d : Nat) : Prop where
  sound : s.Sound
  daemon : ∃ p, s.process d = some p ∧ p.phase.Loops
  small : d < 65536
  served : Served d s.fs
  roles : ∀ q p, q ≠ d → s.process q = some p → p.Apart ∨ ∃ task, Runs d s.fs task p

/-! ### Who does what -/

variable {a : Action} {q : Nat} {p p' : Process} {task : Task} {c : Call}

theorem Switching.lawful (h : s.Switching d) (hp : s.process q = some p) : p.Lawful :=
  h.sound.masked.lawful.process q p hp

/-- A process that makes a call is the daemon, a master or a `load`. -/
theorem Switching.actor (h : s.Switching d) (hp : s.process q = some p) (hnext : p.next = some c) :
    q = d ∧ p.phase.Loops ∨ p.phase = .monitoring .master ∨ q ≠ d ∧ ∃ task, Runs d s.fs task p := by
  by_cases hq : q = d
  · obtain ⟨r, hr, hloops⟩ := h.daemon
    rw [hq, hr] at hp
    cases hp
    exact .inl ⟨hq, hloops⟩
  · rcases h.roles q p hq hp with hapart | hruns
    · exact .inr (.inl (hapart.master hnext))
    · exact .inr (.inr ⟨hq, hruns⟩)

/-- A monitor changes no file but on its way out, and writes none. -/
theorem effect_of_watch {watch : Watch} (h : watch.allows c) (hleaving : ¬watch.Leaving)
    (fs : FileSystem) : c.effect fs = fs ∧ ∀ file text, c ≠ .fwrite file text := by
  cases c with
  | fopen path mode => cases mode with
      | r => exact ⟨rfl, nofun⟩
      | w => exact absurd h.2 Bool.false_ne_true
  | fwrite file text => exact absurd h.2 Bool.false_ne_true
  | mkdir path => exact absurd h.2 Bool.false_ne_true
  | unlink path => exact absurd h.1 hleaving
  | _ => exact ⟨rfl, nofun⟩

/-- A monitor in its loop or a master. -/
theorem effect_of_monitor (h : p.Lawful) (hnext : p.next = some c)
    (hphase : p.phase.Loops ∨ p.phase = .monitoring .master) (fs : FileSystem) :
    c.effect fs = fs ∧ ∀ file text, c ≠ .fwrite file text := by
  have hwatch : ∃ watch, p.phase = .monitoring watch ∧ ¬watch.Leaving := by
    rcases hphase with hloops | hmaster
    · obtain ⟨watch, heq, hwatch⟩ := hloops.watch
      exact ⟨watch, heq, hwatch.not_leaving⟩
    · exact ⟨.master, hmaster, id⟩
  obtain ⟨watch, heq, hleaving⟩ := hwatch
  have hallows := allows_of_next h hnext
  rw [heq] at hallows
  exact effect_of_watch hallows hleaving fs

/-- A `load` changes the files by its truncation and its flush. -/
theorem effect_of_errand {φ : Errand} (h : φ.next task = some c) (fs : FileSystem) :
    (c.effect fs = fs ∧ ∀ file text, c ≠ .fwrite file text) ∨
      φ = .located ∧ c = .fopen configLoad .w ∨
      ∃ file, φ = .opened file ∧ c = .fwrite file (task.path.toList ++ ['\n']) := by
  cases φ with
  | located => exact .inr (.inl ⟨rfl, (Option.some.inj h).symm⟩)
  | opened file => exact .inr (.inr ⟨file, rfl, (Option.some.inj h).symm⟩)
  | sent => cases h
  | _ =>
      obtain rfl := Option.some.inj h
      exact .inl ⟨rfl, nofun⟩

/-- What a process makes of the files. -/
theorem Switching.effect (h : s.Switching d) (hp : s.process q = some p) (hnext : p.next = some c) :
    (c.effect s.fs = s.fs ∧ ∀ file text, c ≠ .fwrite file text) ∨
      ∃ task, q ≠ d ∧ Runs d s.fs task p ∧ (p.errand = .located ∧ c = .fopen configLoad .w ∨
        ∃ file, p.errand = .opened file ∧ c = .fwrite file (task.path.toList ++ ['\n'])) := by
  rcases h.actor hp hnext with ⟨-, hloops⟩ | hmaster | ⟨hq, task, hruns⟩
  · exact .inl (effect_of_monitor (h.lawful hp) hnext (.inl hloops) s.fs)
  · exact .inl (effect_of_monitor (h.lawful hp) hnext (.inr hmaster) s.fs)
  · exact (effect_of_errand (hruns.next hnext) s.fs).imp_right fun hwrites =>
      ⟨task, hq, hruns, hwrites⟩

/-- The names stay what they are, and the daemon stays served. -/
theorem Switching.effect_steady (h : s.Switching d) (hp : s.process q = some p)
    (hnext : p.next = some c) : Steady s.fs (c.effect s.fs) ∧ Served d (c.effect s.fs) := by
  rcases h.effect hp hnext with ⟨hsame, -⟩ | ⟨task, -, hruns, ⟨-, rfl⟩ | ⟨file, hopened, rfl⟩⟩
  · rw [hsame]
    exact ⟨.refl _, h.served⟩
  · obtain ⟨hsteady, hcontent, -⟩ := truncates h.served
    exact ⟨hsteady, hsteady.served h.served ⟨[], hcontent, by decide⟩⟩
  · have hopen := hruns.holds
    rw [hopened] at hopen
    obtain ⟨hsteady, hcontent⟩ := flushes hopen (task.path.toList ++ ['\n'])
    refine ⟨hsteady, hsteady.served h.served ⟨_, hcontent, ?_⟩⟩
    rw [(readers_of_line hruns.fits.plain _).1]
    exact hruns.fits.plain.2.2

theorem Switching.steady (h : s.Switching d) (hstep : s.step a = some s') :
    Steady s.fs s'.fs ∧ Served d s'.fs := by
  rcases act_of_step h.sound.masked.lawful hstep with
    hsame | ⟨q, choice, p, e, -, hp, hnext, -, -, hfs, -⟩
  · rw [hsame]
    exact ⟨.refl _, h.served⟩
  · rw [hfs]
    exact h.effect_steady hp hnext

/-- A `load` sends SIGHUP to the daemon when it has flushed its line. -/
theorem target_of_runs (h : Runs d s.fs task p) {target : Int} {signal : Signal}
    (hnext : p.next = some (.kill target signal)) :
    target = d ∧ signal = .sighup ∧ p.errand = .flushed := by
  have hcall := h.next hnext
  cases hphase : p.errand with
  | flushed =>
      rw [hphase] at hcall
      cases hcall
      exact ⟨congrArg _ h.fits.daemon, rfl, rfl⟩
  | _ =>
      rw [hphase] at hcall
      cases hcall

/-- Signals are sent by the daemon to its child and by `load`s to the daemon. -/
theorem Switching.target (h : s.Switching d) (hp : s.process q = some p) {target : Int}
    {signal : Signal} (hnext : p.next = some (.kill target signal)) :
    s.parentOf target.toNat = some d ∨ target.toNat = d := by
  rcases h.actor hp hnext with ⟨rfl, hloops⟩ | hmaster | ⟨-, task, hruns⟩
  · exact .inl (target_of_kill h.sound.masked.lawful h.sound.heirs hp hloops.inside hnext)
  · have hallows := allows_of_next (h.lawful hp) hnext
    rw [hmaster] at hallows
    rcases hallows with ⟨child, -, ⟨-, hgot⟩ | ⟨-, last, hgot, -⟩⟩ <;> cases hgot
  · obtain ⟨rfl, -⟩ := target_of_runs hruns hnext
    exact .inr rfl

/-! ### The roles -/

variable {e : Event} {choice : Choice} {flushed : Option (List Char)}

/-- A signal to a live process can be sent. -/
theorem ok_of_kill (hstep : s.step (.run q choice) = some s') (hp : s.process q = some p)
    (hp' : s'.process q = some p') (hacted : Acted p e p') {target : Int} {signal : Signal}
    (hkill : e.1 = .kill target signal) {t : Process} (ht : s.process target.toNat = some t) :
    e = ⟨.kill target signal, .ok ()⟩ := by
  obtain ⟨next, hcode, -⟩ := hacted.code
  cases steps_of_step hstep with
  | call hp₀ hcode₀ hanswer =>
      rename_i r c next₀ answer s₁
      obtain rfl := Option.some.inj (hp₀.symm.trans hp)
      rcases process_update hp' with ⟨r', -, hr', rfl⟩ | ⟨hne, -⟩
      · obtain ⟨r₀, hr₀, hsame⟩ := (answered_of_answer hanswer).process q r' hr'
        obtain rfl := Option.some.inj (hr₀.symm.trans hp)
        have hpast : r₀.past ++ [⟨c, answer⟩] = r₀.past ++ [e] := by
          rw [← hacted.past, ← hsame.past]
          rfl
        -- the call that was answered is the one that was added to the past
        obtain rfl := List.head_eq_of_cons_eq (List.append_cancel_left hpast)
        obtain rfl : c = .kill target signal := hkill
        have hok : (s.kill target signal).1 = answer := congrArg Prod.fst (Option.some.inj hanswer)
        rw [← hok, kill, ht]
        dsimp only
        split <;> rfl
      · exact absurd rfl hne
  | fork hp₀ hcode₀ hfree =>
      obtain rfl := Option.some.inj (hp₀.symm.trans hp)
      rw [hcode₀] at hcode
      obtain hcall : Call.fork = e.1 := (Program.call.inj hcode).1
      rw [hkill] at hcall
      cases hcall

/-- Nobody adopts a process. -/
theorem orphan_step (hstep : s.step a = some s') (hp : s.process q = some p)
    (hp' : s'.process q = some p') (horphan : p.parent = none) : p'.parent = none := by
  cases hparent : p'.parent with
  | none => rfl
  | some m =>
      rcases parentOf_of_step hstep ((parentOf_live hp').trans hparent) with hold | ⟨-, hfree, -⟩
      · rw [parentOf_live hp, horphan] at hold
        cases hold
      · rw [hfree.2.1] at hp
        cases hp

/-- A `load` goes on. -/
theorem Switching.runs_acted (h : s.Switching d)
    (hlegible : Ledger.Legible ⟨s, flushed⟩ (.run q choice))
    (hstep : s.step (.run q choice) = some s') (hp : s.process q = some p)
    (hp' : s'.process q = some p') (hruns : Runs d s.fs task p) (hacted : Acted p e p')
    (hanswers : s.Answers q choice e) (hfs : s'.fs = e.1.effect s.fs) : Runs d s'.fs task p' := by
  obtain ⟨next, hcode, -⟩ := hacted.code
  have hnext : p.next = some e.1 := next_of_code hcode
  have hcall : p.errand.next task = some e.1 := hruns.next hnext
  obtain ⟨t, ht, -⟩ := h.daemon
  have hexpects : p.errand.expects task e := by
    refine expects_of_served h.served hruns.fits hruns.holds
      (listed_of_process h.sound.masked.lawful ht) (fun file hreading => ?_)
      (fun pid signal hkill => ?_) hcall hanswers
    · have hread := hlegible p hp hruns.loads
      have hholds := hruns.holds
      rw [hreading] at hcall hholds
      rw [hnext, ← Option.some.inj hcall] at hread
      exact hread hholds.1
    · obtain ⟨rfl, -⟩ := target_of_runs hruns (hnext.trans (congrArg some hkill))
      exact ok_of_kill hstep hp hp' hacted hkill ht
  rw [hfs]
  exact hruns.acted (h.lawful hp) hacted hexpects hanswers (h.effect_steady hp hnext).1
    (orphan_step hstep hp hp' hruns.orphan)

/-- A `load` begins. -/
theorem Switching.runs_spawned (h : s.Switching d) {cwd : Path} {argv : List String}
    (hswitches : Ledger.Switches d ⟨s, flushed⟩ (.spawn q cwd argv)) :
    ∃ task, Runs d s.fs task (.ofCommand cwd argv) := by
  obtain ⟨⟨hlength, hload, path, hlocated, hplain⟩, -⟩ := hswitches
  let task : Task := ⟨d, cwd, argument argv 2, path⟩
  refine ⟨task, ?_, ⟨rfl, hlocated, hplain⟩, trivial, ⟨hload, trivial⟩, rfl, ?_, nofun⟩
  · have hconforms : Conforms (errand task) (fun φ next => φ = .sent ∧ ∃ code, next = .exit code)
        .arriving (main cwd argv).program := conforms_load h.small hlength hload rfl
    exact conforms_settle_exit hconforms fun ψ next hpost => hpost.2
  · exact Nat.le_refl 10

/-- The step of the roles. -/
theorem Switching.roles_step (h : s.Switching d) (hswitches : Ledger.Switches d ⟨s, flushed⟩ a)
    (hlegible : Ledger.Legible ⟨s, flushed⟩ a) (hstep : s.step a = some s') (hq : q ≠ d)
    (hp' : s'.process q = some p') : p'.Apart ∨ ∃ task, Runs d s'.fs task p' := by
  have hsteady := (h.steady hstep).1
  cases fate_of_step hstep hp' with
  | kept p hp hsame hother =>
      refine (h.roles q p hq hp).imp hsame.apart ?_
      rintro ⟨task, hruns⟩
      exact ⟨task, hruns.same hsteady hsame (orphan_step hstep hp hp' hruns.orphan)⟩
  | spawned cwd argv ha hfree heq =>
      subst ha heq
      obtain ⟨task, hruns⟩ := h.runs_spawned hswitches
      exact .inr ⟨task, hruns.same hsteady (.refl _) rfl⟩
  | other ha hfree heq =>
      subst heq
      exact .inl (.inr ⟨trivial, by decide⟩)
  | acted choice p e ha hp hacted hanswers hfs =>
      subst ha
      obtain ⟨next, hcode, -⟩ := hacted.code
      refine (h.roles q p hq hp).imp (fun hapart => ?_) ?_
      · have hmoves := moves_of_lawful (h.lawful hp) hcode (expects_of_answers hanswers)
        rw [← phase_snoc hacted.past, hapart.master (next_of_code hcode)] at hmoves
        exact .inl (Life.master_stays hmoves)
      · rintro ⟨task, hruns⟩
        exact ⟨task, h.runs_acted hlegible hstep hp hp' hruns hacted hanswers hfs⟩
  | born parent p ha hfree hp hparent hacted hfs =>
      obtain ⟨next, hcode, -⟩ := hacted.code
      have hmoves := moves_of_lawful (h.lawful hp) hcode ⟨.inl rfl, trivial⟩
      rw [← phase_snoc hacted.past] at hmoves
      rcases Life.moves_child hmoves with ⟨hstarting, -⟩ | ⟨-, hmaster⟩
      · -- nobody is about to become a daemon
        rcases h.actor hp (next_of_code hcode) with ⟨-, hloops⟩ | hmaster | ⟨-, task, hruns⟩
        · rw [hstarting] at hloops
          exact absurd hloops id
        · rw [hstarting] at hmaster
          cases hmaster
        · have hcall := hruns.next (next_of_code hcode)
          cases hphase : p.errand <;> rw [hphase] at hcall <;> cases hcall
      · exact .inl (.inl hmaster)

theorem Switching.step (h : s.Switching d) (hswitches : Ledger.Switches d ⟨s, flushed⟩ a)
    (hlegible : Ledger.Legible ⟨s, flushed⟩ a) (hstep : s.step a = some s') : s'.Switching d where
  sound := sound_step h.sound hstep
  daemon := by
    obtain ⟨p, hp, hloops⟩ := hswitches.2 s' hstep
    exact ⟨p, hp, hloops⟩
  small := h.small
  served := (h.steady hstep).2
  roles _ _ := h.roles_step hswitches hlegible hstep

end Host

end Robotd
