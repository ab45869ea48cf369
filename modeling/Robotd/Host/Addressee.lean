import Robotd.Host.Restart
import Robotd.Host.Single

/-!
# Whom the command line signals

A command reads a number from the PID file, finds it in `/proc` and sends its signal there. The PID
file outlives a monitor that is killed, so the number may by then be that of another process:
`Unheld` forbids that, and `addressed_monitor` shows that the command then signals a monitor or
nobody. A program that gets the number of a killed monitor is signalled (`stranger_addressed`).
-/

namespace Robotd

open Lib Lib.CLib Cli

/-- The number that `fscanf` takes for a process id from this text. -/
def pidIn (text : List Char) : Nat := (scanU16 text).value

theorem pidIn_nil : pidIn [] = 0 := by decide

theorem pidIn_line {n : Nat} (hn : n < 65536) (rest : List Char) :
    pidIn (decimal n ++ '\n' :: rest) = n := by
  have hnumber : number (decimal n ++ '\n' :: rest) = some (false, n) :=
    number_decimal (by simp)
  have hle : ¬ 2 ^ 64 ≤ n := by omega
  have hmod : n % 2 ^ 16 = n := Nat.mod_eq_of_lt hn
  simp only [pidIn, scanU16, hnumber, strtoul, hle, Bool.false_eq_true, if_false, hmod]

namespace Life

/-- The process id that a command has in hand. -/
def inHand (fs : FileSystem) : Life → Option Nat
  | found h => some (pidIn (fs.read h))
  | numbered text => some (pidIn text)
  | addressed pid => some pid
  | _ => none

/-- Handles are open on the PID file, and a daemon writes its own number. -/
def Signs (pid : Nat) : Life → Prop
  | found h | created h => h.path = pidFile
  | signed h n => h.path = pidFile ∧ n = pid
  | _ => True

variable {option : String} {φ φ' : Life} {e : Event}

theorem Opens.not_monitor (h : φ.Opens) : ¬φ.Monitor := by
  cases φ with
  | numbered | vacant | wordless | told => exact id
  | _ => exact absurd h id

/-- A monitor stays one. -/
theorem monitor_of_moves (h : Moves option φ e φ') (hmonitor : φ.Monitor) (hfork : e ≠ ⟨.fork, .child⟩) :
    φ'.Monitor := by
  cases h with
  | rest | fails => exact hmonitor
  | watch r => exact nofun
  | monitor hmoves =>
      intro hmaster
      subst hmaster
      cases hmoves with
      | background hcalm hc r => exact hmonitor rfl
      | child => exact hfork rfl
      | masterSignal signal => exact hmonitor rfl
  | start hopens r => exact absurd hmonitor hopens.not_monitor
  | _ => exact absurd hmonitor id

theorem signs_of_moves {s : Host} {pid : Nat} {choice : Choice} (h : Moves option φ e φ')
    (hanswers : s.Answers pid choice e) (hsigns : φ.Signs pid) : φ'.Signs pid := by
  cases h with
  | rest | fails => exact hsigns
  | look => exact (FileSystem.openRead_ok (Eq.symm hanswers)).1
  | create =>
      rename_i h
      have hopen : s.fs.openWrite pidFile = (.ok h, (s.fs.openWrite pidFile).2) :=
        Prod.ext (Eq.symm hanswers) rfl
      exact (FileSystem.openWrite_ok hopen).1
  | sign => exact ⟨hsigns, hanswers⟩
  | _ => trivial

/-- The text holds no number that a command could signal, or that of this monitor. -/
def Harmless (pid : Nat) (φ : Life) (text : List Char) : Prop :=
  pidIn text = 0 ∨ pidIn text = pid ∧ φ.Monitor

/-- What a call leaves in the PID file. -/
theorem refilled_of_moves {fs : FileSystem} {pid : Nat} (h : Moves option φ e φ')
    (hsigns : φ.Signs pid) (hpid : pid < 65536) :
    FileSystem.Refilled (Harmless pid φ') (fs.file pidFile) ((e.1.effect fs).file pidFile) := by
  have hempty : Harmless pid φ' [] := .inl pidIn_nil
  have hsame : (e.1.effect fs).file pidFile = fs.file pidFile →
      FileSystem.Refilled (Harmless pid φ') (fs.file pidFile) ((e.1.effect fs).file pidFile) := by
    intro hfile
    rw [hfile]
    exact .refl _
  have htouch : e.1.touches = true →
      FileSystem.Refilled (Harmless pid φ') (fs.file pidFile) ((e.1.effect fs).file pidFile) := by
    obtain ⟨c, r⟩ := e
    intro htouches
    cases c with
    | unlink path =>
        obtain rfl : path = pidFile := of_decide_eq_true htouches
        exact fs.refilled_unlink pidFile
    | fopen path mode => cases mode with
        | r => cases htouches
        | w =>
            obtain rfl : path = pidFile := of_decide_eq_true htouches
            exact fs.refilled_fopen pidFile .w hempty
    | _ => cases htouches
  cases h with
  | rest hφ hc r => exact hsame (file_of_records hc)
  | clear | create => exact htouch rfl
  | fails hφ hc r => exact htouch hc
  | register r =>
      rename_i h n
      obtain ⟨hpath, rfl⟩ := hsigns
      rw [← hpath]
      refine fs.refilled_write h (.inr ⟨?_, trivial⟩)
      rw [List.append_assoc]
      exact pidIn_line hpid _
  | monitor hmoves =>
      cases htouches : e.1.touches with
      | true => exact htouch htouches
      | false => exact hsame (file_of_monitor hmoves htouches)
  | _ => exact hsame rfl

theorem inHand_congr {fs fs' : FileSystem} {pid : Nat} (hsigns : φ.Signs pid)
    (hfile : fs'.file pidFile = fs.file pidFile) : φ.inHand fs' = φ.inHand fs := by
  cases φ with
  | found h =>
      have hpath : h.path = pidFile := hsigns
      simp only [inHand, FileSystem.read, hpath, hfile]
  | _ => rfl

/-- What a command comes to have in hand: what it had, or what is in the PID file. -/
theorem inHand_of_moves {s : Host} {pid n : Nat} {choice : Choice} (h : Moves option φ e φ')
    (hanswers : s.Answers pid choice e) (hsigns : φ.Signs pid)
    (hhand : φ'.inHand (e.1.effect s.fs) = some n) :
    φ.inHand s.fs = some n ∨ ∃ text, (s.fs.file pidFile).content = some text ∧ pidIn text = n := by
  cases h with
  | rest hφ hc r => exact .inl (inHand_congr hsigns (file_of_records hc) ▸ hhand)
  | look =>
      rename_i h
      obtain ⟨hpath, hcurrent⟩ := FileSystem.openRead_ok (Eq.symm hanswers)
      refine .inr ⟨s.fs.read h, ?_, Option.some.inj hhand⟩
      rw [File.content, hcurrent, FileSystem.read, hpath]
      rfl
  | scan =>
      rename_i h text
      obtain rfl : text = s.fs.read h := hanswers
      exact .inl hhand
  | alive hany => exact .inl hhand
  | signal hsignal r => exact .inl hhand
  | fails hφ hc r => rcases hφ with rfl | rfl <;> cases hhand
  | _ => cases hhand

/-- A command sends its own signal, to the number it has found alive. -/
theorem addressed_of_kill (hforeground : φ.Foreground) {target : Int} {signal : Signal}
    (h : φ.allows option (.kill target signal)) :
    ∃ n : Nat, φ = addressed n ∧ target = n ∧ signalOf option = some signal := by
  cases φ with
  | addressed n =>
      rcases h with hrecords | ⟨signal', hkill, hsignal⟩
      · exact absurd hrecords id
      · cases hkill
        exact ⟨n, rfl, rfl, hsignal⟩
  | arriving | stale | starting =>
      rcases h with htalks | hother
      · cases htalks
      · cases hother
  | numbered text =>
      rcases h with htalks | hother | ⟨⟨path, hother⟩, -⟩
      · cases htalks
      · cases hother
      · cases hother
  | vacant | wordless | told =>
      rcases h with hrecords | ⟨path, hother⟩
      · exact absurd hrecords id
      · cases hother
  | found f => cases h
  | parted => exact absurd h id
  | registering | created | signed | registered | monitoring => exact absurd hforeground id

end Life

namespace Host

variable {s s' : Host} {a : Action}

/-- The number is in the PID file, or a command has it in hand. -/
def Held (s : Host) (n : Nat) : Prop :=
  (∃ text ∈ (s.fs.file pidFile).content, pidIn text = n) ∨
    ∃ pid ∈ s.pids, ∃ p ∈ s.process pid, p.phase.inHand s.fs = some n

/-- Whoever has the number is a monitor. -/
def Safe (s : Host) (n : Nat) : Prop := ∀ p, s.process n = some p → p.phase.Monitor

/-- A new process gets a number below 65536 that is not held. -/
def Unheld (s : Host) : Action → Prop
  | .spawn n _ _ | .other n | .run _ (.child n) => s.Free n → n < 65536 ∧ ¬s.Held n
  | _ => True

/-- Every number that a command may signal is safe. -/
structure Known (s : Host) : Prop where
  lawful : s.Lawful
  numbered : ∀ pid p, s.process pid = some p → 0 < pid ∧ pid < 65536
  signs : ∀ pid p, s.process pid = some p → p.phase.Signs pid
  safe : ∀ n, s.Held n → s.Safe n

/-- A text under the name of the PID file is an old one or harmless. -/
theorem refilled_of_step (h : s.Known) (hstep : s.step a = some s') :
    FileSystem.Refilled (fun text => pidIn text = 0 ∨ s'.Safe (pidIn text))
      (s.fs.file pidFile) (s'.fs.file pidFile) := by
  rcases act_of_step h.lawful hstep with hfs | ⟨pid, choice, p, e, -, hp, -, hmoves, -, hfs, hphase⟩
  · rw [hfs]
    exact .refl _
  · rw [hfs]
    have hharmless : ∀ text, Life.Harmless pid (p.phase.after e) text →
        pidIn text = 0 ∨ s'.Safe (pidIn text) := by
      intro text htext
      refine htext.imp id fun ⟨hpid, hmonitor⟩ => ?_
      rw [hpid]
      intro p' hp'
      rw [hphase p' hp']
      exact hmonitor
    have hrefilled : FileSystem.Refilled _ (s.fs.file pidFile) ((e.1.effect s.fs).file pidFile) :=
      Life.refilled_of_moves hmoves (h.signs pid p hp) (h.numbered pid p hp).2
    exact hrefilled.mono hharmless

/-- A number that is held after a step was held before, or is safe. -/
theorem held_of_step (h : s.Known) (hstep : s.step a = some s') {n : Nat} (hheld : s'.Held n) :
    s.Held n ∨ n = 0 ∨ s'.Safe n := by
  have hrefilled := refilled_of_step h hstep
  rcases hheld with ⟨text, hcontent, rfl⟩ | ⟨pid, -, p', hp', hhand⟩
  · obtain ⟨ino, hcurrent, rfl⟩ := Option.map_eq_some_iff.mp hcontent
    rcases hrefilled.current ino hcurrent with hold | hharmless
    · rcases hrefilled.data ino with hdata | hharmless
      · refine .inl (.inl ⟨(s.fs.file pidFile).data ino, ?_, by rw [hdata]⟩)
        exact Option.map_eq_some_iff.mpr ⟨ino, hold, rfl⟩
      · exact .inr hharmless
    · exact .inr hharmless
  · cases course_of_step h.lawful hstep hp' with
    | kept p hp hphase hoption hother =>
        rw [hphase] at hhand
        by_cases hfound : ∃ f, p.phase = .found f
        · -- the file that the command has open may have been written since
          obtain ⟨f, hfound⟩ := hfound
          have hpath : f.path = pidFile := by
            have hsigns := h.signs pid p hp
            rw [hfound] at hsigns
            exact hsigns
          rw [hfound] at hhand
          obtain rfl := Option.some.inj hhand
          rcases hrefilled.data f.ino with hdata | hharmless
          · refine .inl (.inr ⟨pid, h.lawful.listed pid p hp, p, hp, ?_⟩)
            rw [hfound, Life.inHand, FileSystem.read, FileSystem.read, hpath, hdata]
          · rw [FileSystem.read, hpath]
            exact .inr hharmless
        · refine .inl (.inr ⟨pid, h.lawful.listed pid p hp, p, hp, ?_⟩)
          cases hφ : p.phase with
          | found f => exact absurd ⟨f, hφ⟩ hfound
          | _ =>
              rw [hφ] at hhand
              exact hhand
    | spawned cwd argv ha hfree hphase hoption | other ha hfree hphase hoption =>
        rw [hphase] at hhand
        cases hhand
    | acted choice p e ha hp hnext hmoves hoption hanswers hfs =>
        rw [hfs] at hhand
        refine .inl ((Life.inHand_of_moves hmoves hanswers (h.signs pid p hp) hhand).symm.imp ?_ ?_)
        · exact id
        · exact fun hhand => ⟨pid, h.lawful.listed pid p hp, p, hp, hhand⟩
    | born parent p ha hfree hp hnext hparent hoption hphases hfs =>
        rcases hphases with ⟨-, hborn⟩ | ⟨-, hborn⟩ <;> rw [hborn] at hhand <;> cases hhand

/-- A monitor stays one, and nobody else gets its number. -/
theorem safe_step (hlawful : s.Lawful) (hunheld : s.Unheld a) (hstep : s.step a = some s') {n : Nat}
    (hheld : s.Held n) (hsafe : s.Safe n) : s'.Safe n := by
  intro p' hp'
  cases course_of_step hlawful hstep hp' with
  | kept p hp hphase hoption hother =>
      rw [hphase]
      exact hsafe p hp
  | spawned cwd argv ha hfree hphase hoption =>
      subst ha
      exact absurd hheld (hunheld hfree).2
  | other ha hfree hphase hoption =>
      subst ha
      exact absurd hheld (hunheld hfree).2
  | acted choice p e ha hp hnext hmoves hoption hanswers hfs =>
      refine Life.monitor_of_moves hmoves (hsafe p hp) ?_
      rintro rfl
      obtain ⟨child, -, hchild⟩ := hanswers
      cases hchild
  | born parent p ha hfree hp hnext hparent hoption hphases hfs =>
      subst ha
      exact absurd hheld (hunheld hfree).2

theorem signs_step (h : s.Known) (hstep : s.step a = some s') {pid : Nat} {p' : Process}
    (hp' : s'.process pid = some p') : p'.phase.Signs pid := by
  cases course_of_step h.lawful hstep hp' with
  | kept p hp hphase hoption hother =>
      rw [hphase]
      exact h.signs pid p hp
  | spawned cwd argv ha hfree hphase hoption | other ha hfree hphase hoption =>
      rw [hphase]
      trivial
  | acted choice p e ha hp hnext hmoves hoption hanswers hfs =>
      exact Life.signs_of_moves hmoves hanswers (h.signs pid p hp)
  | born parent p ha hfree hp hnext hparent hoption hphases hfs =>
      rcases hphases with ⟨-, hborn⟩ | ⟨-, hborn⟩ <;> rw [hborn] <;> trivial

theorem numbered_step (h : s.Known) (hunheld : s.Unheld a) (hstep : s.step a = some s') {pid : Nat}
    {p' : Process} (hp' : s'.process pid = some p') : 0 < pid ∧ pid < 65536 := by
  cases course_of_step h.lawful hstep hp' with
  | kept p hp hphase hoption hother => exact h.numbered pid p hp
  | acted choice p e ha hp hnext hmoves hoption hanswers hfs => exact h.numbered pid p hp
  | spawned cwd argv ha hfree hphase hoption =>
      subst ha
      exact ⟨hfree.1, (hunheld hfree).1⟩
  | other ha hfree hphase hoption =>
      subst ha
      exact ⟨hfree.1, (hunheld hfree).1⟩
  | born parent p ha hfree hp hnext hparent hoption hphases hfs =>
      subst ha
      exact ⟨hfree.1, (hunheld hfree).1⟩

/-- The step lemma. -/
theorem known_step (h : s.Known) (hunheld : s.Unheld a) (hstep : s.step a = some s') : s'.Known := by
  refine ⟨lawful_step h.lawful hstep, ?_, ?_, fun n hheld => ?_⟩
  · exact fun pid p' => numbered_step h hunheld hstep
  · exact fun pid p' => signs_step h hstep
  · rcases held_of_step h hstep hheld with hold | rfl | hsafe
    · exact safe_step h.lawful hunheld hstep hold (h.safe n hold)
    · intro p' hp'
      exact absurd (numbered_step h hunheld hstep hp').1 (by omega)
    · exact hsafe

theorem known_idle (h : s.Idle) : s.Known := by
  have hnone : ∀ {pid p}, s.process pid ≠ some p := by
    intro pid p hp
    rw [h pid] at hp
    cases hp
  exact ⟨lawful_idle h, fun _ _ hp => absurd hp hnone, fun _ _ hp => absurd hp hnone,
    fun _ _ _ hp => absurd hp hnone⟩

/-- As long as no new process gets a number that the PID file holds or a command has in hand, a
command signals a monitor or nobody. -/
theorem addressed_monitor (h : Machine.Reached step Unheld Idle s) {pid : Nat} {p : Process}
    (hp : s.process pid = some p) (hforeground : p.phase.Foreground) {target : Int} {signal : Signal}
    (hkill : p.next = some (.kill target signal)) {t : Process}
    (ht : s.process target.toNat = some t) : t.phase.Monitor := by
  have hknown : s.Known := h.invariant (fun _ => known_idle) fun _ _ _ => known_step
  have hallows := allows_of_next (hknown.lawful.process pid p hp) hkill
  obtain ⟨n, hphase, rfl, -⟩ := Life.addressed_of_kill hforeground hallows
  refine hknown.safe n (.inr ⟨pid, hknown.lawful.listed pid p hp, p, hp, ?_⟩) t ht
  rw [hphase]
  rfl

/-! ## Runs -/

instance (n : Nat) : Decidable (s.Held n) := by
  unfold Held
  infer_instance

instance : Decidable (s.Unheld a) := match a with
  | .spawn n _ _ | .other n | .run _ (.child n) =>
      inferInstanceAs (Decidable (s.Free n → n < 65536 ∧ ¬s.Held n))
  | .run _ .none | .run _ (.listing _) | .run _ (.setup _) | .run _ (.signal _) | .run _ (.load _)
    | .run _ (.services _) | .exit _ | .abort _ | .crash _ _ => isTrue trivial

/-- `stop` of a daemon that its PID file names, up to the SIGTERM. -/
def stopping (pid : Nat) : List Action :=
  [.spawn pid "/" ["robotd", "stop"]] ++ calls pid 2 ++ [.run pid (.listing [])] ++ calls pid 2

/-- `stop` signals the monitor. -/
theorem stop_addresses_monitor : ∃ s p t,
    Machine.run step installed (loading 100 101 102 ++ stopping 200) = some s ∧
      s.process 200 = some p ∧ p.next = some (.kill 101 .sigterm) ∧ s.process 101 = some t ∧
      t.phase.Monitor := by
  have hrun : ∃ s, Machine.run step installed (loading 100 101 102 ++ stopping 200) = some s ∧
      (s.process 200).any (fun p => decide (p.phase.Foreground ∧
        p.next = some (.kill 101 .sigterm))) = true ∧
      (s.process 101).isSome = true :=
    Machine.exists_run (by decide +kernel)
  obtain ⟨s, hrun, hcommand, hmonitor⟩ := hrun
  obtain ⟨p, hp, hcommand⟩ := (Option.any_eq_true _ _).mp hcommand
  obtain ⟨hforeground, hkill⟩ := of_decide_eq_true hcommand
  obtain ⟨t, ht⟩ := Option.isSome_iff_exists.mp hmonitor
  have halong : Machine.Along step Unheld installed (loading 100 101 102 ++ stopping 200) := by
    decide +kernel
  have hreached := Machine.Reached.run (.start (idle_ofFiles _)) halong hrun
  exact ⟨s, p, t, hrun, hp, hkill, ht, addressed_monitor hreached hp hforeground hkill ht⟩

/-- Every new process gets a number below 65536. -/
def Counted (_ : Host) : Action → Prop
  | .spawn n _ _ | .other n | .run _ (.child n) => n < 65536
  | _ => True

instance : Decidable (s.Counted a) := match a with
  | .spawn n _ _ | .other n | .run _ (.child n) => inferInstanceAs (Decidable (n < 65536))
  | .run _ .none | .run _ (.listing _) | .run _ (.setup _) | .run _ (.signal _) | .run _ (.load _)
    | .run _ (.services _) | .exit _ | .abort _ | .crash _ _ => isTrue trivial

/-- The monitor is killed, another program gets its number, and `stop` signals that program. -/
theorem stranger_addressed : ¬ ∀ s, Machine.Reached step Counted Idle s →
    ∀ pid p, s.process pid = some p → p.phase.Foreground → ∀ target signal,
      p.next = some (.kill target signal) → ∀ t, s.process target.toNat = some t →
        t.phase.Monitor := by
  intro hall
  have hrun : ∃ s, Machine.run step installed (loading 100 101 102 ++
        [.crash 101 (.signaled 9 false), .other 101] ++ stopping 200) = some s ∧
      (s.process 200).any (fun p => decide (p.phase.Foreground ∧
        p.next = some (.kill 101 .sigterm))) = true ∧
      (s.process 101).any (fun t => decide (¬t.phase.Monitor)) = true :=
    Machine.exists_run (by decide +kernel)
  obtain ⟨s, hrun, hcommand, hstranger⟩ := hrun
  obtain ⟨p, hp, hcommand⟩ := (Option.any_eq_true _ _).mp hcommand
  obtain ⟨hforeground, hkill⟩ := of_decide_eq_true hcommand
  obtain ⟨t, ht, hstranger⟩ := (Option.any_eq_true _ _).mp hstranger
  have halong : Machine.Along step Counted installed (loading 100 101 102 ++
      [.crash 101 (.signaled 9 false), .other 101] ++ stopping 200) := by
    decide +kernel
  have hreached := Machine.Reached.run (.start (idle_ofFiles _)) halong hrun
  exact of_decide_eq_true hstranger
    (hall s hreached 200 p hp hforeground 101 .sigterm hkill t ht)

end Host

end Robotd
