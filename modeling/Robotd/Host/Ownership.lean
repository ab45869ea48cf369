import Robotd.Host.Conduct

/-!
# The PID file and its owner

A process owns the PID file from its creation in `set_pid_file` on, and as a monitor as long as it
`serves`; what that means is a parameter. `Marked` says that there is one owner and that the PID
file is its own. `marked_step` shows that every step keeps that, unless a process removes or
truncates the file of another: that is what `Undisturbed` forbids.

Nothing in the code forbids it. `restart` starts the new daemon while the old one is on its way
out, and both remove the PID file by name.
-/

namespace Robotd

open Lib Lib.CLib

/-- A part of the life of a monitor that only a removal of the PID file ends for good. -/
structure Serving (serves : Watch → Prop) : Prop where
  back : ∀ {watch watch' : Watch} {e : Event}, Moves watch e watch' → serves watch' →
    serves watch ∧ e.1.touches = false
  master : ¬serves .master

theorem touches_of_background {c : Call} (hc : c.background = true) : c.touches = false := by
  cases c with
  | fopen path mode => cases mode with
      | r => rfl
      | w => cases hc
  | unlink path => cases hc
  | _ => rfl

/-- The monitor is in its loop. -/
theorem serving_loops : Serving Watch.Loops := by
  refine ⟨fun {watch watch' e} hmoves hserves => ?_, id⟩
  cases hmoves with
  | background hcalm hc r => exact ⟨hserves, touches_of_background hc⟩
  | forked hpid => exact ⟨trivial, rfl⟩
  | signal hwatch signal =>
      refine ⟨?_, rfl⟩
      rcases hwatch with rfl | rfl
      · trivial
      · exact .inl rfl
  | forward r | stop hleaving r => exact ⟨hserves, rfl⟩
  | reap hstatus => exact ⟨.inr rfl, rfl⟩
  | child | masterSignal | reapLast | unlink => exact absurd hserves id

/-- The monitor has not removed its PID file yet. -/
def Watch.Present : Watch → Prop
  | unlinked _ | master => False
  | _ => True

theorem serving_present : Serving Watch.Present := by
  refine ⟨fun {watch watch' e} hmoves hserves => ?_, id⟩
  cases hmoves with
  | background hcalm hc r => exact ⟨hserves, touches_of_background hc⟩
  | signal hwatch signal =>
      refine ⟨?_, rfl⟩
      rcases hwatch with rfl | rfl <;> trivial
  | child | masterSignal | unlink => exact absurd hserves id
  | _ => exact ⟨trivial, rfl⟩

/-- The handle is open on the PID file, and nothing is written yet. -/
structure Blank (fs : FileSystem) (h : Handle) : Prop where
  path : h.path = pidFile
  current : (fs.file pidFile).current = some h.ino
  empty : fs.read h = []

/-- The PID file names the process. -/
def Names (fs : FileSystem) (pid : Nat) : Prop :=
  (fs.file pidFile).content = some (decimal pid ++ ['\n'])

theorem names_write {fs : FileSystem} {h : Handle} (hblank : Blank fs h) (pid : Nat) :
    Names (fs.write h (decimal pid ++ ['\n'])) pid := by
  obtain ⟨hpath, hcurrent, hempty⟩ := hblank
  have hdata : (fs.file pidFile).data h.ino = [] := by
    rw [← hempty, FileSystem.read, hpath]
  simp [Names, FileSystem.write, FileSystem.read, File.content, hpath, hcurrent, hdata]

theorem blank_create {fs fs' : FileSystem} {h : Handle}
    (hopen : fs.openWrite pidFile = (.ok h, fs')) : Blank fs' h := by
  obtain ⟨hpath, hcurrent, hempty, -, -⟩ := FileSystem.openWrite_ok hopen
  exact ⟨hpath, hcurrent, hempty⟩

theorem Blank.congr {fs fs' : FileSystem} {h : Handle} (hblank : Blank fs h)
    (hfile : fs'.file pidFile = fs.file pidFile) : Blank fs' h := by
  obtain ⟨hpath, hcurrent, hempty⟩ := hblank
  refine ⟨hpath, by rw [hfile, hcurrent], ?_⟩
  rw [FileSystem.read, hpath, hfile] at *
  exact hempty

section Owner

variable {serves : Watch → Prop}

/-- The process in this phase owns the PID file. -/
def Life.Owns (serves : Watch → Prop) : Life → Prop
  | created _ | signed _ _ | registered => True
  | monitoring watch => serves watch
  | _ => False

/-- What the PID file is to the process `pid` in this phase. -/
def Life.Marks (serves : Watch → Prop) (fs : FileSystem) (pid : Nat) : Life → Prop
  | created h => Blank fs h
  | signed h n => Blank fs h ∧ n = pid
  | registered => Names fs pid
  | monitoring watch => serves watch → Names fs pid
  | _ => True

theorem marks_of_not_owns {fs : FileSystem} {pid : Nat} {φ : Life} (h : ¬φ.Owns serves) :
    φ.Marks serves fs pid := by
  cases φ with
  | created | signed | registered => exact absurd trivial h
  | monitoring watch => exact fun hserves => absurd hserves h
  | _ => trivial

/-- A mark stays as long as the PID file does. -/
theorem marks_congr {fs fs' : FileSystem} {pid : Nat} {φ : Life} (h : φ.Marks serves fs pid)
    (hfile : fs'.file pidFile = fs.file pidFile) : φ.Marks serves fs' pid := by
  have hnames : Names fs pid → Names fs' pid := by
    intro hnames
    rw [Names, hfile]
    exact hnames
  cases φ with
  | created f => exact h.congr hfile
  | signed f n => exact ⟨h.1.congr hfile, h.2⟩
  | registered => exact hnames h
  | monitoring watch => exact fun hserves => hnames (h hserves)
  | _ => trivial

/-! ## One call -/

/-- A recording call leaves the PID file alone. -/
theorem file_of_records {fs : FileSystem} {c : Call} (hc : c.Records ∨ ∃ what, c = .setup what) :
    (c.effect fs).file pidFile = fs.file pidFile := by
  rcases hc with hc | ⟨what, rfl⟩
  · cases c with
    | fopen path mode => cases mode with
        | r => rfl
        | w =>
            obtain rfl : path = configLoad := hc
            exact fs.fopen_file_other .w configLoad_ne_pidFile.symm
    | fwrite h text =>
        have hpath : h.path = configLoad := hc
        exact fs.write_file_other text (hpath ▸ configLoad_ne_pidFile.symm)
    | mkdir path => exact congrFun (fs.mkdir_file path) pidFile
    | fread | stat | print | fault => rfl
    | _ => exact absurd hc id
  · rfl

/-- So does a monitor that does not remove it. -/
theorem file_of_monitor {fs : FileSystem} {watch watch' : Watch} {e : Event}
    (h : Moves watch e watch') (htouches : e.1.touches = false) :
    (e.1.effect fs).file pidFile = fs.file pidFile := by
  cases h with
  | background hcalm hc r =>
      rename_i c
      cases c with
      | fopen path mode => cases mode with
          | r => rfl
          | w => cases hc
      | fread | print | fault | setup | sigprocmask | loadConfig | registerServices
        | updateLoggers => rfl
      | _ => cases hc
  | unlink hleaving r => cases htouches
  | _ => rfl

/-- A call that changes the PID file removes it, creates it, or is that of its owner. -/
theorem file_of_moves {fs : FileSystem} {option : String} {φ φ' : Life} {e : Event}
    (h : Life.Moves option φ e φ') (htouches : e.1.touches = false) (howns : ¬φ.Owns serves) :
    (e.1.effect fs).file pidFile = fs.file pidFile := by
  cases h with
  | rest hφ hc r => exact file_of_records hc
  | fails hφ hc r =>
      rw [hc] at htouches
      cases htouches
  | clear | create => cases htouches
  | register r => exact absurd trivial howns
  | monitor hmoves => exact file_of_monitor hmoves htouches
  | _ => rfl

theorem owns_of_moves (hserving : Serving serves) {option : String} {φ φ' : Life} {e : Event}
    (h : Life.Moves option φ e φ') (howns : φ'.Owns serves) :
    φ.Owns serves ∨ e.1.touches = true := by
  cases h with
  | rest hφ hc r => exact .inl howns
  | create => exact .inr rfl
  | sign | register | watch => exact .inl trivial
  | monitor hmoves => exact .inl (hserving.back hmoves howns).1
  | fails hφ hc r => exact .inr hc
  | _ => exact absurd howns id

/-- The process that makes a call keeps its mark. -/
theorem marks_of_moves (hserving : Serving serves) {s : Host} {pid : Nat} {option : String}
    {choice : Choice} {φ φ' : Life} {e : Event} (h : Life.Moves option φ e φ')
    (hanswers : s.Answers pid choice e)
    (hmarks : φ.Marks serves s.fs pid) : φ'.Marks serves (e.1.effect s.fs) pid := by
  cases h with
  | rest hφ hc r => exact marks_congr hmarks (file_of_records hc)
  | create => exact blank_create (Prod.ext (Eq.symm hanswers) rfl)
  | sign => exact ⟨hmarks, hanswers⟩
  | register r =>
      obtain ⟨hblank, rfl⟩ := hmarks
      exact names_write hblank _
  | watch r => exact fun _ => hmarks
  | monitor hmoves =>
      intro hserves
      obtain ⟨hbefore, htouches⟩ := hserving.back hmoves hserves
      rw [Names, file_of_monitor hmoves htouches]
      exact hmarks hbefore
  | fails hφ hc r => rcases hφ with rfl | rfl <;> trivial
  | _ => trivial

end Owner

/-! ## The processes of a host -/

namespace Host

variable {s s' : Host} {serves : Watch → Prop}

/-- A process that is to remove or truncate the PID file is alone with it: no other owns it. -/
def Undisturbed (serves : Watch → Prop) (s : Host) : Action → Prop
  | .run pid _ => ∀ p ∈ s.process pid, p.next.any Call.touches = true →
      ∀ q ∈ s.pids, q ≠ pid → ∀ p' ∈ s.process q, ¬p'.phase.Owns serves
  | _ => True

/-- There is one owner of the PID file at most, and it is its own. -/
structure Marked (serves : Watch → Prop) (s : Host) : Prop where
  marks : ∀ pid p, s.process pid = some p → p.phase.Marks serves s.fs pid
  single : ∀ pid p pid' p', s.process pid = some p → p.phase.Owns serves →
    s.process pid' = some p' → p'.phase.Owns serves → pid = pid'

/-- The owners of the next state: one that was, or one that is about to touch the PID file. -/
theorem owner_of_step (hserving : Serving serves) (hlawful : s.Lawful) {a : Action}
    (hstep : s.step a = some s') {q : Nat} {p' : Process} (hp' : s'.process q = some p')
    (howns : p'.phase.Owns serves) :
    (∃ p, s.process q = some p ∧ p.phase.Owns serves) ∨
      ∃ choice p, a = .run q choice ∧ s.process q = some p ∧ p.next.any Call.touches = true := by
  cases course_of_step hlawful hstep hp' with
  | kept p hp hphase hoption hother => exact .inl ⟨p, hp, hphase ▸ howns⟩
  | spawned cwd argv ha hfree hphase hoption | other ha hfree hphase hoption =>
      rw [hphase] at howns
      exact absurd howns id
  | acted choice p e ha hp hnext hmoves hoption hanswers hfs =>
      refine (owns_of_moves hserving hmoves howns).imp (fun hold => ⟨p, hp, hold⟩) fun htouches => ?_
      exact ⟨choice, p, ha, hp, by rw [hnext]; exact htouches⟩
  | born parent p ha hfree hp hnext hparent hoption hphases hfs =>
      rcases hphases with ⟨-, hborn⟩ | ⟨-, hborn⟩
      · rw [hborn] at howns
        exact absurd howns id
      · rw [hborn] at howns
        exact absurd howns hserving.master

/-- The files as another process finds them after a step. -/
theorem marks_other (hlawful : s.Lawful) (hmarked : s.Marked serves) {a : Action}
    (hundisturbed : s.Undisturbed serves a) (hstep : s.step a = some s') {q : Nat} {p : Process}
    (hp : s.process q = some p) (hother : ∀ choice, a ≠ .run q choice) :
    p.phase.Marks serves s'.fs q := by
  by_cases howns : p.phase.Owns serves
  · refine marks_congr (hmarked.marks q p hp) ?_
    rcases effect_of_step hlawful hstep with
      hfs | ⟨pid, choice, p', e, φ, rfl, hp', hnext, hmoves, -, hfs⟩
    · rw [hfs]
    · have hne : q ≠ pid := fun heq => hother choice (by rw [heq])
      have htouches : e.1.touches = false := by
        by_contra htouches
        refine hundisturbed p' hp' ?_ q (hlawful.listed q p hp) hne p hp howns
        rw [hnext]
        exact Bool.eq_true_of_not_eq_false htouches
      have hnot : ¬p'.phase.Owns serves :=
        fun howns' => hne (hmarked.single q p pid p' hp howns hp' howns')
      rw [hfs]
      exact file_of_moves hmoves htouches hnot
  · exact marks_of_not_owns howns

/-- The step lemma. -/
theorem marked_step (hserving : Serving serves) (hlawful : s.Lawful) (hmarked : s.Marked serves)
    {a : Action} (hundisturbed : s.Undisturbed serves a) (hstep : s.step a = some s') :
    s'.Marked serves := by
  refine ⟨fun q p' hp' => ?_, fun q₁ p₁ q₂ p₂ hp₁ howns₁ hp₂ howns₂ => ?_⟩
  · cases course_of_step hlawful hstep hp' with
    | kept p hp hphase hoption hother =>
        rw [hphase]
        exact marks_other hlawful hmarked hundisturbed hstep hp hother
    | spawned cwd argv ha hfree hphase hoption | other ha hfree hphase hoption =>
        rw [hphase]
        trivial
    | acted choice p e ha hp hnext hmoves hoption hanswers hfs =>
        rw [hfs]
        exact marks_of_moves hserving hmoves hanswers (hmarked.marks q p hp)
    | born parent p ha hfree hp hnext hparent hoption hphases hfs =>
        rcases hphases with ⟨-, hborn⟩ | ⟨-, hborn⟩
        · rw [hborn]
          trivial
        · rw [hborn]
          exact fun hserves => absurd hserves hserving.master
  · -- one that creates the file is alone; two that owned it before are one
    by_contra hne
    rcases owner_of_step hserving hlawful hstep hp₁ howns₁ with
      ⟨o₁, ho₁, hold₁⟩ | ⟨choice₁, o₁, ha₁, ho₁, htouches₁⟩
    · rcases owner_of_step hserving hlawful hstep hp₂ howns₂ with
        ⟨o₂, ho₂, hold₂⟩ | ⟨choice₂, o₂, ha₂, ho₂, htouches₂⟩
      · exact hne (hmarked.single q₁ o₁ q₂ o₂ ho₁ hold₁ ho₂ hold₂)
      · subst ha₂
        exact hundisturbed o₂ ho₂ htouches₂ q₁ (hlawful.listed q₁ o₁ ho₁) hne o₁ ho₁ hold₁
    · subst ha₁
      rcases owner_of_step hserving hlawful hstep hp₂ howns₂ with
        ⟨o₂, ho₂, hold₂⟩ | ⟨choice₂, o₂, ha₂, ho₂, htouches₂⟩
      · exact hundisturbed o₁ ho₁ htouches₁ q₂ (hlawful.listed q₂ o₂ ho₂) (Ne.symm hne) o₂ ho₂ hold₂
      · cases ha₂
        exact hne rfl

theorem marked_idle (h : s.Idle) : s.Marked serves := by
  refine ⟨fun pid p hp => ?_, fun pid p pid' p' hp => ?_⟩ <;> rw [h pid] at hp <;> cases hp

end Host

end Robotd
