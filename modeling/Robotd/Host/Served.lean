import Robotd.ConfigLoad.Session
import Robotd.Host.Errand

/-!
# `load`s on their way

The files of a daemon that is named by its PID file (`Served`), and a process of a `load` among them
(`Runs`). What the files answer is what the protocol of a `load` relies on (`expects_of_served`),
and each call of it is one of ten (`Runs.acted`).
-/

namespace Robotd

open Lib Lib.CLib Cli
open Lib.Program (Protocol Conforms)

/-! ## The files -/

/-- The handle is open on the present file of this name. -/
def OpenOn (fs : FileSystem) (path : Path) (file : Handle) : Prop :=
  file.path = path ∧ (fs.file path).current = some file.ino

/-- The files of a daemon: it is named by its PID file, and `CONFIG_LOAD` is there and holds nothing
that `load` could not read. -/
structure Served (d : Nat) (fs : FileSystem) : Prop where
  names : Names fs d
  findable : fs.denied pidFile .r = none
  readable : fs.denied configLoad .r = none
  writable : fs.denied configLoad .w = none
  recorded : ∃ text, (fs.file configLoad).content = some text ∧ (scanWord text).length < 256

/-- The same names refer to the same files, and the PID file is as it was. -/
structure Steady (fs fs' : FileSystem) : Prop where
  current : ∀ path, (fs'.file path).current = (fs.file path).current
  denied : fs'.denied = fs.denied
  pid : fs'.file pidFile = fs.file pidFile

/-- A task of the daemon `d` whose file is there and whose path can be read back. -/
structure Task.Fits (task : Task) (d : Nat) (fs : FileSystem) : Prop where
  daemon : task.daemon = d
  located : locateConfig fs task.cwd task.file = some task.path
  plain : Session.Plain task.path

namespace Errand

/-- What the handles of a `load` are open on, and what it has not found. -/
def Holds (task : Task) (fs : FileSystem) : Errand → Prop
  | found file => OpenOn fs pidFile file
  | reading file | opened file => OpenOn fs configLoad file
  | missing => ∃ e, fs.openRead (task.cwd ++ "/" ++ task.file) = .error e
  | _ => True

end Errand

section Files

variable {d : Nat} {fs fs' : FileSystem} {path : Path} {file : Handle}

theorem Steady.refl (fs : FileSystem) : Steady fs fs := ⟨fun _ => rfl, rfl, rfl⟩

theorem Steady.openRead (h : Steady fs fs') (path : Path) : fs'.openRead path = fs.openRead path := by
  rw [FileSystem.openRead, FileSystem.openRead, h.denied, h.current]

theorem Steady.openOn (h : Steady fs fs') (hopen : OpenOn fs path file) : OpenOn fs' path file :=
  ⟨hopen.1, (h.current path).trans hopen.2⟩

theorem Steady.fits (h : Steady fs fs') {task : Task} (hfits : task.Fits d fs) : task.Fits d fs' := by
  refine ⟨hfits.daemon, ?_, hfits.plain⟩
  rw [locateConfig, h.openRead, h.openRead]
  exact hfits.located

theorem Steady.holds (h : Steady fs fs') {task : Task} {φ : Errand} (hholds : φ.Holds task fs) :
    φ.Holds task fs' := by
  cases φ with
  | found file | reading file | opened file => exact h.openOn hholds
  | missing =>
      obtain ⟨e, herror⟩ := hholds
      exact ⟨e, (h.openRead _).trans herror⟩
  | _ => trivial

theorem Steady.served (h : Steady fs fs') (hserved : Served d fs)
    (hrecorded : ∃ text, (fs'.file configLoad).content = some text ∧ (scanWord text).length < 256) :
    Served d fs' := by
  refine ⟨?_, ?_, ?_, ?_, hrecorded⟩
  · rw [Names, h.pid]
    exact hserved.names
  · rw [h.denied]
    exact hserved.findable
  · rw [h.denied]
    exact hserved.readable
  · rw [h.denied]
    exact hserved.writable

/-- A handle reads the contents of the file it is open on. -/
theorem content_of_openOn (h : OpenOn fs path file) :
    (fs.file path).content = some (fs.read file) := by
  rw [File.content, h.2, FileSystem.read, h.1]
  rfl

theorem openOn_of_fopen {mode : Mode} (h : (fs.fopen path mode).1 = .ok file) :
    OpenOn (fs.fopen path mode).2 path file := by
  cases mode with
  | r => exact FileSystem.openRead_ok h
  | w =>
      have hopen : fs.openWrite path = (.ok file, (fs.openWrite path).2) := Prod.ext h rfl
      obtain ⟨hpath, hcurrent, -⟩ := FileSystem.openWrite_ok hopen
      exact ⟨hpath, hcurrent⟩

/-- `CONFIG_LOAD` is truncated. -/
theorem truncates (h : Served d fs) : Steady fs (fs.openWrite configLoad).2 ∧
    ((fs.openWrite configLoad).2.file configLoad).content = some [] ∧
      ∃ file, (fs.openWrite configLoad).1 = .ok file := by
  obtain ⟨text, hcontent, -⟩ := h.recorded
  obtain ⟨ino, hcurrent, -⟩ := Option.map_eq_some_iff.mp hcontent
  have hopen : fs.openWrite configLoad =
      (.ok ⟨configLoad, ino⟩, fs.setFile configLoad ((fs.file configLoad).put ino [])) := by
    simp only [FileSystem.openWrite, h.writable, hcurrent]
  rw [hopen]
  refine ⟨⟨fun path => ?_, rfl, ?_⟩, ?_, _, rfl⟩
  · by_cases hpath : path = configLoad
    · rw [hpath, FileSystem.setFile_self, File.put_current]
    · rw [FileSystem.setFile_other fs _ hpath]
  · exact FileSystem.setFile_other fs _ configLoad_ne_pidFile.symm
  · simp [File.content, hcurrent]

/-- A line is flushed: what remains of a longer text before it stands behind it. -/
theorem flushes (hopen : OpenOn fs configLoad file) (text : List Char) :
    Steady fs (fs.write file text) ∧
      ((fs.write file text).file configLoad).content =
        some (text ++ (fs.read file).drop text.length) := by
  have hsteady : Steady fs (fs.write file text) := by
    refine ⟨fun path => ?_, rfl, fs.write_file_other text (hopen.1 ▸ configLoad_ne_pidFile.symm)⟩
    by_cases hsame : path = file.path
    · rw [hsame, FileSystem.write, FileSystem.setFile_self, File.put_current]
    · rw [fs.write_file_other text hsame]
  refine ⟨hsteady, ?_⟩
  rw [content_of_openOn (hsteady.openOn hopen), FileSystem.read_write_self]

/-- What a recorded line is to its two readers. -/
theorem readers_of_line (h : Session.Plain path) (rest : List Char) :
    scanWord (path.toList ++ ['\n'] ++ rest) = path.toList ∧
      getLine (path.toList ++ ['\n'] ++ rest) = path.toList := by
  rw [List.append_assoc]
  refine ⟨scanWord_line ?_ h.2.1 rest, getLine_line ?_ rest⟩
  · simpa using h.1
  · exact fun hmem => absurd (h.2.1 _ hmem) (by decide)

/-- What a `load` relies on is what the files of a daemon give, if the word is there. -/
theorem expects_of_served {s : Host} {q : Nat} {choice : Choice} {task : Task} {φ : Errand}
    {e : Event} (hserved : Served d s.fs) (hfits : task.Fits d s.fs) (hholds : φ.Holds task s.fs)
    (hlisted : String.ofList (decimal d) ∈ s.listing)
    (hword : ∀ file, φ = .reading file → scanWord (s.fs.read file) ≠ [])
    (hkill : ∀ pid signal, e.1 = .kill pid signal → e = ⟨.kill pid signal, .ok ()⟩)
    (hnext : φ.next task = some e.1) (hanswers : s.Answers q choice e) : φ.expects task e := by
  obtain ⟨c, r⟩ := e
  cases φ with
  | arriving =>
      obtain rfl := Option.some.inj hnext
      obtain ⟨file, hopen, -⟩ := FileSystem.openRead_of_content hserved.findable hserved.names
      exact ⟨file, hanswers.trans hopen⟩
  | found file =>
      obtain rfl := Option.some.inj hnext
      obtain rfl : r = s.fs.read file := hanswers
      have hcontent := (content_of_openOn hholds).symm.trans hserved.names
      rw [← hfits.daemon] at hcontent
      exact Option.some.inj hcontent
  | numbered =>
      obtain rfl := Option.some.inj hnext
      rw [← hfits.daemon] at hlisted
      exact hanswers hlisted
  | alive =>
      obtain rfl := Option.some.inj hnext
      obtain ⟨text, hcontent, -⟩ := hserved.recorded
      obtain ⟨file, hopen, -⟩ := FileSystem.openRead_of_content hserved.readable hcontent
      exact ⟨file, hanswers.trans hopen⟩
  | reading file =>
      obtain rfl := Option.some.inj hnext
      obtain rfl : r = s.fs.read file := hanswers
      obtain ⟨text, hcontent, hlength⟩ := hserved.recorded
      obtain rfl := Option.some.inj ((content_of_openOn hholds).symm.trans hcontent)
      exact ⟨hword file rfl, hlength⟩
  | locating =>
      obtain rfl := Option.some.inj hnext
      cases r with
      | error e => trivial
      | ok file =>
          -- the file is found at once, so this is its place
          have hopen : s.fs.openRead (task.cwd ++ "/" ++ task.file) = .ok file := Eq.symm hanswers
          have hlocated := hfits.located
          rw [locateConfig, hopen] at hlocated
          exact (Option.some.inj hlocated).symm
  | missing =>
      obtain rfl := Option.some.inj hnext
      -- the first place is as empty as it was when it was tried
      obtain ⟨e, herror⟩ := hholds
      have hlocated := hfits.located
      rw [locateConfig, herror] at hlocated
      cases hopen : s.fs.openRead (etcConfDir ++ "/" ++ task.file) with
      | error e' =>
          rw [hopen] at hlocated
          cases hlocated
      | ok file =>
          rw [hopen] at hlocated
          exact ⟨⟨file, hanswers.trans hopen⟩, (Option.some.inj hlocated).symm⟩
  | located =>
      obtain rfl := Option.some.inj hnext
      obtain ⟨-, -, file, hopen⟩ := truncates hserved
      exact ⟨file, hanswers.trans hopen⟩
  | opened file =>
      obtain rfl := Option.some.inj hnext
      trivial
  | flushed =>
      obtain rfl := Option.some.inj hnext
      have hok := hkill _ _ rfl
      cases hok
      rfl
  | sent => cases hnext

end Files

/-! ## The processes -/

/-- The message is SIGHUP for `d`, and it has been sent. -/
def hangsUp (d : Nat) : Event → Bool
  | ⟨.kill pid .sighup, .ok _⟩ => pid = d
  | _ => false

namespace Process

/-- The process is a command `load`, not its daemon. -/
def Loads (p : Process) : Prop := p.option = key 0 ∧ p.phase.Foreground

instance (p : Process) : Decidable p.Loads := inferInstanceAs (Decidable (_ ∧ _))

/-- The process has sent SIGHUP to `d`. -/
def Sent (p : Process) (d : Nat) : Prop := p.past.any (hangsUp d) = true

instance (p : Process) (d : Nat) : Decidable (p.Sent d) := inferInstanceAs (Decidable (_ = _))

/-- The process has nothing left to do but to exit. -/
def Done (p : Process) : Prop :=
  match p.code with
  | .ret (.exit _) => True
  | _ => False

instance (p : Process) : Decidable p.Done := by
  unfold Done
  split <;> infer_instance

/-- The process takes no part: it is a master, or it has done, and is no `load`. -/
def Apart (p : Process) : Prop := p.phase = .monitoring .master ∨ p.Done ∧ ¬p.Loads

instance (p : Process) : Decidable p.Apart := inferInstanceAs (Decidable (_ ∨ _))

/-- How far a `load` has come. -/
def errand (p : Process) : Errand := p.past.foldl Errand.after .arriving

end Process

/-- The path that a call loads. -/
def loadedBy : Event → Option Path
  | ⟨.loadConfig path, _⟩ => some path
  | _ => none

/-- The path last loaded. -/
def Process.loaded (p : Process) : Option Path := (p.past.filterMap loadedBy).getLast?

/-- The process is a `load` on its way, with its files as they should be. -/
structure Runs (d : Nat) (fs : FileSystem) (task : Task) (p : Process) : Prop where
  conforms : Conforms (errand task) (fun φ next => φ = .sent ∧ ∃ code, next = .exit code) p.errand
    p.code
  fits : task.Fits d fs
  holds : p.errand.Holds task fs
  loads : p.Loads
  orphan : p.parent = none
  calls : p.past.length + p.errand.left ≤ 10
  sent : p.errand = .sent → p.Sent d

section Processes

variable {d : Nat} {fs fs' : FileSystem} {task : Task} {p p' : Process} {e : Event} {c : Call}

theorem errand_snoc (h : p'.past = p.past ++ [e]) : p'.errand = p.errand.after e := by
  rw [Process.errand, h, List.foldl_append]
  rfl

theorem loaded_snoc (h : p'.past = p.past ++ [e]) : p'.loaded = (loadedBy e).or p.loaded := by
  rw [Process.loaded, Process.loaded, h, List.filterMap_append, List.getLast?_append,
    List.filterMap_cons, List.filterMap_nil]
  cases loadedBy e <;> rfl

theorem sent_snoc (h : p'.past = p.past ++ [e]) : p'.Sent d ↔ p.Sent d ∨ hangsUp d e = true := by
  rw [Process.Sent, Process.Sent, h, List.any_append, Bool.or_eq_true, List.any_cons, List.any_nil,
    Bool.or_false]

theorem Process.Same.loads (h : p.Same p') : p'.Loads ↔ p.Loads := by
  rw [Process.Loads, Process.Loads, h.option, h.phase]

theorem Process.Same.apart (h : p.Same p') (hapart : p.Apart) : p'.Apart := by
  rwa [Process.Apart, Process.Done, h.phase, h.code, h.loads]

theorem Process.Apart.not_loads (h : p.Apart) : ¬p.Loads := by
  rcases h with hmaster | ⟨-, hloads⟩
  · rintro ⟨-, hforeground⟩
    rw [hmaster] at hforeground
    exact hforeground
  · exact hloads

theorem Process.Done.next (h : p.Done) : p.next = none := by
  unfold Process.Done at h
  rw [Process.next]
  split
  · rename_i hcode
    rw [hcode] at h
    exact absurd h id
  · rfl

/-- A process that makes a call and takes no part is a master. -/
theorem Process.Apart.master (h : p.Apart) (hnext : p.next = some c) :
    p.phase = .monitoring .master := by
  rcases h with hmaster | ⟨hdone, -⟩
  · exact hmaster
  · rw [hdone.next] at hnext
    cases hnext

/-- A command that forks no child stays in the foreground. -/
theorem Life.foreground_of_moves {option : String} {φ φ' : Life} (h : Moves option φ e φ')
    (hforeground : φ.Foreground) (hfork : e ≠ ⟨.fork, .child⟩) : φ'.Foreground := by
  cases h with
  | rest | fails => exact hforeground
  | child => exact absurd rfl hfork
  | create | sign | register | watch | monitor => exact absurd hforeground id
  | _ => trivial

theorem Runs.next (h : Runs d fs task p) (hnext : p.next = some c) : p.errand.next task = some c := by
  have hconforms := h.conforms
  unfold Process.next at hnext
  cases hcode : p.code with
  | ret next =>
      rw [hcode] at hnext
      cases hnext
  | call c' next =>
      rw [hcode] at hconforms hnext
      cases hnext
      exact hconforms.1

/-- A `load` that makes no call has sent its SIGHUP. -/
theorem Runs.sent_of_ret (h : Runs d fs task p) {next : Next} (hcode : p.code = .ret next) :
    p.errand = .sent := by
  have hconforms := h.conforms
  rw [hcode] at hconforms
  exact hconforms.1

/-- The same process in steady files. -/
theorem Runs.same (h : Runs d fs task p) (hsteady : Steady fs fs') (hsame : p.Same p')
    (horphan : p'.parent = none) : Runs d fs' task p' := by
  have herrand : p'.errand = p.errand := by rw [Process.errand, Process.errand, hsame.past]
  refine ⟨?_, hsteady.fits h.fits, ?_, hsame.loads.mpr h.loads, horphan, ?_, fun hsent => ?_⟩
  · rw [herrand, hsame.code]
    exact h.conforms
  · rw [herrand]
    exact hsteady.holds h.holds
  · rw [hsame.past, herrand]
    exact h.calls
  · rw [Process.Sent, hsame.past]
    exact h.sent (herrand ▸ hsent)

/-! ### One call -/

namespace Errand

variable {φ : Errand}

theorem left_pos (hnext : φ.next task = some c) : 0 < φ.left := by
  cases φ with
  | sent => cases hnext
  | _ => exact Nat.zero_lt_succ _

/-- A call brings a `load` nearer to its end. -/
theorem left_after (hnext : φ.next task = some e.1) (hexpects : φ.expects task e) :
    (φ.after e).left < φ.left := by
  obtain ⟨c, r⟩ := e
  cases φ with
  | arriving | alive | located =>
      obtain rfl := Option.some.inj hnext
      obtain ⟨file, rfl⟩ := hexpects
      exact Nat.lt_add_one _
  | missing =>
      obtain rfl := Option.some.inj hnext
      obtain ⟨⟨file, rfl⟩, -⟩ := hexpects
      exact Nat.lt_add_one _
  | found | numbered | reading | opened =>
      obtain rfl := Option.some.inj hnext
      exact Nat.lt_add_one _
  | locating =>
      obtain rfl := Option.some.inj hnext
      cases r with
      | ok file =>
          show 3 < 5
          decide
      | error e => exact Nat.lt_add_one 4
  | flushed =>
      obtain rfl := Option.some.inj hnext
      obtain rfl : r = .ok () := hexpects
      exact Nat.lt_add_one _
  | sent => cases hnext

/-- The handle that a `load` gets is open on its file. -/
theorem holds_after {s : Host} {q : Nat} {choice : Choice} (hnext : φ.next task = some e.1)
    (hexpects : φ.expects task e) (hanswers : s.Answers q choice e) :
    (φ.after e).Holds task (e.1.effect s.fs) := by
  obtain ⟨c, r⟩ := e
  cases φ with
  | arriving | alive | located =>
      obtain rfl := Option.some.inj hnext
      cases r with
      | ok file => exact openOn_of_fopen (Eq.symm hanswers)
      | error e => trivial
  | locating =>
      obtain rfl := Option.some.inj hnext
      cases r with
      | ok file => trivial
      | error e => exact ⟨e, Eq.symm hanswers⟩
  | missing =>
      obtain rfl := Option.some.inj hnext
      obtain ⟨⟨file, rfl⟩, -⟩ := hexpects
      trivial
  | found | numbered | reading | opened =>
      obtain rfl := Option.some.inj hnext
      trivial
  | flushed =>
      obtain rfl := Option.some.inj hnext
      cases r <;> trivial
  | sent => cases hnext

/-- Only the SIGHUP ends the way of a `load`. -/
theorem hangsUp_of_sent (hnext : φ.next task = some e.1) (hsent : φ.after e = .sent) :
    hangsUp task.daemon e = true := by
  obtain ⟨c, r⟩ := e
  cases φ with
  | flushed =>
      obtain rfl := Option.some.inj hnext
      cases r with
      | ok done => exact decide_eq_true rfl
      | error e => cases hsent
  | sent => cases hnext
  | arriving | alive | located | locating | missing =>
      obtain rfl := Option.some.inj hnext
      cases r <;> cases hsent
  | found | numbered | reading | opened =>
      obtain rfl := Option.some.inj hnext
      cases hsent

end Errand

/-- A command that only exits has no next piece of code. -/
theorem conforms_settle_exit {P : Protocol Call Response} {φ : P.Phase}
    {post : P.Phase → Next → Prop} {code : Sys Next} (h : Conforms P post φ code)
    (hexit : ∀ ψ next, post ψ next → ∃ code, next = .exit code) : Conforms P post φ (settle code) := by
  cases code with
  | call c next => exact h
  | ret next =>
      obtain ⟨code, rfl⟩ := hexit φ next h
      exact h

/-- A `load` after its call. -/
theorem Runs.acted {s : Host} {q : Nat} {choice : Choice} (h : Runs d s.fs task p)
    (hlawful : p.Lawful) (hacted : Host.Acted p e p') (hexpects : p.errand.expects task e)
    (hanswers : s.Answers q choice e) (hsteady : Steady s.fs (e.1.effect s.fs))
    (horphan : p'.parent = none) : Runs d (e.1.effect s.fs) task p' := by
  obtain ⟨next, hcode, hcode'⟩ := hacted.code
  have hnext : p.errand.next task = some e.1 := h.next (next_of_code hcode)
  have herrand : p'.errand = p.errand.after e := errand_snoc hacted.past
  have hfork : e ≠ ⟨.fork, .child⟩ := by
    rintro rfl
    obtain ⟨child, -, hchild⟩ := hanswers
    cases hchild
  refine ⟨?_, hsteady.fits h.fits, ?_, ?_, horphan, ?_, fun hsent => ?_⟩
  · have hconforms := h.conforms
    rw [hcode] at hconforms
    rw [herrand, hcode']
    exact conforms_settle_exit (hconforms.2 e.2 hexpects) fun ψ next hpost => hpost.2
  · rw [herrand]
    exact Errand.holds_after hnext hexpects hanswers
  · refine ⟨(option_of_acted hacted).trans h.loads.1, ?_⟩
    rw [phase_snoc hacted.past]
    have hmoves := Host.moves_of_lawful hlawful hcode (Host.expects_of_answers hanswers)
    exact Life.foreground_of_moves hmoves h.loads.2 hfork
  · have hleft := Errand.left_after hnext hexpects
    have hcalls := h.calls
    rw [herrand, hacted.past, List.length_append, List.length_singleton]
    omega
  · refine (sent_snoc hacted.past).mpr (.inr ?_)
    rw [← h.fits.daemon]
    exact Errand.hangsUp_of_sent hnext (herrand ▸ hsent)

end Processes

end Robotd
