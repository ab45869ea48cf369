import Robotd.Host.Addressee

/-!
# `load` with a daemon

`errand` is the protocol of a `load` that finds its daemon: it reads `CONFIG_LOAD`, finds the
configuration file, records its path and sends SIGHUP, in ten calls at most. `conforms_load` shows
that `main` keeps it when the answers are those of a host with a daemon and `CONFIG_LOAD` holds a
word as it is read.
-/

namespace Robotd

open Lib Lib.CLib Cli
open Lib.Program (Protocol Conforms)

/-- A `load` of `file` in the directory `cwd`, which comes to the path to be recorded. -/
structure Task where
  daemon : Nat
  cwd : Path
  file : String
  path : Path
  deriving DecidableEq, Repr

/-- How far a `load` has come. -/
inductive Errand where
  | arriving
  | found (file : Handle)
  | numbered
  | alive
  | reading (file : Handle)
  | locating
  | missing
  | located
  | opened (file : Handle)
  | flushed
  | sent
  deriving DecidableEq, Repr

namespace Errand

def after : Errand → Event → Errand
  | arriving, ⟨.fopen _ _, .ok file⟩ => found file
  | found _, ⟨.fread _, _⟩ => numbered
  | numbered, ⟨.readdirProc, _⟩ => alive
  | alive, ⟨.fopen _ _, .ok file⟩ => reading file
  | reading _, ⟨.fread _, _⟩ => locating
  | locating, ⟨.fopen _ _, .ok _⟩ => located
  | locating, ⟨.fopen _ _, .error _⟩ => missing
  | missing, ⟨.fopen _ _, .ok _⟩ => located
  | located, ⟨.fopen _ _, .ok file⟩ => opened file
  | opened _, ⟨.fwrite _ _, _⟩ => flushed
  | flushed, ⟨.kill _ _, .ok _⟩ => sent
  | φ, _ => φ

/-- The next call. -/
def next (task : Task) : Errand → Option Call
  | arriving => some (.fopen pidFile .r)
  | found file | reading file => some (.fread file)
  | numbered => some .readdirProc
  | alive => some (.fopen configLoad .r)
  | locating => some (.fopen (task.cwd ++ "/" ++ task.file) .r)
  | missing => some (.fopen (etcConfDir ++ "/" ++ task.file) .r)
  | located => some (.fopen configLoad .w)
  | opened file => some (.fwrite file (task.path.toList ++ ['\n']))
  | flushed => some (.kill task.daemon .sighup)
  | sent => none

/-- A `load` whose daemon lives comes to no fault. -/
theorem next_ne_fault (task : Task) (φ : Errand) (reason : Fault) :
    φ.next task ≠ some (.fault reason) := by
  cases φ <;> nofun

/-- What the host answers. -/
def expects (task : Task) : Errand → Event → Prop
  | arriving, ⟨.fopen _ _, r⟩ | alive, ⟨.fopen _ _, r⟩ | located, ⟨.fopen _ _, r⟩ =>
      ∃ file, r = .ok file
  | found _, ⟨.fread _, text⟩ => text = decimal task.daemon ++ ['\n']
  | numbered, ⟨.readdirProc, names⟩ => String.ofList (decimal task.daemon) ∈ names
  | reading _, ⟨.fread _, text⟩ => scanWord text ≠ [] ∧ (scanWord text).length < 256
  | locating, ⟨.fopen _ _, .ok _⟩ => task.path = task.cwd ++ "/" ++ task.file
  | missing, ⟨.fopen _ _, r⟩ =>
      (∃ file, r = .ok file) ∧ task.path = etcConfDir ++ "/" ++ task.file
  | flushed, ⟨.kill _ _, r⟩ => r = .ok ()
  | _, _ => True

/-- The calls still to be made, at most. -/
def left : Errand → Nat
  | arriving => 10
  | found _ => 9
  | numbered => 8
  | alive => 7
  | reading _ => 6
  | locating => 5
  | missing => 4
  | located => 3
  | opened _ => 2
  | flushed => 1
  | sent => 0

end Errand

/-- The protocol of a `load`. -/
abbrev errand (task : Task) : Protocol Call Response where
  Phase := Errand
  after := Errand.after
  allows φ c := φ.next task = some c
  expects := Errand.expects task

namespace Errand

variable {task : Task} {g : Globals}

/-- A file that can be opened. -/
theorem keeps_open {φ : Errand} {path : Path} {mode : Mode}
    {post : Errand → Option Handle → Globals → Prop} (hnext : φ.next task = some (.fopen path mode))
    (hexpects : ∀ r, φ.expects task ⟨.fopen path mode, r⟩ → ∃ file, r = .ok file)
    (hok : ∀ file, φ.expects task ⟨.fopen path mode, .ok file⟩ →
      post (φ.after ⟨.fopen path mode, .ok file⟩) (some file) g) :
    Keeps (errand task) (fopen path mode) g φ post := by
  refine keeps_fopen hnext hok fun e he => ?_
  obtain ⟨file, hfile⟩ := hexpects _ he
  cases hfile

theorem keeps_recordConfig (hpath : g.configFile = task.path) :
    Keeps (errand task) recordConfig g .located fun φ ret _ => φ = .flushed ∧ ret = 0 := by
  rw [recordConfig, keeps_bind, openConfigLoad, keeps_bind]
  refine keeps_open rfl (fun _ => id) fun file _ => ?_
  rw [keeps_pure, keeps_bind, keeps_get, keeps_bind, fwrite, hpath]
  exact (keeps_make _).mpr ⟨rfl, fun _ _ => ⟨rfl, rfl⟩⟩

theorem keeps_optionLoad (hfile : g.configFile = task.file) :
    Keeps (errand task) (optionLoad task.cwd) g .locating fun φ ret _ => φ = .flushed ∧ ret = 0 := by
  simp only [optionLoad, keeps_bind, keeps_get, hfile]
  refine keeps_fopen rfl (fun file hpath => ?_) fun e _ => ?_
  · rw [keeps_bind, keeps_get, keeps_bind, keeps_setConfigFile]
    refine keeps_recordConfig ?_
    show task.cwd ++ "/" ++ g.configFile = task.path
    rw [hfile]
    exact hpath.symm
  · simp only [keeps_bind, keeps_get, keeps_setConfigFile, hfile]
    refine keeps_open rfl (fun _ h => h.1) fun file hexpects => ?_
    exact keeps_recordConfig hexpects.2.symm

/-- `CONFIG_LOAD` is read, and found to hold a word. -/
theorem keeps_restoreConfig :
    Keeps (errand task) restoreConfig g .alive fun φ r _ => φ = .locating ∧ r = none := by
  rw [restoreConfig, keeps_bind]
  refine keeps_open rfl (fun _ => id) fun file _ => ?_
  rw [keeps_bind, fread]
  refine (keeps_make _).mpr ⟨rfl, fun text hexpects => ?_⟩
  obtain ⟨hword, hlength⟩ := hexpects
  have hfits : ¬ 256 ≤ (scanWord text).length := by omega
  have hnonempty : ¬(scanWord text).isEmpty = true := by
    rwa [List.isEmpty_iff]
  simp only [keeps_bind, keeps_get, keeps_setConfigFile, if_neg hfits, if_neg hnonempty]
  exact ⟨rfl, rfl⟩

theorem keeps_daemonProcess {argv : List String} (hlength : argv.length = 3)
    (hload : argument argv 1 = key 0) (hfile : argument argv 2 = task.file) :
    Keeps (errand task) (daemonProcess task.cwd argv task.daemon) g .alive fun φ ret _ =>
      φ = .sent ∧ ret = dontDoAnything := by
  have hstatus : ¬argument argv 1 = key 4 := by
    rw [hload]
    decide
  simp only [daemonProcess, if_neg hstatus]
  rw [keeps_bind]
  refine keeps_restoreConfig.mono fun φ r g' hrestored => ?_
  obtain ⟨rfl, rfl⟩ := hrestored
  simp only [keeps_ite, if_pos hload, if_pos hlength, keeps_bind, keeps_setConfigFile]
  refine (keeps_optionLoad hfile).mono fun φ ret g'' hrecorded => ?_
  obtain ⟨rfl, rfl⟩ := hrecorded
  rw [if_neg (by decide), signalDaemon, keeps_bind, kill, keeps_bind]
  refine (keeps_make _).mpr ⟨rfl, fun r hr => ?_⟩
  refine keeps_report r (fun hok => ?_) fun e herror => ?_
  · subst hok
    exact ⟨rfl, rfl⟩
  · have hnone : (Except.error e : Except Errno Unit) = .ok () := herror ▸ hr
    cases hnone

/-- A `load` ends when it has sent its SIGHUP. -/
theorem keeps_parseOptions {argv : List String} (hdaemon : task.daemon < 65536)
    (hlength : argv.length = 3) (hload : argument argv 1 = key 0)
    (hfile : argument argv 2 = task.file) :
    Keeps (errand task) (parseOptions task.cwd argv) g .arriving fun φ ret _ =>
      φ = .sent ∧ ret = dontDoAnything := by
  have hargc : ¬¬(argv.length = 2 ∨ argv.length = 3) := not_not.mpr (.inr hlength)
  have hhelp : ¬argument argv 1 = key 5 := by
    rw [hload]
    decide
  simp only [parseOptions, if_neg hargc, if_neg hhelp]
  rw [keeps_bind]
  refine keeps_open rfl (fun _ => id) fun file _ => ?_
  rw [keeps_bind, fscanfU16, keeps_bind, fread]
  refine (keeps_make _).mpr ⟨rfl, fun text htext => ?_⟩
  obtain rfl : text = decimal task.daemon ++ ['\n'] := htext
  have hmem : String.ofList (decimal task.daemon) ∈ [String.ofList (decimal task.daemon)] :=
    List.mem_singleton.mpr rfl
  have hread := (Life.finds_running hdaemon hmem).1
  have hvalue : (scanU16 (decimal task.daemon ++ ['\n'])).value = task.daemon := pidIn_line hdaemon []
  have hword : ¬(scanU16 (decimal task.daemon ++ ['\n'])).wordsRead < 1 := by
    rw [hread]
    decide
  simp only [keeps_bind, keeps_modify, keeps_pure, keeps_ite, if_neg hword]
  refine (keeps_make _).mpr ⟨rfl, fun names hlisted => ?_⟩
  have hany := (Life.finds_running hdaemon hlisted).2
  rw [if_pos hany, hvalue]
  exact keeps_daemonProcess hlength hload hfile

end Errand

/-- A `load` as a whole. -/
theorem conforms_load {task : Task} {argv : List String} (hdaemon : task.daemon < 65536)
    (hlength : argv.length = 3) (hload : argument argv 1 = key 0)
    (hfile : argument argv 2 = task.file) :
    Conforms (errand task) (fun φ next => φ = .sent ∧ ∃ code, next = .exit code) .arriving
      (main task.cwd argv).program := by
  have hmain : Conforms (errand task) (fun φ r => φ = .sent ∧ r = .ok (.exit exitSuccess)) .arriving
      (main task.cwd argv).run := by
    rw [main, Proc.conforms_bind, ExceptT.run_lift, map_eq_pure_bind, Program.conforms_bind]
    have hparse : Keeps (errand task) (parseOptions task.cwd argv) ⟨defaultConfigFile, 0⟩ .arriving
        fun φ ret _ => φ = .sent ∧ ret = dontDoAnything :=
      Errand.keeps_parseOptions hdaemon hlength hload hfile
    refine Program.Conforms.mono hparse fun φ out hdone => ?_
    obtain ⟨ret, g⟩ := out
    obtain ⟨rfl, rfl⟩ := hdone
    exact ⟨rfl, rfl⟩
  refine Program.Conforms.seq hmain fun φ r hr => ?_
  obtain ⟨rfl, rfl⟩ := hr
  exact ⟨rfl, _, rfl⟩

end Robotd
