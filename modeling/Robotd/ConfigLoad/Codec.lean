import Robotd.Cli.OptionLoad
import Robotd.Daemon.Process

/-!
# What `option_load` records reads back

`CONFIG_LOAD` has one writer and two readers: `parse_options` takes a word into a buffer of 256
characters, `reload_config` takes a line of any length. `recorded_recovers_iff` says which paths
both of them recover.
-/

namespace Robotd

open Lib Lib.CLib Cli

/-- What `reload_config` takes from `CONFIG_LOAD`. -/
def reloadLine (fs : FileSystem) : Path :=
  match fs.openRead configLoad with
  | .ok h => String.ofList (getLine (fs.read h))
  | .error _ => ""

theorem os_configLoadLine {os : Os} {post : Except Int Path → Os → Prop} {stuck : Prop} :
    Program.wp Os.respond configLoadLine.run os (fun line os' _ => post line os') stuck ↔
      post (.ok (reloadLine os.fs)) os := by
  unfold configLoadLine reloadLine
  rw [Proc.run_make_bind, Program.wp_call]
  simp only [Os.respond, Os.withFs, FileSystem.fopen]
  cases os.fs.openRead configLoad with
  | ok f => exact Iff.rfl
  | error e => exact Iff.rfl

/-- The block of `parse_options` goes on from a `CONFIG_LOAD` that it can open exactly when there
is a word that fits its buffer, and takes that word. -/
theorem wp_restoreConfig_opened {g : Globals} {os : Os} {h : Handle} {path : Path}
    (hopen : os.fs.openRead configLoad = .ok h) :
    wp restoreConfig g os (fun r g' _ _ => r = none ∧ g'.configFile = path) False ↔
      scanWord (os.fs.read h) = path.toList ∧ path ≠ "" ∧ path.length < 256 := by
  simp only [restoreConfig, wp_bind, wp_fopen_r, hopen, wp_fread, wp_ite, wp_fault, wp_get,
    wp_setConfigFile, wp_fopen_w, wp_pure, true_and]
  by_cases hword : scanWord (os.fs.read h) = path.toList
  · rw [hword]
    by_cases hlength : 256 ≤ path.toList.length
    · rw [if_pos hlength]
      exact iff_of_false id fun hfits => absurd hlength (not_le.mpr hfits.2.2)
    · rw [if_neg hlength]
      by_cases hempty : path = ""
      · subst hempty
        refine iff_of_false ?_ (by simp)
        cases os.fs.openWrite configLoad with
        | mk answer fs => cases answer <;> simp
      · have hsome : path.toList.isEmpty = false := by simpa using hempty
        rw [hsome]
        exact iff_of_true String.ofList_toList ⟨rfl, hempty, not_le.mp hlength⟩
  · refine iff_of_false ?_ fun hfits => hword hfits.1
    split
    · exact id
    · split
      · cases os.fs.openWrite configLoad with
        | mk answer fs => cases answer <;> simp
      · rintro rfl
        exact hword String.toList_ofList.symm

/-- Both readers of `CONFIG_LOAD` recover the path: the block of `parse_options` stays inside its
buffer, goes on and has it in `CONFIG_FILE`, and `reload_config` loads it. -/
structure Recovers (os : Os) (path : Path) : Prop where
  word : ∀ g, wp restoreConfig g os (fun r g' _ _ => r = none ∧ g'.configFile = path) False
  line : Program.wp Os.respond configLoadLine.run os (fun line _ _ => line = .ok path) False

variable {g : Globals} {os : Os} {cwd : Path}

/-- A `CONFIG_LOAD` with the line of a path is recovered exactly when the path is one word that
fits the buffer. -/
theorem recovers_iff {h : Handle} {path : Path} (hopen : os.fs.openRead configLoad = .ok h)
    (hline : os.fs.read h = path.toList ++ ['\n']) (hpath : path ≠ "") :
    Recovers os path ↔ (∀ c ∈ path.toList, isSpace c = false) ∧ path.length < 256 := by
  have hnewline (hspace : ∀ c ∈ path.toList, isSpace c = false) : '\n' ∉ path.toList :=
    fun hmem => absurd (hspace _ hmem) (by decide)
  constructor
  · rintro ⟨hword, -⟩
    obtain ⟨hword, -, hlength⟩ := (wp_restoreConfig_opened hopen).mp (hword ⟨"", 0⟩)
    rw [hline] at hword
    exact ⟨scanWord_line_eq_iff.mp hword, hlength⟩
  · rintro ⟨hspace, hlength⟩
    refine ⟨fun g => (wp_restoreConfig_opened hopen).mpr ⟨?_, hpath, hlength⟩, ?_⟩
    · rw [hline]
      exact scanWord_line_eq_iff.mpr hspace
    · rw [os_configLoadLine, reloadLine, hopen]
      simp only [hline, getLine_line_eq_iff.mpr (hnewline hspace), String.ofList_toList]

/-- Whatever `option_load` records in this system is recovered. -/
def RecordedRecovers (cwd : Path) (g : Globals) (os : Os) : Prop :=
  ∀ g' os' events, (optionLoad cwd).runs g os = some ((0, g'), os', events) →
    Recovers os' g'.configFile

theorem locateConfig_ne_empty {fs : FileSystem} {file path : Path}
    (h : locateConfig fs cwd file = some path) : path ≠ "" := by
  rintro rfl
  have hslash (dir : Path) : dir ++ "/" ++ file ≠ "" := by
    intro heq
    have hlength := congrArg String.length heq
    simp only [String.length_append] at hlength
    have hone : "/".length = 1 := rfl
    have hzero : "".length = 0 := rfl
    omega
  unfold locateConfig at h
  split at h
  · exact hslash _ (Option.some.inj h)
  · exact hslash _ (Option.some.inj h)
  · cases h

/-- The path that `option_load` accepts and records is recovered by both readers exactly when
`CONFIG_LOAD` may be read, the path has no white space, and it fits the buffer. -/
theorem recorded_recovers_iff {path : Path} (hlocated : locateConfig os.fs cwd g.configFile = some path)
    (hrecordable : Recordable os.fs) :
    RecordedRecovers cwd g os ↔ os.fs.denied configLoad .r = none ∧
      (∀ c ∈ path.toList, isSpace c = false) ∧ path.length < 256 := by
  have hpath := locateConfig_ne_empty hlocated
  have hspec : wp (optionLoad cwd) g os (fun ret g' os' events =>
      (ret = 0 ↔ Loadable os.fs cwd g.configFile) ∧
      (ret = 0 → locateConfig os.fs cwd g.configFile = some g'.configFile ∧
        (os'.fs.file configLoad).content = some (g'.configFile.toList ++ ['\n']) ∧
        ConfigRecorded g'.configFile events) ∧
      Effect os os') False := optionLoad_spec cwd
  obtain ⟨ret, g', os', events, hrun, hret, hrecorded, heffect⟩ := wp_false_iff.mp hspec
  have hzero : ret = 0 := hret.mpr ⟨by simp [hlocated], hrecordable⟩
  obtain ⟨hconfig, hcontent, -⟩ := hrecorded hzero
  rw [hlocated, Option.some.injEq] at hconfig
  have honly : RecordedRecovers cwd g os ↔ Recovers os' path := by
    constructor
    · intro h
      rw [hconfig]
      exact h g' os' events (hzero ▸ hrun)
    · intro h g'' os'' events' hrun'
      rw [hrun] at hrun'
      cases hrun'
      exact hconfig ▸ h
  rw [honly]
  cases hdenied : os.fs.denied configLoad .r with
  | some e =>
      refine iff_of_false (fun h => hpath ?_) (by simp)
      have hopen : os'.fs.openRead configLoad = .error e := by
        simp [FileSystem.openRead, heffect.denied_eq, hdenied]
      have hline := os_configLoadLine.mp h.line
      rw [reloadLine, hopen] at hline
      exact (Except.ok.inj hline).symm
  | none =>
      obtain ⟨h, hopen, hread⟩ := FileSystem.openRead_of_content (heffect.denied_eq ▸ hdenied) hcontent
      rw [← hconfig] at hread
      rw [recovers_iff hopen hread hpath]
      simp

/-- A system with one configuration file, in which nothing is recorded yet. -/
def shelf (path : Path) : Os where
  fs := .ofFiles [(path, [])]
  proc := []
  killError _ _ := none
  self := 2

theorem shelf_recordable (path : Path) : Recordable (shelf path).fs := ⟨rfl, .inr (.inl rfl)⟩

theorem plain_path_recovers_iff : RecordedRecovers "/srv" ⟨"daemon.cfg", 0⟩ (shelf "/srv/daemon.cfg") ↔
    (shelf "/srv/daemon.cfg").fs.denied configLoad .r = none ∧
      (∀ c ∈ "/srv/daemon.cfg".toList, isSpace c = false) ∧ "/srv/daemon.cfg".length < 256 :=
  recorded_recovers_iff (by decide) (shelf_recordable _)

/-- A path with a blank is read back as its first word. -/
theorem blank_path_not_recovered : ¬ ∀ cwd g os path,
    locateConfig os.fs cwd g.configFile = some path → Recordable os.fs →
      os.fs.denied configLoad .r = none → '\n' ∉ path.toList → '\x00' ∉ path.toList →
        RecordedRecovers cwd g os := by
  intro hall
  have hlocated : locateConfig (shelf "/srv/my daemon.cfg").fs "/srv" "my daemon.cfg" =
      some "/srv/my daemon.cfg" := by decide
  have hrecovers := hall "/srv" ⟨"my daemon.cfg", 0⟩ (shelf "/srv/my daemon.cfg") _ hlocated
    (shelf_recordable _) rfl (by decide) (by decide)
  obtain ⟨-, hspace, -⟩ := (recorded_recovers_iff hlocated (shelf_recordable _)).mp hrecovers
  have hblank : ' ' ∈ "/srv/my daemon.cfg".toList := by simp
  exact absurd (hspace ' ' hblank) (by decide)

end Robotd
