import Robotd.Cli.Os

/-!
# What `option_load` does

`locateConfig` says which file `option_load` finds and `Recordable` when `CONFIG_LOAD` can be
written. `optionLoad_spec` is the whole specification: it returns 0 exactly when both succeed,
and then `CONFIG_FILE` and `CONFIG_LOAD` name the file found; else it returns an error number.
Only `CONFIG_LOAD` and its directory change (`Effect`).
-/

namespace Robotd

open Lib Lib.CLib Cli

/-- Nothing but `CONFIG_LOAD` and its directory differs between two systems. -/
structure Effect (os os' : Os) : Prop where
  file_other : ∀ path, path ≠ configLoad → os'.fs.file path = os.fs.file path
  denied_eq : os'.fs.denied = os.fs.denied
  os_eq : os' = { os with fs := os'.fs }

namespace Effect

variable {os os' os'' : Os}

theorem refl (os : Os) : Effect os os := ⟨fun _ _ => rfl, rfl, rfl⟩

theorem trans (h : Effect os os') (h' : Effect os' os'') : Effect os os'' where
  file_other path hne := (h'.file_other path hne).trans (h.file_other path hne)
  denied_eq := h'.denied_eq.trans h.denied_eq
  os_eq := by
    have hrest := h'.os_eq
    rw [h.os_eq] at hrest
    exact hrest

/-- Opening `CONFIG_LOAD` for writing, whatever the answer. -/
theorem openWrite {answer : Except Errno Handle} {fs : FileSystem}
    (h : os.fs.openWrite configLoad = (answer, fs)) : Effect os { os with fs := fs } := by
  have hfs : fs = (os.fs.fopen configLoad .w).2 := (congrArg Prod.snd h).symm
  subst hfs
  exact ⟨fun _ hne => os.fs.fopen_file_other .w hne, os.fs.fopen_denied _ _, rfl⟩

theorem write {h : Handle} (hpath : h.path = configLoad) (text : List Char) :
    Effect os { os with fs := os.fs.write h text } :=
  ⟨fun _ hne => os.fs.write_file_other text (hpath ▸ hne), rfl, rfl⟩

theorem mkdir {answer : Except Errno Unit} {fs : FileSystem} {path : Path}
    (h : os.fs.mkdir path = (answer, fs)) : Effect os { os with fs := fs } := by
  have hfs : fs = (os.fs.mkdir path).2 := (congrArg Prod.snd h).symm
  subst hfs
  exact ⟨fun _ _ => by simp, by simp, rfl⟩

end Effect

/-- `CONFIG_LOAD` can be opened for writing, its directory being made if need be. -/
def Recordable (fs : FileSystem) : Prop :=
  fs.denied configLoad .w = none ∧
    ((fs.file configLoad).current ≠ none ∨ fs.dir runConfDir = true ∨ fs.sealed runConfDir = none)

/-- The file that `option_load` finds for the name `file`. -/
def locateConfig (fs : FileSystem) (cwd file : Path) : Option Path :=
  match fs.openRead (cwd ++ "/" ++ file), fs.openRead (etcConfDir ++ "/" ++ file) with
  | .ok _, _ => some (cwd ++ "/" ++ file)
  | .error _, .ok _ => some (etcConfDir ++ "/" ++ file)
  | .error _, .error _ => none

/-- `option_load` can find the file and record it. -/
def Loadable (fs : FileSystem) (cwd file : Path) : Prop :=
  (locateConfig fs cwd file).isSome = true ∧ Recordable fs

/-- The calls write the line `config` to `CONFIG_LOAD`. -/
def WritesLine (config : Path) (events : List Event) : Prop :=
  ∃ h : Handle, h.path = configLoad ∧
    (⟨.fwrite h (config.toList ++ ['\n']), ()⟩ : Event) ∈ events

theorem WritesLine.append_left {config : Path} {events : List Event}
    (h : WritesLine config events) (first : List Event) : WritesLine config (first ++ events) := by
  obtain ⟨f, hpath, hmem⟩ := h
  exact ⟨f, hpath, List.mem_append_right _ hmem⟩

/-- The calls open the file `config` and record its name in `CONFIG_LOAD`. -/
def ConfigRecorded (config : Path) (events : List Event) : Prop :=
  (∃ h, (⟨.fopen config .r, .ok h⟩ : Event) ∈ events) ∧ WritesLine config events

theorem ConfigRecorded.append_left {config : Path} {events : List Event}
    (h : ConfigRecorded config events) (first : List Event) :
    ConfigRecorded config (first ++ events) := by
  obtain ⟨⟨f, hmem⟩, hline⟩ := h
  exact ⟨⟨f, List.mem_append_right _ hmem⟩, hline.append_left _⟩

variable {g : Globals} {os : Os}

/-- Making the run directory succeeds when it exists or may be made, and then it exists. -/
theorem makeRunConfDir_spec :
    wp makeRunConfDir g os (fun made g' os' _ =>
      (made = true ↔ os.fs.dir runConfDir = true ∨ os.fs.sealed runConfDir = none) ∧
      (made = true → os'.fs.dir runConfDir = true) ∧ (made = false → g'.errno ≠ 0) ∧
      g'.configFile = g.configFile ∧ Effect os os') False := by
  simp only [makeRunConfDir, wp_bind, wp_stat, FileSystem.statDir]
  cases hdir : os.fs.dir runConfDir with
  | true => simp [hdir, Effect.refl os]
  | false =>
      cases hmkdir : os.fs.mkdir runConfDir with
      | mk answer fs =>
      have heffect := Effect.mkdir hmkdir
      cases answer with
      | error e =>
          have hsealed := FileSystem.mkdir_error hmkdir
          simp [hmkdir, hdir] at hsealed ⊢
          exact ⟨hsealed, e.2, heffect⟩
      | ok done =>
          have hsealed := FileSystem.mkdir_ok hmkdir
          simp [hmkdir, hsealed, heffect]

/-- Opening `CONFIG_LOAD` for recording: what it needs, and what it leaves behind. -/
theorem openConfigLoad_spec :
    wp openConfigLoad g os (fun f g' os' _ =>
      (f.isSome = true ↔ Recordable os.fs) ∧ (f = none → g'.errno ≠ 0) ∧
      (∀ h, f = some h → h.path = configLoad ∧ os'.fs.read h = [] ∧
        (os'.fs.file configLoad).current = some h.ino) ∧
      g'.configFile = g.configFile ∧ Effect os os') False := by
  simp only [openConfigLoad, wp_bind, wp_fopen_w]
  cases hfirst : os.fs.openWrite configLoad with
  | mk answer fs =>
  cases answer with
  | ok h =>
      obtain ⟨hpath, hcurrent, hread, hdenied, hplace⟩ := FileSystem.openWrite_ok hfirst
      have hrecordable : Recordable os.fs :=
        ⟨hdenied, hplace.imp_right fun hdir => .inl (by simpa using hdir)⟩
      simp [hpath, hcurrent, hread, hrecordable, Effect.openWrite hfirst]
  | error e =>
      obtain ⟨rfl, hwhy⟩ := FileSystem.openWrite_error hfirst
      simp only [wp_get, wp_ite, wp_bind]
      split
      · -- `ENOENT`: a second attempt follows once the directory is there
        refine wp_mono makeRunConfDir_spec fun made g' os' _ => ?_
        rintro ⟨hmade, hdir, herrno, hconfig, heffect⟩
        cases made with
        | false =>
            have hno : ¬ Recordable os.fs := by
              rintro ⟨hdenied, hplace⟩
              rcases hwhy with hwhy | ⟨_, hcurrent, _, _⟩
              · simp [hdenied] at hwhy
              · rcases hplace with hplace | hplace
                · exact hplace hcurrent
                · exact absurd (hmade.mpr hplace) (by decide)
            simp [hno, herrno rfl, hconfig, heffect]
        | true =>
            simp only [if_true, wp_bind, wp_fopen_w]
            cases hsecond : os'.fs.openWrite configLoad with
            | mk answer fs =>
            have heffect' := heffect.trans (.openWrite hsecond)
            cases answer with
            | ok h =>
                obtain ⟨hpath, hcurrent, hread, hdenied, -⟩ := FileSystem.openWrite_ok hsecond
                have hrecordable : Recordable os.fs :=
                  ⟨heffect.denied_eq ▸ hdenied, .inr (hmade.mp rfl)⟩
                simp [hpath, hcurrent, hread, hrecordable, hconfig, heffect']
            | error e' =>
                have hno : ¬ Recordable os.fs := by
                  rintro ⟨hdenied, -⟩
                  rcases (FileSystem.openWrite_error hsecond).2 with hwhy | ⟨_, _, hnodir, _⟩
                  · simp [heffect.denied_eq, hdenied] at hwhy
                  · simp [hdir rfl] at hnodir
                simp [hno, e'.2, hconfig, heffect']
      · rename_i hne
        have hno : ¬ Recordable os.fs := by
          rintro ⟨hdenied, -⟩
          rcases hwhy with hwhy | ⟨_, _, _, rfl⟩
          · simp [hdenied] at hwhy
          · exact hne rfl
        simp [hno, e.2, Effect.refl os]

/-- Recording `CONFIG_FILE`: it succeeds exactly when `CONFIG_LOAD` can be written, and then
`CONFIG_LOAD` holds that one line. -/
theorem recordConfig_spec :
    wp recordConfig g os (fun ret g' os' events =>
      (ret = 0 ↔ Recordable os.fs) ∧
      (ret = 0 → (os'.fs.file configLoad).content = some (g.configFile.toList ++ ['\n']) ∧
        WritesLine g.configFile events) ∧
      g'.configFile = g.configFile ∧ Effect os os') False := by
  simp only [recordConfig, wp_bind]
  refine wp_mono openConfigLoad_spec fun f g' os' _ => ?_
  rintro ⟨hrecordable, herrno, hopened, hconfig, heffect⟩
  cases f with
  | none =>
      have hno : ¬ Recordable os.fs := fun h => absurd (hrecordable.mpr h) (by decide)
      simp [hno, herrno rfl, hconfig, heffect]
  | some h =>
      obtain ⟨hpath, hread, hcurrent⟩ := hopened h rfl
      have hwritten := heffect.trans (.write hpath (g'.configFile.toList ++ ['\n']))
      simp only [wp_bind, wp_get, wp_fwrite, wp_pure]
      refine ⟨by simp [hrecordable.mp rfl], fun _ => ⟨?_, h, hpath, ?_⟩, hconfig, hwritten⟩
      · simp [File.content, FileSystem.write, hpath, hcurrent, hread, hconfig]
      · simp [hconfig]

/-- `option_load` returns 0 exactly when it finds the file and can record it. -/
theorem optionLoad_spec (cwd : Path) :
    wp (optionLoad cwd) g os (fun ret g' os' events =>
      (ret = 0 ↔ Loadable os.fs cwd g.configFile) ∧
      (ret = 0 → locateConfig os.fs cwd g.configFile = some g'.configFile ∧
        (os'.fs.file configLoad).content = some (g'.configFile.toList ++ ['\n']) ∧
        ConfigRecorded g'.configFile events) ∧
      Effect os os') False := by
  simp only [optionLoad, wp_bind, wp_get, wp_fopen_r]
  cases hcwd : os.fs.openRead (cwd ++ "/" ++ g.configFile) with
  | ok h =>
      simp only [wp_setConfigFile]
      refine wp_mono recordConfig_spec fun ret g' os' events => ?_
      rintro ⟨hret, hrecorded, hconfig, heffect⟩
      simp only at hconfig
      have hlocated : locateConfig os.fs cwd g.configFile = some g'.configFile := by
        simp [locateConfig, hcwd, hconfig]
      refine ⟨by simp [Loadable, hlocated, hret], fun hzero => ?_, heffect⟩
      obtain ⟨hcontent, hline⟩ := hrecorded hzero
      rw [← hconfig] at hcontent hline
      exact ⟨hlocated, hcontent, ⟨h, by simp [hconfig]⟩, hline.append_left _⟩
  | error e =>
      simp only [wp_setConfigFile]
      cases hetc : os.fs.openRead (etcConfDir ++ "/" ++ g.configFile) with
      | ok h =>
          refine wp_mono recordConfig_spec fun ret g' os' events => ?_
          rintro ⟨hret, hrecorded, hconfig, heffect⟩
          simp only at hconfig
          have hlocated : locateConfig os.fs cwd g.configFile = some g'.configFile := by
            simp [locateConfig, hcwd, hetc, hconfig]
          refine ⟨by simp [Loadable, hlocated, hret], fun hzero => ?_, heffect⟩
          obtain ⟨hcontent, hline⟩ := hrecorded hzero
          rw [← hconfig] at hcontent hline
          refine ⟨hlocated, hcontent, ⟨h, by simp [hconfig]⟩, ?_⟩
          exact ((hline.append_left _).append_left _).append_left _
      | error e' => simp [Loadable, locateConfig, hcwd, hetc, e'.2, Effect.refl os]

/-- Where `CONFIG_LOAD` may not be written, `option_load` leaves it as it is. -/
theorem optionLoad_denied {e : Errno} (cwd : Path) (hdenied : os.fs.denied configLoad .w = some e) :
    wp (optionLoad cwd) g os (fun _ _ os' _ =>
      os'.fs.file configLoad = os.fs.file configLoad) True := by
  have hwrite (fs : FileSystem) (h : fs.denied = os.fs.denied) :
      fs.openWrite configLoad = (.error e, fs) := by
    simp [FileSystem.openWrite, h, hdenied]
  have hrecord (g : Globals) : wp recordConfig g os (fun _ _ os' _ =>
      os'.fs.file configLoad = os.fs.file configLoad) True := by
    simp only [recordConfig, openConfigLoad, wp_bind, wp_fopen_w, hwrite os.fs rfl, wp_get, wp_ite]
    split
    · simp only [makeRunConfDir, wp_bind, wp_stat]
      cases os.fs.statDir runConfDir with
      | ok done => simp [hwrite os.fs rfl]
      | error e' =>
          simp only [Bool.false_eq_true, if_false, wp_mkdir]
          have hfile := os.fs.mkdir_file runConfDir
          have hsame := os.fs.mkdir_denied runConfDir
          rcases hmkdir : os.fs.mkdir runConfDir with ⟨answer, fs⟩
          rw [hmkdir] at hfile hsame
          simp only at hfile hsame
          cases answer with
          | ok done => simp [hwrite fs hsame, hfile]
          | error e' => simp [hfile]
    · simp
  simp only [optionLoad, wp_bind, wp_get, wp_fopen_r]
  cases os.fs.openRead (cwd ++ "/" ++ g.configFile) with
  | ok h => exact hrecord _
  | error e' =>
      simp only [wp_setConfigFile]
      cases os.fs.openRead (etcConfDir ++ "/" ++ g.configFile) with
      | ok h => exact hrecord _
      | error e' => simp

/-! ## Reading `CONFIG_LOAD` back -/

/-- `CONFIG_LOAD` can be read and holds no word. -/
def Wordless (fs : FileSystem) : Prop :=
  ∃ h, fs.openRead configLoad = .ok h ∧ scanWord (fs.read h) = []

/-- `CONFIG_LOAD` can be read and its first word fits the buffer. -/
def Worded (fs : FileSystem) : Prop :=
  ∃ h, fs.openRead configLoad = .ok h ∧ scanWord (fs.read h) ≠ [] ∧
    (scanWord (fs.read h)).length < 256

/-- `CONFIG_LOAD` holds a word, or it is missing and can be created. -/
def Restorable (fs : FileSystem) : Prop :=
  Worded fs ∨ fs.openRead configLoad = .error .enoent ∧ fs.denied configLoad .w = none ∧
    (fs.dir runConfDir = true ∨ fs.sealed runConfDir = none)

/-- When the block goes on, `CONFIG_LOAD` was restorable; when it returns, it returns an error
number, or the old `errno` after a file without a word. -/
theorem restoreConfig_returns :
    wp restoreConfig g os (fun r _ os' _ =>
      (r = none → Restorable os.fs) ∧
      (∀ ret, r = some ret → ret = 0 → Wordless os.fs ∧ g.errno = 0 ∧
        os.fs.denied configLoad .w = none) ∧ Effect os os') True := by
  simp only [restoreConfig, wp_bind, wp_fopen_r]
  cases hread : os.fs.openRead configLoad with
  | ok h =>
      simp only [wp_bind, wp_fread, wp_ite, wp_fault, wp_get, wp_setConfigFile, wp_fopen_w]
      split
      · trivial
      · rename_i hlength
        split
        · rename_i hempty
          cases hwrite : os.fs.openWrite configLoad with
          | mk answer fs =>
          cases answer with
          | error e => trivial
          | ok h' =>
              obtain ⟨hpath, -, -, hdenied, -⟩ := FileSystem.openWrite_ok hwrite
              have heffect := (Effect.openWrite hwrite).trans (.write hpath g.configFile.toList)
              have hwordless : Wordless os.fs := ⟨h, hread, by simpa using hempty⟩
              simp [hwordless, hdenied, heffect]
        · rename_i hword
          have hrestorable : Restorable os.fs :=
            .inl ⟨h, hread, by simpa using hword, not_le.mp hlength⟩
          simp [hrestorable, Effect.refl os]
  | error e =>
      simp only [wp_bind, wp_get, wp_ite]
      split
      · rename_i henoent
        refine wp_mono (wp_stuck makeRunConfDir_spec) fun made g' os' _ => ?_
        rintro ⟨hmade, hdir, herrno, -, heffect⟩
        cases made with
        | false => simp [herrno rfl, heffect]
        | true =>
            simp only [if_true, wp_bind, wp_fopen_w]
            cases hwrite : os'.fs.openWrite configLoad with
            | mk answer fs =>
            have heffect' := heffect.trans (.openWrite hwrite)
            cases answer with
            | error e' => simp [e'.2, heffect']
            | ok h =>
                obtain ⟨hpath, -, -, hdenied, -⟩ := FileSystem.openWrite_ok hwrite
                have hrestorable : Restorable os.fs :=
                  .inr ⟨by rw [hread, Subtype.ext henoent], heffect.denied_eq ▸ hdenied,
                    hmade.mp rfl⟩
                simp [hrestorable, heffect'.trans (.write hpath _)]
      · simp [e.2, Effect.refl os]

/-- A call that opens or writes no file, sends no signal and removes nothing. -/
def Housekeeping : Call → Prop
  | .fopen _ _ | .fwrite _ _ | .unlink _ | .kill _ _ => False
  | _ => True

theorem makeRunConfDir_housekeeping : Only Housekeeping makeRunConfDir := by
  refine (only_stat trivial).bind fun found => ?_
  cases found with
  | true => exact only_pure _
  | false => exact only_mkdir trivial

/-- The line that the block writes into a missing `CONFIG_LOAD`. -/
def missingConfigLine : List Char :=
  (etcConfDir ++ "/" ++ package ++ "/" ++ configLoad).toList ++ ['\n']

/-- An event that writes no file and reads none but the PID file. -/
def LeavesConfig (e : Event) : Prop :=
  (∀ h text, e.1 ≠ .fwrite h text) ∧ ∀ path h, e = ⟨.fopen path .r, .ok h⟩ → path = pidFile

/-- No file was written, or only the default line was and no file but the PID file was read. -/
def WritesNoConfig (events : List Event) : Prop :=
  (∀ e ∈ events, ∀ h text, e.1 ≠ .fwrite h text) ∨
    ∀ e ∈ events, (∀ h text, e.1 = .fwrite h text → text = missingConfigLine) ∧
      ∀ path h, e = ⟨.fopen path .r, .ok h⟩ → path = pidFile

theorem WritesNoConfig.append {events before after : List Event} (h : WritesNoConfig events)
    (hbefore : ∀ e ∈ before, LeavesConfig e) (hafter : ∀ e ∈ after, LeavesConfig e) :
    WritesNoConfig (before ++ events ++ after) := by
  refine h.imp (fun h e hmem => ?_) (fun h e hmem => ?_)
  · simp only [List.mem_append] at hmem
    rcases hmem with (hmem | hmem) | hmem
    · exact (hbefore e hmem).1
    · exact h e hmem
    · exact (hafter e hmem).1
  · simp only [List.mem_append] at hmem
    rcases hmem with (hmem | hmem) | hmem
    · exact ⟨fun f text heq => absurd heq ((hbefore e hmem).1 f text), (hbefore e hmem).2⟩
    · exact h e hmem
    · exact ⟨fun f text heq => absurd heq ((hafter e hmem).1 f text), (hafter e hmem).2⟩

/-- Such calls do not record a configuration: the default line does not name the PID file. -/
theorem WritesNoConfig.not_recorded {config : Path} {events : List Event}
    (h : WritesNoConfig events) : ¬ ConfigRecorded config events := by
  rintro ⟨⟨f, hopen⟩, f', -, hline⟩
  rcases h with h | h
  · exact h _ hline _ _ rfl
  · have hconfig : config = pidFile := (h _ hopen).2 _ _ rfl
    have htext := (h _ hline).1 _ _ rfl
    subst hconfig
    exact absurd htext (by decide)

/-- On a restorable `CONFIG_LOAD` the block goes on. -/
theorem restoreConfig_none (h : Restorable os.fs) :
    wp restoreConfig g os (fun r _ os' events =>
      r = none ∧ Effect os os' ∧ WritesNoConfig events) False := by
  rcases h with ⟨h, hread, hword, hlength⟩ | ⟨hread, hdenied, hplace⟩
  · have hfits : ¬256 ≤ (scanWord (os.fs.read h)).length := not_le.mpr hlength
    have hnonempty : ¬(scanWord (os.fs.read h)).isEmpty = true := by rwa [List.isEmpty_iff]
    simp only [restoreConfig, wp_bind, wp_fopen_r, hread, wp_fread, wp_ite, if_neg hfits, wp_get,
      wp_setConfigFile, if_neg hnonempty, wp_pure]
    simp [Effect.refl os, WritesNoConfig]
  · simp only [restoreConfig, wp_bind, wp_fopen_r, hread, wp_get, if_true, wp_ite]
    refine wp_mono (wp_and_only makeRunConfDir_housekeeping makeRunConfDir_spec)
      fun made g' os' events => ?_
    rintro ⟨⟨hmade, hdir, -, -, heffect⟩, hquiet⟩
    obtain rfl : made = true := hmade.mpr hplace
    have hplace' : os'.fs.dir (dirname configLoad) = true := by simpa using hdir rfl
    obtain ⟨f, fs, hwrite⟩ :=
      FileSystem.openWrite_succeeds (heffect.denied_eq ▸ hdenied) (.inr hplace')
    obtain ⟨hpath, -⟩ := FileSystem.openWrite_ok hwrite
    have heffect' := heffect.trans (.openWrite hwrite)
    simp only [if_true, wp_bind, wp_fopen_w, hwrite, wp_fwrite, wp_pure, true_and]
    refine ⟨heffect'.trans (.write hpath _), .inr fun e hmem => ?_⟩
    simp only [List.mem_append, List.mem_cons, List.not_mem_nil, or_false, false_or] at hmem
    rcases hmem with rfl | hmem | rfl | rfl
    · simp
    · have hkeep := hquiet _ hmem
      refine ⟨fun h text heq => ?_, fun path h heq => ?_⟩
      · simp [heq, Housekeeping] at hkeep
      · simp [heq, Housekeeping] at hkeep
    · simp
    · simp [missingConfigLine]

/-- On a `CONFIG_LOAD` without a word the block writes the name it has and returns `errno`. -/
theorem restoreConfig_wordless (h : Wordless os.fs) (hdenied : os.fs.denied configLoad .w = none) :
    wp restoreConfig g os (fun r g' os' events =>
      r = some (g.errno : Int) ∧ Effect os os' ∧ g'.configFile = "" ∧
      ∀ path h, (⟨.fopen path .r, .ok h⟩ : Event) ∈ events → path = configLoad) False := by
  obtain ⟨h, hread, hword⟩ := h
  have hcurrent : (os.fs.file configLoad).current ≠ none := by
    simp [(FileSystem.openRead_ok hread).2]
  obtain ⟨f, fs, hwrite⟩ := FileSystem.openWrite_succeeds hdenied (.inl hcurrent)
  obtain ⟨hpath, -⟩ := FileSystem.openWrite_ok hwrite
  have heffect := (Effect.openWrite hwrite).trans (.write hpath g.configFile.toList)
  simp only [restoreConfig, wp_bind, wp_fopen_r, hread, wp_fread, hword, List.length_nil, wp_ite,
    wp_get, wp_setConfigFile, List.isEmpty_nil, if_true, wp_fopen_w, hwrite, wp_fwrite, wp_eprintf,
    wp_errno, wp_pure]
  simp [heffect]

end Robotd
