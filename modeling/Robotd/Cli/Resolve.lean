import Robotd.Cli.OptionLoad

/-!
# Where `option_load` looks

`option_load` puts the current directory and then `/etc` in front of whatever it is given, also in
front of a full file name and of the built-in default, which is one. `resolves_iff` says for which
names and directories it still ends with the file that was asked for.
-/

namespace Robotd

open Lib Lib.CLib Cli

/-- A name that does not depend on the current directory. -/
def Absolute (path : Path) : Prop := path.toList.head? = some '/'

instance (path : Path) : Decidable (Absolute path) := inferInstanceAs (Decidable (_ = _))

/-- The file can be opened for reading. -/
def Readable (fs : FileSystem) (path : Path) : Prop := (fs.openRead path).isOk = true

instance (fs : FileSystem) (path : Path) : Decidable (Readable fs path) :=
  inferInstanceAs (Decidable (_ = _))

/-- One slash for each run of slashes. -/
def collapse : List Char → List Char
  | '/' :: '/' :: rest => collapse ('/' :: rest)
  | c :: rest => c :: collapse rest
  | [] => []

/-- Which file a name stands for. Names that differ in repeated slashes stand for one file, and a
file can be read under all of its names or under none. -/
structure Naming (fs : FileSystem) where
  Id : Type
  file : Path → Id
  slashes : ∀ p q, Absolute p → Absolute q → collapse p.toList = collapse q.toList → file p = file q
  readable : ∀ p q, Absolute p → Absolute q → file p = file q → (Readable fs p ↔ Readable fs q)

/-- The file that is asked for: a full name is taken as it is, another name is looked up in the
current directory and then in `/etc`. -/
def wanted (fs : FileSystem) (cwd name : Path) : Option Path :=
  if Absolute name ∧ Readable fs name then some name
  else if Readable fs (cwd ++ "/" ++ name) then some (cwd ++ "/" ++ name)
  else if Readable fs (etcConfDir ++ "/" ++ name) then some (etcConfDir ++ "/" ++ name)
  else none

/-- Whenever there is a file that is asked for, `option_load` finds it: it leaves a full name of
that file in `CONFIG_FILE`, and records it if `CONFIG_LOAD` can be written. -/
def Resolves (os : Os) (naming : Naming os.fs) (cwd name : Path) (errno : Nat) : Prop :=
  ∀ target, wanted os.fs cwd name = some target →
    ∃ ret g' os' events, (optionLoad cwd).runs ⟨name, errno⟩ os = some ((ret, g'), os', events) ∧
      Absolute g'.configFile ∧ Readable os.fs g'.configFile ∧
      naming.file g'.configFile = naming.file target ∧
      (Recordable os.fs → ret = 0 ∧
        (os'.fs.file configLoad).content = some (g'.configFile.toList ++ ['\n']))

/-- A prefix leads to the file of this name: the one that is readable first is that file. -/
def PrefixLeadsTo (os : Os) (naming : Naming os.fs) (cwd name : Path) : Prop :=
  if Readable os.fs (cwd ++ "/" ++ name) then
    naming.file (cwd ++ "/" ++ name) = naming.file name
  else
    Readable os.fs (etcConfDir ++ "/" ++ name) ∧
      naming.file (etcConfDir ++ "/" ++ name) = naming.file name

/-- What `option_load` leaves in `CONFIG_FILE`. -/
def chosen (fs : FileSystem) (cwd name : Path) : Path :=
  if Readable fs (cwd ++ "/" ++ name) then cwd ++ "/" ++ name else etcConfDir ++ "/" ++ name

variable {os : Os} {naming : Naming os.fs} {cwd name : Path} {errno : Nat}

theorem absolute_append {dir : Path} (hdir : Absolute dir) (rest : Path) :
    Absolute (dir ++ "/" ++ rest) := by
  unfold Absolute at *
  rw [String.toList_append, String.toList_append, List.append_assoc, List.head?_append, hdir]
  rfl

theorem absolute_chosen (fs : FileSystem) (hcwd : Absolute cwd) (name : Path) :
    Absolute (chosen fs cwd name) := by
  unfold chosen
  split
  · exact absolute_append hcwd name
  · exact absolute_append (by decide) name

theorem readable_of_ok {fs : FileSystem} {path : Path} {h : Handle}
    (hopen : fs.openRead path = .ok h) : Readable fs path := by
  rw [Readable, hopen]
  rfl

theorem not_readable_of_error {fs : FileSystem} {path : Path} {e : Errno}
    (hopen : fs.openRead path = .error e) : ¬ Readable fs path := by
  rw [Readable, hopen]
  exact Bool.false_ne_true

/-- What is not refused is readable when it exists. -/
theorem readable_iff {fs : FileSystem} {path : Path} (hdenied : fs.denied path .r = none) :
    Readable fs path ↔ (fs.file path).current ≠ none := by
  unfold Readable FileSystem.openRead
  rw [hdenied]
  cases (fs.file path).current with
  | none => simp [Except.isOk, Except.toBool]
  | some ino => simp [Except.isOk, Except.toBool]

theorem isSome_locateConfig {fs : FileSystem} (h : Readable fs (chosen fs cwd name)) :
    (locateConfig fs cwd name).isSome = true := by
  unfold locateConfig
  cases hcwd : fs.openRead (cwd ++ "/" ++ name) with
  | ok f => rfl
  | error e =>
      rw [chosen, if_neg (not_readable_of_error hcwd)] at h
      cases hetc : fs.openRead (etcConfDir ++ "/" ++ name) with
      | ok f => rfl
      | error e' => exact absurd h (not_readable_of_error hetc)

/-- The name that `option_load` leaves in `CONFIG_FILE`. -/
theorem optionLoad_configFile : wp (optionLoad cwd) ⟨name, errno⟩ os (fun _ g' _ _ =>
    g'.configFile = chosen os.fs cwd name) True := by
  simp only [optionLoad, wp_bind, wp_get, wp_fopen_r]
  cases hcwd : os.fs.openRead (cwd ++ "/" ++ name) with
  | ok h =>
      rw [chosen, if_pos (readable_of_ok hcwd)]
      simp only [wp_setConfigFile]
      refine wp_mono (wp_stuck recordConfig_spec) fun ret g' os' events => ?_
      rintro ⟨-, -, hsame, -⟩
      exact hsame
  | error e =>
      rw [chosen, if_neg (not_readable_of_error hcwd)]
      simp only [wp_setConfigFile]
      cases os.fs.openRead (etcConfDir ++ "/" ++ name) with
      | ok h =>
          refine wp_mono (wp_stuck recordConfig_spec) fun ret g' os' events => ?_
          rintro ⟨-, -, hsame, -⟩
          exact hsame
      | error e' => simp

/-- What `option_load` leaves behind, whether it can record the name or not. -/
theorem optionLoad_leaves (os : Os) (cwd name : Path) (errno : Nat) :
    wp (optionLoad cwd) ⟨name, errno⟩ os (fun ret g' os' _ =>
      g'.configFile = chosen os.fs cwd name ∧
      (Readable os.fs (chosen os.fs cwd name) → Recordable os.fs → ret = 0 ∧
        (os'.fs.file configLoad).content = some (g'.configFile.toList ++ ['\n']))) False := by
  refine wp_mono (wp_and (optionLoad_spec cwd) optionLoad_configFile) fun ret g' os' events => ?_
  rintro ⟨⟨hzero, hrecorded, -⟩, hchosen⟩
  refine ⟨hchosen, fun hreadable hrecordable => ?_⟩
  have hret : ret = 0 := hzero.mpr ⟨isSome_locateConfig hreadable, hrecordable⟩
  exact ⟨hret, (hrecorded hret).2.1⟩

/-- Whether the target is reached only depends on the name that is left. -/
theorem resolves_iff_chosen (hcwd : Absolute cwd) : Resolves os naming cwd name errno ↔
    ∀ target, wanted os.fs cwd name = some target →
      Readable os.fs (chosen os.fs cwd name) ∧
        naming.file (chosen os.fs cwd name) = naming.file target := by
  obtain ⟨ret, g', os', events, hrun, hchosen, hrecorded⟩ :=
    wp_false_iff.mp (optionLoad_leaves os cwd name errno)
  constructor
  · intro hresolves target htarget
    obtain ⟨ret', g'', os'', events', hrun', -, hreadable, hsame, -⟩ := hresolves target htarget
    rw [hrun, Option.some.injEq, Prod.mk.injEq, Prod.mk.injEq] at hrun'
    obtain ⟨⟨-, rfl⟩, -⟩ := hrun'
    rw [hchosen] at hreadable hsame
    exact ⟨hreadable, hsame⟩
  · intro hreached target htarget
    obtain ⟨hreadable, hsame⟩ := hreached target htarget
    refine ⟨ret, g', os', events, hrun, ?_, ?_, ?_, hrecorded hreadable⟩
    · rw [hchosen]
      exact absolute_chosen os.fs hcwd name
    · rw [hchosen]
      exact hreadable
    · rw [hchosen]
      exact hsame

theorem prefixLeadsTo_iff : PrefixLeadsTo os naming cwd name ↔
    Readable os.fs (chosen os.fs cwd name) ∧
      naming.file (chosen os.fs cwd name) = naming.file name := by
  unfold PrefixLeadsTo chosen
  split
  · rename_i hreadable
    exact (and_iff_right hreadable).symm
  · exact Iff.rfl

/-- A name that is not a full one of a readable file asks for the file that is found. -/
theorem wanted_other {target : Path} (hno : ¬ (Absolute name ∧ Readable os.fs name))
    (h : wanted os.fs cwd name = some target) :
    target = chosen os.fs cwd name ∧ Readable os.fs (chosen os.fs cwd name) := by
  rw [wanted, if_neg hno] at h
  unfold chosen
  split at h
  · rename_i hreadable
    rw [if_pos hreadable]
    exact ⟨(Option.some.inj h).symm, hreadable⟩
  · rename_i hunreadable
    rw [if_neg hunreadable]
    split at h
    · rename_i hreadable
      exact ⟨(Option.some.inj h).symm, hreadable⟩
    · cases h

/-- `option_load` ends with the file asked for exactly when that is not given by its full name, or
one of the prefixes leads to it all the same. -/
theorem resolves_iff (hcwd : Absolute cwd) : Resolves os naming cwd name errno ↔
    (Absolute name → Readable os.fs name → PrefixLeadsTo os naming cwd name) := by
  rw [resolves_iff_chosen hcwd]
  by_cases hfull : Absolute name ∧ Readable os.fs name
  · have hwanted : wanted os.fs cwd name = some name := if_pos hfull
    rw [prefixLeadsTo_iff]
    constructor
    · exact fun hreached _ _ => hreached name hwanted
    · intro hleads target htarget
      rw [hwanted] at htarget
      cases htarget
      exact hleads hfull.1 hfull.2
  · constructor
    · exact fun _ habsolute hreadable => absurd ⟨habsolute, hreadable⟩ hfull
    · intro _ target htarget
      obtain ⟨rfl, hreadable⟩ := wanted_other hfull htarget
      exact ⟨hreadable, rfl⟩

/-! ## The root directory and the others -/

theorem collapse_slashes (rest : List Char) (h : rest.head? = some '/') :
    collapse ('/' :: '/' :: rest) = collapse rest := by
  cases rest with
  | nil => cases h
  | cons c rest =>
      cases h
      rw [collapse, collapse]

/-- In the root directory a full name is found under the first prefix. -/
theorem prefixLeadsTo_root (habsolute : Absolute name) (hreadable : Readable os.fs name) :
    PrefixLeadsTo os naming "/" name := by
  have hprefixed : Absolute ("/" ++ "/" ++ name) := absolute_append (by decide) name
  have hcollapse : collapse ("/" ++ "/" ++ name).toList = collapse name.toList := by
    rw [String.toList_append]
    exact collapse_slashes name.toList habsolute
  have hsame := naming.slashes _ _ hprefixed habsolute hcollapse
  rw [PrefixLeadsTo, if_pos ((naming.readable _ _ hprefixed habsolute hsame).mpr hreadable)]
  exact hsame

/-- Names are looked up without their repeated slashes. -/
def slashed (fs : FileSystem) : FileSystem where
  file path := fs.file (String.ofList (collapse path.toList))
  dir path := fs.dir (String.ofList (collapse path.toList))
  denied path := fs.denied (String.ofList (collapse path.toList))
  sealed path := fs.sealed (String.ofList (collapse path.toList))

/-- A system with the shipped configuration, where it belongs, and nothing else. -/
def installedConfig : Os where
  fs := slashed (.ofFiles [(defaultConfigFile, [])])
  proc := []
  killError _ _ := none
  self := 2

/-- There every name stands for what is left of it without repeated slashes. -/
def bySlashes : Naming installedConfig.fs where
  Id := List Char
  file path := collapse path.toList
  slashes _ _ _ _ h := h
  readable p q _ _ h := by
    rw [readable_iff rfl, readable_iff rfl]
    show ((FileSystem.ofFiles [(defaultConfigFile, [])]).file
      (String.ofList (collapse p.toList))).current ≠ none ↔ _
    rw [h]
    rfl

/-- Started from `/`, the shipped program finds the shipped configuration. -/
theorem default_found_at_root : Resolves installedConfig bySlashes "/" defaultConfigFile 0 := by
  have hcwd : Absolute "/" := by decide
  refine (resolves_iff hcwd).mpr ?_
  intro habsolute hreadable
  apply prefixLeadsTo_root
  · exact habsolute
  · exact hreadable

/-- Started from `/root` it does not. -/
theorem default_not_found : ¬ ∀ os (naming : Naming os.fs) cwd name errno, Absolute cwd →
    Resolves os naming cwd name errno := by
  intro hall
  have hreadable : Readable installedConfig.fs defaultConfigFile := by decide +kernel
  have hunreadable : ¬ Readable installedConfig.fs
      (chosen installedConfig.fs "/root" defaultConfigFile) := by decide +kernel
  have hcwd : Absolute "/root" := by decide
  have hwanted : wanted installedConfig.fs "/root" defaultConfigFile = some defaultConfigFile :=
    if_pos ⟨by decide, hreadable⟩
  have hresolves := hall installedConfig bySlashes "/root" defaultConfigFile 0 hcwd
  exact hunreadable ((resolves_iff_chosen hcwd).mp hresolves _ hwanted).1

end Robotd
