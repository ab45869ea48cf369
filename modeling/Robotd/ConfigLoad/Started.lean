import Robotd.Cli.Verdict
import Robotd.ConfigLoad.Codec

/-!
# The configuration that is started and the one that is reloaded

When `parse_options` returns 0, `main` constructs a daemon on `CONFIG_FILE`, and the next SIGHUP
makes it load the first line of `CONFIG_LOAD`. The two names are assigned in different branches.
`StartsElsewhere` lists the branches in which they differ.
-/

namespace Robotd

open Lib Lib.CLib Cli

variable {g g' : Globals} {os os' : Os} {cwd : Path} {argv : List String}

/-- `CONFIG_LOAD` is missing and can be created. -/
def Missing (fs : FileSystem) : Prop :=
  fs.openRead configLoad = .error .enoent ∧ fs.denied configLoad .w = none ∧
    (fs.dir runConfDir = true ∨ fs.sealed runConfDir = none)

/-- How the block on `CONFIG_LOAD` leaves the variables and the system, when it goes on or
returns 0. -/
inductive Restored (g : Globals) (os : Os) : Option Int → Globals → Os → Prop where
  | word (h : Handle) (g' : Globals) (hopen : os.fs.openRead configLoad = .ok h)
      (hword : scanWord (os.fs.read h) ≠ []) (hlength : (scanWord (os.fs.read h)).length < 256)
      (hconfig : g'.configFile = String.ofList (scanWord (os.fs.read h))) :
      Restored g os none g' os
  | recreated (g' : Globals) (os' : Os) (hmissing : Missing os.fs)
      (hconfig : g'.configFile = g.configFile) (heffect : Effect os os')
      (hcontent : (os'.fs.file configLoad).content = some missingConfigLine) :
      Restored g os none g' os'
  | rescued (h : Handle) (g' : Globals) (os' : Os) (hopen : os.fs.openRead configLoad = .ok h)
      (hword : scanWord (os.fs.read h) = []) (hdenied : os.fs.denied configLoad .w = none)
      (herrno : g.errno = 0) (hconfig : g'.configFile = "") (heffect : Effect os os')
      (hcontent : (os'.fs.file configLoad).content = some g.configFile.toList) :
      Restored g os (some 0) g' os'

theorem restoreConfig_restored :
    wp restoreConfig g os (fun r g' os' _ => r = none ∨ r = some 0 → Restored g os r g' os')
      True := by
  simp only [restoreConfig, wp_bind, wp_fopen_r]
  cases hread : os.fs.openRead configLoad with
  | ok h =>
      simp only [wp_bind, wp_fread, wp_ite, wp_fault, wp_get, wp_setConfigFile, wp_fopen_w]
      split
      · trivial
      · rename_i hlength
        split
        · rename_i hempty
          cases hwrite : os.fs.openWrite configLoad with
          | mk answer fs =>
          cases answer with
          | error e => trivial
          | ok h' =>
              obtain ⟨hpath, -, -, hdenied, -⟩ := FileSystem.openWrite_ok hwrite
              have heffect := (Effect.openWrite hwrite).trans (.write hpath g.configFile.toList)
              simp only [wp_fwrite, wp_eprintf, wp_errno, wp_pure, reduceCtorEq,
                Option.some.injEq, Nat.cast_eq_zero, false_or]
              intro herrno
              rw [herrno]
              exact .rescued h _ _ hread (by simpa using hempty) hdenied herrno
                (by simp [List.isEmpty_iff.mp hempty]) heffect
                (FileSystem.content_write_opened hwrite _)
        · rename_i hword
          intro _
          exact .word h _ hread (by simpa using hword) (not_le.mp hlength) rfl
  | error e =>
      simp only [wp_bind, wp_get, wp_ite]
      split
      · rename_i henoent
        refine wp_mono (wp_stuck makeRunConfDir_spec) fun made g' os' _ => ?_
        rintro ⟨hmade, hdir, herrno, hconfig, heffect⟩
        cases made with
        | false => simp [herrno rfl]
        | true =>
            simp only [if_true, wp_bind, wp_fopen_w]
            cases hwrite : os'.fs.openWrite configLoad with
            | mk answer fs =>
            cases answer with
            | error e' => simp [e'.2]
            | ok h =>
                obtain ⟨hpath, -, -, hdenied, -⟩ := FileSystem.openWrite_ok hwrite
                have heffect' := (heffect.trans (.openWrite hwrite)).trans
                  (.write hpath missingConfigLine)
                have hmissing : Missing os.fs :=
                  ⟨by rw [hread, Subtype.ext henoent], heffect.denied_eq ▸ hdenied, hmade.mp rfl⟩
                intro _
                exact .recreated _ _ hmissing hconfig heffect'
                  (FileSystem.content_write_opened hwrite _)
      · simp [e.2]

theorem Restored.effect {r : Option Int} (h : Restored g os r g' os') : Effect os os' := by
  cases h with
  | word => exact .refl os
  | recreated _ _ _ _ heffect => exact heffect
  | rescued _ _ _ _ _ _ _ _ heffect => exact heffect

/-- A `CONFIG_LOAD` with a word is left alone and the word is taken. -/
theorem Restored.of_word {r : Option Int} {h : Handle} (hopen : os.fs.openRead configLoad = .ok h)
    (hword : scanWord (os.fs.read h) ≠ []) (hr : Restored g os r g' os') :
    os' = os ∧ g'.configFile = String.ofList (scanWord (os.fs.read h)) := by
  cases hr with
  | word f _ hopen' _ _ hconfig =>
      rw [hopen] at hopen'
      cases hopen'
      exact ⟨rfl, hconfig⟩
  | recreated _ _ hmissing =>
      have herror := hmissing.1
      rw [hopen] at herror
      cases herror
  | rescued f _ _ hopen' hempty =>
      rw [hopen] at hopen'
      cases hopen'
      exact absurd hempty hword

/-- A missing `CONFIG_LOAD` is created with the default line. -/
theorem Restored.of_missing {r : Option Int} (hmissing : Missing os.fs)
    (hr : Restored g os r g' os') : g'.configFile = g.configFile ∧
      (os'.fs.file configLoad).content = some missingConfigLine := by
  cases hr with
  | word f _ hopen =>
      rw [hmissing.1] at hopen
      cases hopen
  | recreated _ _ _ hconfig _ hcontent => exact ⟨hconfig, hcontent⟩
  | rescued f _ _ hopen =>
      rw [hmissing.1] at hopen
      cases hopen

/-- A `CONFIG_LOAD` without a word gets the old name. -/
theorem Restored.of_wordless {r : Option Int} (hwordless : Wordless os.fs)
    (hr : Restored g os r g' os') : g'.configFile = "" ∧
      (os'.fs.file configLoad).content = some g.configFile.toList := by
  obtain ⟨h, hopen, hempty⟩ := hwordless
  cases hr with
  | word f _ hopen' hword =>
      rw [hopen] at hopen'
      cases hopen'
      exact absurd hempty hword
  | recreated _ _ hmissing =>
      have herror := hmissing.1
      rw [hopen] at herror
      cases herror
  | rescued _ _ _ _ _ _ _ hconfig _ hcontent => exact ⟨hconfig, hcontent⟩

/-- When the section for a running daemon returns 0, the block on `CONFIG_LOAD` has left
`CONFIG_FILE` and `CONFIG_LOAD` as they are. -/
theorem daemonProcess_restored (pid : Nat) :
    wp (daemonProcess cwd argv pid) g os (fun ret g' os' _ => ret = 0 →
      argument argv 1 ≠ key 4 ∧ (Restored g os (some 0) g' os' ∨
        argument argv 1 = key 2 ∧ os.killError pid .sigterm = none ∧ Restored g os none g' os'))
      True := by
  refine wp_mono (daemonProcess_zero pid restoreConfig_restored) fun ret g' os' events => ?_
  intro h hzero
  rcases h hzero with ⟨hstatus, hsome | ⟨hrestart, hkill, ⟨first, hnone⟩, -⟩⟩
  · exact ⟨hstatus, .inl (hsome (.inr rfl))⟩
  · have hrestored := hnone (.inl rfl)
    rw [hrestored.effect.os_eq] at hkill
    exact ⟨hstatus, .inr ⟨hrestart, hkill, hrestored⟩⟩

/-- The same without the way it went. -/
theorem daemonProcess_restores (pid : Nat) :
    wp (daemonProcess cwd argv pid) g os (fun ret g' os' _ => ret = 0 →
      ∃ r, Restored g os r g' os') True := by
  refine wp_mono (daemonProcess_restored pid) fun ret g' os' _ => ?_
  intro h hzero
  rcases h hzero with ⟨-, hrestored | ⟨-, -, hrestored⟩⟩
  · exact ⟨_, hrestored⟩
  · exact ⟨_, hrestored⟩

/-! ## The line that the next reload reads -/

theorem reloadLine_of_content {fs : FileSystem} {text : List Char}
    (hcontent : (fs.file configLoad).content = some text) :
    reloadLine fs = if fs.denied configLoad .r = none then String.ofList (getLine text) else "" := by
  cases hdenied : fs.denied configLoad .r with
  | none =>
      obtain ⟨h, hopen, hread⟩ := FileSystem.openRead_of_content hdenied hcontent
      simp [reloadLine, hopen, hread]
  | some e => simp [reloadLine, FileSystem.openRead, hdenied]

/-- What is read of a `CONFIG_LOAD` that the block has recreated. -/
def recreatedLine (fs : FileSystem) : Path :=
  if fs.denied configLoad .r = none then etcConfDir ++ "/" ++ package ++ "/" ++ configLoad else ""

theorem reloadLine_recreated (heffect : Effect os os')
    (hcontent : (os'.fs.file configLoad).content = some missingConfigLine) :
    reloadLine os'.fs = recreatedLine os.fs := by
  have hline : getLine missingConfigLine = (etcConfDir ++ "/" ++ package ++ "/" ++ configLoad).toList :=
    getLine_line_eq_iff.mpr (by decide)
  rw [reloadLine_of_content hcontent, heffect.denied_eq, hline, String.ofList_toList, recreatedLine]

theorem reloadLine_rescued {h : Handle} (heffect : Effect os os')
    (hopen : os.fs.openRead configLoad = .ok h)
    (hcontent : (os'.fs.file configLoad).content = some g.configFile.toList) :
    reloadLine os'.fs = String.ofList (getLine g.configFile.toList) := by
  have hdenied : os.fs.denied configLoad .r = none := by
    unfold FileSystem.openRead at hopen
    split at hopen
    · cases hopen
    · assumption
    · cases hopen
  rw [reloadLine_of_content hcontent, heffect.denied_eq, if_pos hdenied]

/-- After `option_load` the line is the path it has recorded, unless it cannot be read or is more
than a line. -/
theorem reloadLine_recorded_eq_iff {path : Path} (heffect : Effect os os') (hpath : path ≠ "")
    (hcontent : (os'.fs.file configLoad).content = some (path.toList ++ ['\n'])) :
    reloadLine os'.fs = path ↔ os.fs.denied configLoad .r = none ∧ '\n' ∉ path.toList := by
  rw [reloadLine_of_content hcontent, heffect.denied_eq]
  split
  · rename_i hdenied
    rw [← String.toList_inj, String.toList_ofList, getLine_line_eq_iff]
    simp [hdenied]
  · rename_i hdenied
    exact iff_of_false (Ne.symm hpath) fun h => hdenied h.1

/-! ## Every way to return 0 -/

/-- Whenever `parse_options` returns 0, the next reload loads the file that is started. -/
def StartsOnRecorded (cwd : Path) (argv : List String) (g : Globals) (os : Os) : Prop :=
  ∀ ret g' os' events, (parseOptions cwd argv).runs g os = some ((ret, g'), os', events) →
    ret = 0 → reloadLine os'.fs = g'.configFile

/-- The ways to return 0 with a `CONFIG_FILE` that is not the line of `CONFIG_LOAD`. -/
inductive StartsElsewhere (cwd : Path) (argv : List String) (g : Globals) (os : Os) : Prop where
  /-- The PID file has no number, and `errno`, which is then returned, is 0. -/
  | unreadablePid (h : Handle) (hhelp : argument argv 1 ≠ key 5)
      (hopen : os.fs.openRead pidFile = .ok h) (hnumber : number (os.fs.read h) = none)
      (herrno : g.errno = 0) (hline : reloadLine os.fs ≠ g.configFile)
  /-- No daemon is found, and what `option_load` records does not read back. -/
  | unreadableRecord (fs : FileSystem) (path : Path) (hnotfound : NotFound os fs)
      (hoption : StartsDaemon (argument argv 1)) (hrecordable : Recordable fs)
      (hlocated : locateConfig fs cwd (requestedConfig argv g) = some path)
      (hline : ¬ (fs.denied configLoad .r = none ∧ '\n' ∉ path.toList))
  /-- `CONFIG_LOAD` holds no word: `CONFIG_FILE` is emptied and its old value is written. -/
  | rescued (n : Bool × Nat) (hhelp : argument argv 1 ≠ key 5) (hstatus : argument argv 1 ≠ key 4)
      (hfound : Found os n) (hwordless : Wordless os.fs) (hdenied : os.fs.denied configLoad .w = none)
      (herrno : g.errno = 0) (hrange : n.2 < 2 ^ 64) (hline : getLine g.configFile.toList ≠ [])
  /-- `restart` takes a word of `CONFIG_LOAD` that is not its first line. -/
  | word (n : Bool × Nat) (h : Handle) (hoption : argument argv 1 = key 2) (hfound : Found os n)
      (hopen : os.fs.openRead configLoad = .ok h) (hword : scanWord (os.fs.read h) ≠ [])
      (hlength : (scanWord (os.fs.read h)).length < 256)
      (hkill : os.killError (pidExists n) .sigterm = none)
      (hline : getLine (os.fs.read h) ≠ scanWord (os.fs.read h))
  /-- `restart` recreates `CONFIG_LOAD` with a path of its own and keeps `CONFIG_FILE`. -/
  | recreated (n : Bool × Nat) (hoption : argument argv 1 = key 2) (hfound : Found os n)
      (hmissing : Missing os.fs) (hkill : os.killError (pidExists n) .sigterm = none)
      (hline : recreatedLine os.fs ≠ g.configFile)

theorem startsOnRecorded_iff_wp :
    StartsOnRecorded cwd argv g os ↔
      wp (parseOptions cwd argv) g os (fun ret g' os' _ => ret = 0 →
        reloadLine os'.fs = g'.configFile) True :=
  wp_true_iff.symm

/-- A run that ends with 0 and two names refutes `StartsOnRecorded`. -/
theorem not_startsOnRecorded (h : wp (parseOptions cwd argv) g os (fun ret g' os' _ =>
    ret = 0 ∧ reloadLine os'.fs ≠ g'.configFile) False) : ¬ StartsOnRecorded cwd argv g os := by
  obtain ⟨ret, g', os', events, hrun, hzero, hnot⟩ := wp_false_iff.mp h
  exact fun hall => hnot (hall ret g' os' events hrun hzero)

/-- `no_daemon_process` returns 0 on a recorded file that reads back, unless one is found that
does not. -/
theorem noDaemonProcess_reads_back (hargc : argv.length = 2 ∨ argv.length = 3)
    (hright : ∀ path, StartsDaemon (argument argv 1) → Recordable os.fs →
      locateConfig os.fs cwd (requestedConfig argv g) = some path →
        os.fs.denied configLoad .r = none ∧ '\n' ∉ path.toList) :
    wp (noDaemonProcess cwd argv) g os (fun ret g' os' _ => ret = 0 →
      reloadLine os'.fs = g'.configFile) True := by
  refine wp_mono (wp_stuck (noDaemonProcess_spec hargc)) fun ret g' os' _ => ?_
  rintro ⟨hret, hrecorded, heffect⟩ hzero
  obtain ⟨hlocated, hcontent, -⟩ := hrecorded hzero
  obtain ⟨hoption, -, hrecordable⟩ := hret.mp hzero
  rw [reloadLine_recorded_eq_iff heffect (locateConfig_ne_empty hlocated) hcontent]
  exact hright _ hoption hrecordable hlocated

/-- It does return 0 on a recorded file that does not read back. -/
theorem noDaemonProcess_reads_other {path : Path} (hargc : argv.length = 2 ∨ argv.length = 3)
    (hoption : StartsDaemon (argument argv 1)) (hrecordable : Recordable os.fs)
    (hlocated : locateConfig os.fs cwd (requestedConfig argv g) = some path)
    (hline : ¬ (os.fs.denied configLoad .r = none ∧ '\n' ∉ path.toList)) :
    wp (noDaemonProcess cwd argv) g os (fun ret g' os' _ => ret = 0 ∧
      reloadLine os'.fs ≠ g'.configFile) False := by
  refine wp_mono (noDaemonProcess_spec hargc) fun ret g' os' _ => ?_
  rintro ⟨hret, hrecorded, heffect⟩
  have hzero : ret = 0 := hret.mpr ⟨hoption, by simp [hlocated], hrecordable⟩
  obtain ⟨hconfig, hcontent, -⟩ := hrecorded hzero
  rw [hlocated, Option.some.injEq] at hconfig
  refine ⟨hzero, fun heq => hline ?_⟩
  rw [reloadLine_recorded_eq_iff heffect (locateConfig_ne_empty (hconfig ▸ hlocated)) hcontent] at heq
  exact hconfig ▸ heq

/-- A number out of range changes `errno` alone. -/
theorem configFile_ite {c : Prop} [Decidable c] {n : Nat} :
    (if c then { g with errno := n } else g).configFile = g.configFile := by
  split <;> rfl

/-- Without one of these ways, the reload loads what was started. -/
theorem startsOnRecorded_of_not_elsewhere
    (hright : argv.length = 2 ∨ argv.length = 3 → ¬ StartsElsewhere cwd argv g os) :
    StartsOnRecorded cwd argv g os := by
  rw [startsOnRecorded_iff_wp]
  by_cases hargc : argv.length = 2 ∨ argv.length = 3
  swap
  · simp only [parseOptions, if_pos hargc, falseParameters, wp_bind, wp_printf, wp_pure]
    exact fun hzero => absurd hzero (by decide)
  have hright := hright hargc
  by_cases hhelp : argument argv 1 = key 5
  · simp only [parseOptions, if_neg (not_not.mpr hargc), if_pos hhelp, wp_bind, help, wp_printf,
      wp_pure]
    exact fun hzero => absurd hzero (by decide)
  rw [wp_parseOptions hargc hhelp]
  cases hopen : os.fs.openRead pidFile with
  | error e =>
      refine noDaemonProcess_reads_back hargc fun path hoption hrecordable hlocated => ?_
      by_contra hline
      exact hright (.unreadableRecord os.fs path (.inl ⟨⟨e, hopen⟩, rfl⟩) hoption hrecordable
        hlocated hline)
  | ok h =>
      dsimp only
      cases hnumber : number (os.fs.read h) with
      | none =>
          intro hzero
          by_contra hline
          exact hright (.unreadablePid h hhelp hopen hnumber (by simpa using hzero) hline)
      | some n =>
          dsimp only
          split
          · rename_i halive
            have hfound : Found os n := ⟨h, hopen, hnumber, halive⟩
            refine wp_mono (daemonProcess_restored (pidExists n)) fun ret g' os' _ => ?_
            intro hdaemon hzero
            by_contra hline
            apply hright
            rcases hdaemon hzero with ⟨hstatus, hrestored | ⟨hoption, hkill, hrestored⟩⟩
            · cases hrestored with
              | rescued f _ _ hopen' hword hdenied herrno hempty heffect hcontent =>
                  have hrange : n.2 < 2 ^ 64 := by
                    by_contra hle
                    rw [if_pos (not_lt.mp hle)] at herrno
                    exact Errno.erange.2 herrno
                  rw [reloadLine_rescued heffect hopen' hcontent, hempty, configFile_ite] at hline
                  rw [if_neg (not_le.mpr hrange)] at herrno
                  refine .rescued n hhelp hstatus hfound ⟨f, hopen', hword⟩ hdenied herrno hrange ?_
                  exact fun hnil => hline (by rw [hnil])
            · cases hrestored with
              | word f _ hopen' hword hlength hconfig' =>
                  refine .word n f hoption hfound hopen' hword hlength hkill fun heq => hline ?_
                  simp only [reloadLine, hopen', heq, hconfig']
              | recreated _ _ hmissing hconfig' heffect hcontent =>
                  refine .recreated n hoption hfound hmissing hkill fun heq => hline ?_
                  rw [reloadLine_recreated heffect hcontent, hconfig', configFile_ite]
                  exact heq
          · rename_i hdead
            rcases hunlink : os.fs.unlink pidFile with ⟨answer, fs⟩
            cases answer with
            | error e => exact fun hzero => absurd (by simpa using hzero) e.2
            | ok done =>
                refine noDaemonProcess_reads_back hargc fun path hoption hrecordable hlocated => ?_
                by_contra hline
                refine hright (.unreadableRecord fs path ?_ hoption hrecordable ?_ hline)
                · exact .inr ⟨h, n, hopen, hnumber, hdead, hunlink⟩
                · split at hlocated <;> exact hlocated

/-- Each of these ways leads to a run that returns 0 with two names. -/
theorem not_startsOnRecorded_of_elsewhere (hargc : argv.length = 2 ∨ argv.length = 3)
    (hwrong : StartsElsewhere cwd argv g os) : ¬ StartsOnRecorded cwd argv g os := by
  apply not_startsOnRecorded
  cases hwrong with
  | unreadablePid h hhelp hopen hnumber herrno hline =>
      rw [wp_parseOptions hargc hhelp]
      simp only [hopen, hnumber]
      exact ⟨by simp [herrno], hline⟩
  | unreadableRecord fs path hnotfound hoption hrecordable hlocated hline =>
      have hhelp : argument argv 1 ≠ key 5 := by
        intro heq
        rw [heq] at hoption
        exact absurd hoption (by decide)
      rw [wp_parseOptions hargc hhelp]
      rcases hnotfound with ⟨⟨e, hopen⟩, rfl⟩ | ⟨h, n, hopen, hnumber, hdead, hunlink⟩
      · simp only [hopen]
        exact noDaemonProcess_reads_other hargc hoption hrecordable hlocated hline
      · simp only [hopen, hnumber, if_neg hdead, hunlink]
        refine noDaemonProcess_reads_other hargc hoption hrecordable ?_ hline
        split <;> exact hlocated
  | rescued n hhelp hstatus hfound hwordless hdenied herrno hrange hline =>
      obtain ⟨h, hopen, hnumber, halive⟩ := hfound
      rw [wp_parseOptions hargc hhelp]
      simp only [hopen, hnumber, if_pos halive, if_neg (not_le.mpr hrange)]
      refine wp_mono (wp_and (daemonProcess_wordless hstatus hwordless hdenied)
        (daemonProcess_restores _)) fun ret g' os' _ => ?_
      rintro ⟨⟨rfl, -⟩, hrestored⟩
      have hzero : (g.errno : Int) = 0 := by simp [herrno]
      obtain ⟨r, hrestored⟩ := hrestored hzero
      obtain ⟨hconfig, hcontent⟩ := hrestored.of_wordless hwordless
      obtain ⟨f, hopen', -⟩ := hwordless
      refine ⟨hzero, ?_⟩
      rw [reloadLine_rescued hrestored.effect hopen' hcontent, hconfig]
      simpa using hline
  | word n h hoption hfound hopen' hword hlength hkill hline =>
      obtain ⟨f, hopen, hnumber, halive⟩ := hfound
      have hhelp : argument argv 1 ≠ key 5 := by
        rw [hoption]
        decide
      rw [wp_parseOptions hargc hhelp]
      simp only [hopen, hnumber, if_pos halive]
      refine wp_mono (wp_and (daemonProcess_restart hoption (.inl ⟨h, hopen', hword, hlength⟩) hkill)
        (daemonProcess_restores _)) fun ret g' os' _ => ?_
      rintro ⟨⟨hzero, -⟩, hrestored⟩
      obtain ⟨r, hrestored⟩ := hrestored hzero
      obtain ⟨rfl, hconfig⟩ := hrestored.of_word hopen' hword
      refine ⟨hzero, fun heq => hline ?_⟩
      simp only [reloadLine, hopen', hconfig] at heq
      exact String.ofList_injective heq
  | recreated n hoption hfound hmissing hkill hline =>
      obtain ⟨f, hopen, hnumber, halive⟩ := hfound
      have hhelp : argument argv 1 ≠ key 5 := by
        rw [hoption]
        decide
      rw [wp_parseOptions hargc hhelp]
      simp only [hopen, hnumber, if_pos halive]
      refine wp_mono (wp_and (daemonProcess_restart hoption (.inr hmissing) hkill)
        (daemonProcess_restores _)) fun ret g' os' _ => ?_
      rintro ⟨⟨hzero, -⟩, hrestored⟩
      obtain ⟨r, hrestored⟩ := hrestored hzero
      obtain ⟨hconfig, hcontent⟩ := hrestored.of_missing hmissing
      refine ⟨hzero, ?_⟩
      rw [reloadLine_recreated hrestored.effect hcontent, hconfig, configFile_ite]
      exact hline

/-- Whenever `parse_options` returns 0 the started and the reloaded file are one, except in the
listed ways. -/
theorem parse_options_starts_on_recorded_iff :
    StartsOnRecorded cwd argv g os ↔
      (argv.length = 2 ∨ argv.length = 3 → ¬ StartsElsewhere cwd argv g os) := by
  refine ⟨fun h hargc hwrong => ?_, startsOnRecorded_of_not_elsewhere⟩
  exact not_startsOnRecorded_of_elsewhere hargc hwrong h

/-- A system with a running daemon, no `CONFIG_LOAD` and its directory. -/
def unrecorded : Os where
  fs := .ofFiles [(pidFile, decimal 4321 ++ ['\n'])]
  proc := ["1", "4321"]
  killError _ _ := none
  self := 4400

/-- `restart` without a `CONFIG_LOAD` starts on `/etc/robotd/General.conf` and records another
path. -/
theorem restart_starts_elsewhere :
    ¬ ∀ cwd argv os, StartsOnRecorded cwd argv initialGlobals os := by
  intro hall
  refine not_startsOnRecorded_of_elsewhere (by decide) ?_ (hall "/" [package, "restart"] unrecorded)
  have hopen : unrecorded.fs.openRead pidFile = .ok ⟨pidFile, 0⟩ := by rfl
  have hnumber : number (unrecorded.fs.read ⟨pidFile, 0⟩) = some (false, 4321) := by decide
  exact .recreated (false, 4321) (by decide) ⟨_, hopen, hnumber, by decide⟩
    ⟨by rfl, rfl, .inl rfl⟩ rfl (by decide)

end Robotd
