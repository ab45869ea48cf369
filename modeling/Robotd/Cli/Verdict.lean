import Robotd.Cli.Signals

/-!
# When `parse_options` says that a daemon is to be started

`main` constructs a daemon when `parse_options` returns 0. `StartJustified` says when it should,
and `StartsWrongly` lists the four ways in which it does so without a reason. The main result,
`parse_options_starts_only_justified_iff`, is that there is no fifth.

Read `wp_parseOptions` first: it is the reading of the PID file and the scan of `/proc` as one
rule, on which everything about `parse_options` rests.
-/

namespace Robotd

open Lib Lib.CLib Cli

/-- `/proc` lists the process: a name that starts with a digit and that `atoi` takes for it. -/
def Alive (proc : List String) (pid : Int) : Prop :=
  ∃ name ∈ proc, name.toList.head?.any Char.isDigit = true ∧ atoi name.toList = pid

instance (proc : List String) (pid : Int) : Decidable (Alive proc pid) := by
  unfold Alive
  infer_instance

theorem any_entryNames {proc : List String} {pid : Nat} :
    proc.any (entryNames pid) = true ↔ Alive proc pid := by
  simp [Alive, entryNames]

/-- The kernel lists a process by its decimal number. -/
theorem alive_of_listed {proc : List String} {pid : Nat} (hpid : pid < 2 ^ 31)
    (h : String.ofList (decimal pid) ∈ proc) : Alive proc pid := by
  refine ⟨_, h, ?_, by simpa using atoi_decimal hpid⟩
  obtain ⟨c, rest, hdecimal⟩ := List.exists_cons_of_ne_nil (decimal_ne_nil pid)
  have hmem : c ∈ decimal pid := by simp [hdecimal]
  have hdigit : c.isDigit = true := isDigit_of_mem_decimal hmem
  simp [hdecimal, hdigit]

/-- The number in the PID file, as it is written there. -/
def recordedPid (fs : FileSystem) : Option Int :=
  ((fs.file pidFile).content.bind number).map denoted

/-- A live process has the number in the PID file. -/
def DaemonAlive (os : Os) : Prop := ∃ pid, recordedPid os.fs = some pid ∧ Alive os.proc pid

/-- The commands that start a daemon when none runs: `load`, `reload` and `restart`. -/
def StartsDaemon (option : String) : Prop := option = key 0 ∨ option = key 1 ∨ option = key 2

instance (option : String) : Decidable (StartsDaemon option) := by
  unfold StartsDaemon
  infer_instance

/-- A daemon should be started: none is alive and a starting command has loaded its
configuration, or `restart` has delivered `SIGTERM` to the one that is. -/
def StartJustified (argv : List String) (os : Os) (config : Path) (events : List Event) : Prop :=
  ¬ DaemonAlive os ∧ StartsDaemon (argument argv 1) ∧ ConfigRecorded config events ∨
    argument argv 1 = key 2 ∧ ∃ pid, recordedPid os.fs = some pid ∧ Alive os.proc pid ∧
      (⟨.kill pid .sigterm, .ok ()⟩ : Event) ∈ events

/-- Whenever `parse_options` returns 0, a daemon should be started. -/
def StartsOnlyJustified (cwd : Path) (argv : List String) (g : Globals) (os : Os) : Prop :=
  ∀ ret g' os' events, (parseOptions cwd argv).runs g os = some ((ret, g'), os', events) →
    ret = 0 → StartJustified argv os g'.configFile events

/-- The file that `option_load` is asked for. -/
def requestedConfig (argv : List String) (g : Globals) : Path :=
  if argv.length = 3 then argument argv 2 else g.configFile

/-- The 16 bits that `parse_options` keeps of a number. -/
def pidExists (n : Bool × Nat) : Nat := strtoul n % 2 ^ 16

theorem pidExists_of_lt {pid : Nat} (h : pid < 2 ^ 64) : pidExists (false, pid) = pid % 65536 := by
  have hle : ¬ 2 ^ 64 ≤ pid := not_le.mpr h
  simp only [pidExists, strtoul, if_neg hle, Bool.false_eq_true, if_false]
  rfl

/-- `parse_options` reads the number `n` and finds a process with its low 16 bits. -/
def Found (os : Os) (n : Bool × Nat) : Prop :=
  ∃ h, os.fs.openRead pidFile = .ok h ∧ number (os.fs.read h) = some n ∧
    Alive os.proc (pidExists n)

/-- `parse_options` finds no daemon, and the file system is then `fs`: it cannot open the PID
file, or it removes it because no process has the low 16 bits of its number. -/
def NotFound (os : Os) (fs : FileSystem) : Prop :=
  (∃ e, os.fs.openRead pidFile = .error e) ∧ fs = os.fs ∨
    ∃ h n, os.fs.openRead pidFile = .ok h ∧ number (os.fs.read h) = some n ∧
      ¬ Alive os.proc (pidExists n) ∧ os.fs.unlink pidFile = (.ok (), fs)

/-- The ways to return 0 without a reason to start a daemon. -/
inductive StartsWrongly (cwd : Path) (argv : List String) (g : Globals) (os : Os) : Prop where
  /-- The PID file has no number and `errno`, which is then returned, is 0. -/
  | unreadablePid (h : Handle) (hhelp : argument argv 1 ≠ key 5)
      (hopen : os.fs.openRead pidFile = .ok h) (hnumber : number (os.fs.read h) = none)
      (herrno : g.errno = 0)
  /-- A live process has the number in the PID file but not its low 16 bits. -/
  | overlooked (fs : FileSystem) (halive : DaemonAlive os) (hnotfound : NotFound os fs)
      (hoption : StartsDaemon (argument argv 1)) (hload : Loadable fs cwd (requestedConfig argv g))
  /-- A process is found, `CONFIG_LOAD` holds no word, and `errno`, which is then returned,
  is 0. -/
  | emptyConfigLoad (n : Bool × Nat) (hhelp : argument argv 1 ≠ key 5)
      (hstatus : argument argv 1 ≠ key 4) (hfound : Found os n) (hwordless : Wordless os.fs)
      (hdenied : os.fs.denied configLoad .w = none) (herrno : g.errno = 0) (hrange : n.2 < 2 ^ 64)
  /-- `restart` sends `SIGTERM` to another process, which has the low 16 bits of the number. -/
  | wrapped (n : Bool × Nat) (hoption : argument argv 1 = key 2) (hfound : Found os n)
      (hother : denoted n ≠ pidExists n) (hrestorable : Restorable os.fs)
      (hkill : os.killError (pidExists n) .sigterm = none)

variable {g : Globals} {os : Os} {cwd : Path} {argv : List String}

/-! ## The functions that decide the return value -/

/-- `no_daemon_process` returns 0 exactly for a starting command whose configuration loads, and
then `CONFIG_FILE` and `CONFIG_LOAD` name the file found. -/
theorem noDaemonProcess_spec (hargc : argv.length = 2 ∨ argv.length = 3) :
    wp (noDaemonProcess cwd argv) g os (fun ret g' os' events =>
      (ret = 0 ↔ StartsDaemon (argument argv 1) ∧ Loadable os.fs cwd (requestedConfig argv g)) ∧
      (ret = 0 → locateConfig os.fs cwd (requestedConfig argv g) = some g'.configFile ∧
        (os'.fs.file configLoad).content = some (g'.configFile.toList ++ ['\n']) ∧
        ConfigRecorded g'.configFile events) ∧ Effect os os') False := by
  simp only [noDaemonProcess, wp_ite]
  split
  · rename_i hstop
    have hno : ¬ StartsDaemon (key 3) := by decide
    simp [hstop, hno, dontDoAnything, Effect.refl os]
  · split
    · rename_i hstatus
      have hno : ¬ StartsDaemon (key 4) := by decide
      simp [hstatus, hno, dontDoAnything, Effect.refl os]
    · split
      · rename_i hoption
        have hstarts : StartsDaemon (argument argv 1) := hoption
        by_cases hthree : argv.length = 3
        · simp only [hthree, if_true, requestedConfig, wp_bind, wp_setConfigFile]
          refine wp_mono (optionLoad_spec cwd) fun ret g' os' events => ?_
          rintro ⟨hret, hrecorded, heffect⟩
          exact ⟨by simp [hstarts, hret], hrecorded, heffect⟩
        · have htwo : argv.length = 2 := hargc.resolve_right hthree
          simp only [if_neg hthree, if_pos htwo, requestedConfig]
          refine wp_mono (optionLoad_spec cwd) fun ret g' os' events => ?_
          rintro ⟨hret, hrecorded, heffect⟩
          exact ⟨by simp [hstarts, hret], hrecorded, heffect⟩
      · rename_i hoption
        have hno : ¬ StartsDaemon (argument argv 1) := hoption
        simp [hno, falseParameters, wrongOptions, Effect.refl os]

/-- Sending a signal: `ret` once it is sent, and an error number else. -/
theorem signalDaemon_spec {pid : Nat} {signal : Signal} {ret : Int} {format : String}
    {args : List String} :
    wp (signalDaemon pid signal ret format args) g os (fun r _ _ events =>
      (r = ret ∧ os.killError pid signal = none ∧
          (⟨.kill pid signal, .ok ()⟩ : Event) ∈ events ∨
        r ≠ 0 ∧ os.killError pid signal ≠ none) ∧
      ∀ e ∈ events, LeavesConfig e) False := by
  simp only [signalDaemon, wp_bind, wp_kill]
  cases os.killError pid signal with
  | none => simp [LeavesConfig]
  | some e => simp [e.2, LeavesConfig]

/-- When the section for a running daemon returns 0, its block on `CONFIG_LOAD` did, or it is a
`restart` that sent `SIGTERM` after that block. -/
theorem daemonProcess_zero {mid : Option Int → Globals → Os → List Event → Prop} (pid : Nat)
    (h : wp restoreConfig g os mid True) :
    wp (daemonProcess cwd argv pid) g os (fun ret g' os' events => ret = 0 →
      argument argv 1 ≠ key 4 ∧ (mid (some 0) g' os' events ∨
        argument argv 1 = key 2 ∧ os'.killError pid .sigterm = none ∧
          (∃ first, mid none g' os' first) ∧
          (⟨.kill pid .sigterm, .ok ()⟩ : Event) ∈ events)) True := by
  simp only [daemonProcess, wp_ite]
  split
  · simp [dontDoAnything]
  · rename_i hstatus
    rw [wp_bind]
    refine wp_mono h fun r g' os' first => ?_
    intro hmid
    cases r with
    | some ret =>
        simp only [wp_pure, List.append_nil]
        rintro rfl
        exact ⟨hstatus, .inl hmid⟩
    | none =>
        simp only [wp_ite]
        split
        · split
          · simp only [wp_bind, wp_setConfigFile]
            refine wp_mono (wp_stuck (optionLoad_spec cwd)) fun ret g'' os'' _ _ => ?_
            simp only [wp_ite]
            split
            · rename_i hret
              exact fun hzero => absurd hzero hret
            · refine wp_mono (wp_stuck signalDaemon_spec) fun r _ _ _ => ?_
              rintro ⟨⟨rfl, -⟩ | ⟨hne, -⟩, -⟩ hzero
              · exact absurd hzero (by decide)
              · exact absurd hzero hne
          · simp [wrongOptions]
        · split
          · refine wp_mono (wp_stuck signalDaemon_spec) fun r _ _ _ => ?_
            rintro ⟨⟨rfl, -⟩ | ⟨hne, -⟩, -⟩ hzero
            · exact absurd hzero (by decide)
            · exact absurd hzero hne
          · split
            · rename_i hrestart
              simp only [wp_bind, wp_get, wp_printf, signalDaemon, wp_kill]
              cases hkill : os'.killError pid .sigterm with
              | some e => simp [e.2]
              | none =>
                  intro _
                  exact ⟨hstatus, .inr ⟨hrestart, hkill, ⟨first, hmid⟩, by simp⟩⟩
            · split
              · simp only [wp_bind, wp_kill]
                cases os'.killError pid .sigterm with
                | none => simp [dontDoAnything]
                | some e => simp [e.2]
              · simp [falseParameters, wrongOptions]

/-- When the section for a running daemon returns 0, it is a `restart` that sent `SIGTERM`, or
it returned an `errno` of 0 after finding no word in `CONFIG_LOAD`. -/
theorem daemonProcess_returns (pid : Nat) :
    wp (daemonProcess cwd argv pid) g os (fun ret _ _ events => ret = 0 →
      argument argv 1 ≠ key 4 ∧
        (Wordless os.fs ∧ g.errno = 0 ∧ os.fs.denied configLoad .w = none ∨
          argument argv 1 = key 2 ∧ Restorable os.fs ∧ os.killError pid .sigterm = none ∧
            (⟨.kill pid .sigterm, .ok ()⟩ : Event) ∈ events)) True := by
  refine wp_mono (daemonProcess_zero pid restoreConfig_returns) fun ret g' os' events => ?_
  intro h hzero
  rcases h hzero with ⟨hstatus, ⟨-, hsome, -⟩ | ⟨hrestart, hkill, ⟨first, hnone, -, heffect⟩, hmem⟩⟩
  · exact ⟨hstatus, .inl (hsome 0 rfl rfl)⟩
  · rw [heffect.os_eq] at hkill
    exact ⟨hstatus, .inr ⟨hrestart, hnone rfl, hkill, hmem⟩⟩

/-- A `restart` that can restore `CONFIG_LOAD` and send `SIGTERM` returns 0. -/
theorem daemonProcess_restart {pid : Nat} (hoption : argument argv 1 = key 2)
    (hrestorable : Restorable os.fs) (hkill : os.killError pid .sigterm = none) :
    wp (daemonProcess cwd argv pid) g os (fun ret _ _ events =>
      ret = 0 ∧ WritesNoConfig events) False := by
  have hne : key 2 ≠ key 4 ∧ key 2 ≠ key 0 ∧ key 2 ≠ key 1 := by decide
  simp only [daemonProcess, hoption, if_neg hne.1]
  rw [wp_bind]
  refine wp_mono (restoreConfig_none hrestorable) fun r g' os' first => ?_
  rintro ⟨rfl, heffect, hfirst⟩
  have hkill' : os'.killError pid .sigterm = none := by rw [heffect.os_eq]; exact hkill
  simp only [if_neg hne.2.1, if_neg hne.2.2, if_true, wp_bind, wp_get, wp_printf]
  refine wp_mono signalDaemon_spec fun ret _ _ rest => ?_
  rintro ⟨⟨hret, -⟩ | ⟨-, hrefused⟩, hrest⟩
  · refine ⟨hret, ?_⟩
    simpa using hfirst.append (List.forall_mem_nil _) (List.forall_mem_cons.mpr
      ⟨(by simp [LeavesConfig] : LeavesConfig ⟨.print .stdout _ _, ()⟩), hrest⟩)
  · exact absurd hkill' hrefused

/-- On a `CONFIG_LOAD` without a word every option but `status` returns `errno`. -/
theorem daemonProcess_wordless {pid : Nat} (hstatus : argument argv 1 ≠ key 4)
    (hwordless : Wordless os.fs) (hdenied : os.fs.denied configLoad .w = none) :
    wp (daemonProcess cwd argv pid) g os (fun ret g' _ events =>
      ret = g.errno ∧ g'.configFile = "" ∧
      (∀ path h, (⟨.fopen path .r, .ok h⟩ : Event) ∈ events → path = configLoad) ∧
      ∀ e ∈ events, Quiet e.1) False := by
  simp only [daemonProcess, if_neg hstatus]
  rw [wp_bind]
  refine wp_mono (wp_and_only restoreConfig_quiet (restoreConfig_wordless hwordless hdenied))
    fun r g' os' events => ?_
  rintro ⟨⟨rfl, -, hconfig, hopens⟩, hquiet⟩
  simp only [wp_pure, List.append_nil]
  exact ⟨trivial, hconfig, hopens, hquiet⟩

/-! ## Reading the PID file -/

/-- `parse_options` after its tests on the arguments, as one rule: the PID file is opened, its
number is read, `/proc` is scanned, and a stale file is removed. -/
theorem wp_parseOptions {post : Int → Globals → Os → List Event → Prop} {stuck : Prop}
    (hargc : argv.length = 2 ∨ argv.length = 3) (hhelp : argument argv 1 ≠ key 5) :
    wp (parseOptions cwd argv) g os post stuck ↔
      match os.fs.openRead pidFile with
      | .error e =>
          wp (noDaemonProcess cwd argv) { g with errno := e } os (fun ret g' os' events =>
            post ret g' os' (⟨.fopen pidFile .r, .error e⟩ :: events)) stuck
      | .ok h =>
          match number (os.fs.read h) with
          | none =>
              post g.errno g os [⟨.fopen pidFile .r, .ok h⟩, ⟨.fread h, os.fs.read h⟩,
                ⟨.print .stderr "Error: Failed to read PID-file: %m words read %i\n"
                  [toString (scanU16 (os.fs.read h)).wordsRead], ()⟩]
          | some n =>
              let g := if 2 ^ 64 ≤ n.2 then { g with errno := Errno.erange } else g
              let scanned : List Event := [⟨.fopen pidFile .r, .ok h⟩,
                ⟨.fread h, os.fs.read h⟩, ⟨.readdirProc, os.proc⟩]
              if Alive os.proc (pidExists n) then
                wp (daemonProcess cwd argv (pidExists n)) g os (fun ret g' os' events =>
                  post ret g' os' (scanned ++ events)) stuck
              else
                match os.fs.unlink pidFile with
                | (.ok _, fs) =>
                    wp (noDaemonProcess cwd argv) g { os with fs := fs } (fun ret g' os' events =>
                      post ret g' os' (scanned ++ ⟨.unlink pidFile, .ok ()⟩ :: events)) stuck
                | (.error e, fs) =>
                    post e { g with errno := e } { os with fs := fs }
                      (scanned ++ [⟨.unlink pidFile, .error e⟩,
                        ⟨.print .stderr "Can't remove PID-file: %m\n" [], ()⟩]) := by
  simp only [parseOptions, if_neg (not_not.mpr hargc), if_neg hhelp, wp_bind, wp_fopen_r]
  cases os.fs.openRead pidFile with
  | error e => exact Iff.rfl
  | ok h =>
      simp only [wp_fscanfU16]
      cases hnumber : number (os.fs.read h) with
      | none =>
          have hwords : (scanU16 (os.fs.read h)).wordsRead < 1 := by
            simp only [scanU16, hnumber]
            split <;> decide
          have hrange : (scanU16 (os.fs.read h)).outOfRange = false := by
            simp only [scanU16, hnumber]
          simp only [if_pos hwords, hrange, wp_bind, wp_eprintf, wp_errno]
          exact Iff.rfl
      | some n =>
          have hscan : scanU16 (os.fs.read h) = ⟨1, pidExists n, decide (2 ^ 64 ≤ n.2)⟩ := by
            simp only [scanU16, hnumber, pidExists]
          simp only [hscan, lt_irrefl, if_false, decide_eq_true_eq, wp_bind, wp_readdirProc,
            wp_ite, any_entryNames]
          split
          · exact Iff.rfl
          · simp only [wp_unlink]
            obtain ⟨answer, fs⟩ := os.fs.unlink pidFile
            cases answer with
            | ok done => exact Iff.rfl
            | error e => exact Iff.rfl

theorem recordedPid_of_open {fs : FileSystem} {h : Handle} (hopen : fs.openRead pidFile = .ok h) :
    recordedPid fs = (number (fs.read h)).map denoted := by
  obtain ⟨hpath, hcurrent⟩ := FileSystem.openRead_ok hopen
  simp [recordedPid, File.content, hcurrent, FileSystem.read, hpath]

theorem startsOnlyJustified_iff_wp :
    StartsOnlyJustified cwd argv g os ↔
      wp (parseOptions cwd argv) g os (fun ret g' _ events => ret = 0 →
        StartJustified argv os g'.configFile events) True :=
  wp_true_iff.symm

/-- A run that ends with 0 and no justification refutes `StartsOnlyJustified`. -/
theorem not_startsOnlyJustified (h : wp (parseOptions cwd argv) g os (fun ret g' _ events =>
    ret = 0 ∧ ¬ StartJustified argv os g'.configFile events) False) :
    ¬ StartsOnlyJustified cwd argv g os := by
  obtain ⟨ret, g', os', events, hrun, hzero, hnot⟩ := wp_false_iff.mp h
  exact fun hall => hnot (hall ret g' os' events hrun hzero)

/-- Without a wrong reason, 0 is returned only when a daemon should be started. -/
theorem startsOnlyJustified_of_not_wrongly (hargc : argv.length = 2 ∨ argv.length = 3)
    (hright : ¬ StartsWrongly cwd argv g os) : StartsOnlyJustified cwd argv g os := by
  rw [startsOnlyJustified_iff_wp]
  by_cases hhelp : argument argv 1 = key 5
  · simp only [parseOptions, if_neg (not_not.mpr hargc), if_pos hhelp, wp_bind, help, wp_printf,
      wp_pure]
    exact fun hzero => absurd hzero (by decide)
  rw [wp_parseOptions hargc hhelp]
  cases hopen : os.fs.openRead pidFile with
  | error e =>
      refine wp_mono (wp_stuck (noDaemonProcess_spec hargc)) fun ret g' _ events => ?_
      rintro ⟨hret, hrecorded, -⟩ hzero
      obtain ⟨hoption, hload⟩ := hret.mp hzero
      refine .inl ⟨fun halive => hright ?_, hoption, (hrecorded hzero).2.2.append_left [_]⟩
      exact .overlooked os.fs halive (.inl ⟨⟨e, hopen⟩, rfl⟩) hoption hload
  | ok h =>
      have hrecordedPid := recordedPid_of_open hopen
      dsimp only
      cases hnumber : number (os.fs.read h) with
      | none =>
          intro hzero
          exact absurd (.unreadablePid h hhelp hopen hnumber (by simpa using hzero)) hright
      | some n =>
          simp only [hnumber, Option.map_some] at hrecordedPid
          dsimp only
          split
          · rename_i halive
            have hfound : Found os n := ⟨h, hopen, hnumber, halive⟩
            refine wp_mono (daemonProcess_returns (pidExists n)) fun ret g' _ events => ?_
            intro hdaemon hzero
            rcases hdaemon hzero with
              ⟨hstatus, ⟨hwordless, herrno, hdenied⟩ | ⟨hoption, hrestore, hkill, hmem⟩⟩
            · have hrange : n.2 < 2 ^ 64 := by
                by_contra hle
                rw [if_pos (not_lt.mp hle)] at herrno
                exact Errno.erange.2 herrno
              rw [if_neg (not_le.mpr hrange)] at herrno
              exact absurd (.emptyConfigLoad n hhelp hstatus hfound hwordless hdenied herrno hrange)
                hright
            · by_cases hsame : denoted n = pidExists n
              · refine .inr ⟨hoption, pidExists n, by rw [hrecordedPid, hsame], halive, ?_⟩
                exact List.mem_append_right _ hmem
              · exact absurd (.wrapped n hoption hfound hsame hrestore hkill) hright
          · rename_i hdead
            rcases hunlink : os.fs.unlink pidFile with ⟨answer, fs⟩
            cases answer with
            | error e => exact fun hzero => absurd (by simpa using hzero) e.2
            | ok done =>
                refine wp_mono (wp_stuck (noDaemonProcess_spec hargc)) fun ret g' _ events => ?_
                rintro ⟨hret, hrecorded, -⟩ hzero
                obtain ⟨hoption, hload⟩ := hret.mp hzero
                refine .inl ⟨fun halive => hright ?_, hoption, ?_⟩
                · refine .overlooked fs halive (.inr ⟨h, n, hopen, hnumber, hdead, hunlink⟩)
                    hoption ?_
                  split at hload <;> exact hload
                · exact ((hrecorded hzero).2.2.append_left [_]).append_left _

/-- Calls that neither record a configuration nor send a signal justify no start. -/
theorem not_justified_of_silent {config : Path} {events : List Event}
    (hrecord : ¬ ConfigRecorded config events)
    (hsilent : ∀ e ∈ events, ∀ pid signal, e.1 ≠ .kill pid signal) :
    ¬ StartJustified argv os config events := by
  rintro (⟨-, -, hrecorded⟩ | ⟨-, pid, -, -, hmem⟩)
  · exact hrecord hrecorded
  · exact hsilent _ hmem _ _ rfl

theorem Quiet.not_kill {c : Call} (h : Quiet c) (pid : Int) (signal : Signal) :
    c ≠ .kill pid signal := by
  rintro rfl
  exact h

/-- Every wrong reason leads to a run that returns 0 without justification. -/
theorem not_startsOnlyJustified_of_wrongly (hargc : argv.length = 2 ∨ argv.length = 3)
    (hwrong : StartsWrongly cwd argv g os) : ¬ StartsOnlyJustified cwd argv g os := by
  apply not_startsOnlyJustified
  cases hwrong with
  | unreadablePid h hhelp hopen hnumber herrno =>
      rw [wp_parseOptions hargc hhelp]
      simp only [hopen, hnumber]
      refine ⟨by simp [herrno], not_justified_of_silent ?_ (by simp)⟩
      rintro ⟨-, f, -, hmem⟩
      simp at hmem
  | overlooked fs halive hnotfound hoption hload =>
      have hhelp : argument argv 1 ≠ key 5 := by
        intro heq
        rw [heq] at hoption
        exact absurd hoption (by decide)
      rw [wp_parseOptions hargc hhelp]
      rcases hnotfound with ⟨⟨e, hopen⟩, rfl⟩ | ⟨h, n, hopen, hnumber, hdead, hunlink⟩
      · simp only [hopen]
        refine wp_mono (wp_and_only (noDaemonProcess_quiet cwd argv) (noDaemonProcess_spec hargc))
          fun ret g' _ events => ?_
        rintro ⟨⟨hret, -⟩, hquiet⟩
        refine ⟨hret.mpr ⟨hoption, hload⟩, ?_⟩
        rintro (⟨hdead, -⟩ | ⟨-, pid, -, -, hmem⟩)
        · exact hdead halive
        · rcases List.mem_cons.mp hmem with heq | hmem
          · cases heq
          · exact hquiet _ hmem
      · simp only [hopen, hnumber, if_neg hdead, hunlink]
        refine wp_mono (wp_and_only (noDaemonProcess_quiet cwd argv) (noDaemonProcess_spec hargc))
          fun ret g' _ events => ?_
        rintro ⟨⟨hret, -⟩, hquiet⟩
        refine ⟨hret.mpr ⟨hoption, ?_⟩, ?_⟩
        · split <;> exact hload
        rintro (⟨hdead, -⟩ | ⟨-, pid, -, -, hmem⟩)
        · exact hdead halive
        · simp only [List.mem_append, List.mem_cons, List.not_mem_nil, or_false] at hmem
          rcases hmem with (heq | heq | heq) | heq | hmem
          · cases heq
          · cases heq
          · cases heq
          · cases heq
          · exact hquiet _ hmem
  | emptyConfigLoad n hhelp hstatus hfound hwordless hdenied herrno hrange =>
      obtain ⟨h, hopen, hnumber, halive⟩ := hfound
      rw [wp_parseOptions hargc hhelp]
      simp only [hopen, hnumber, if_pos halive, if_neg (not_le.mpr hrange)]
      refine wp_mono (daemonProcess_wordless hstatus hwordless hdenied) fun ret g' _ events => ?_
      rintro ⟨rfl, hconfig, hopens, hquiet⟩
      refine ⟨by simp [herrno], not_justified_of_silent ?_ ?_⟩
      · rintro ⟨⟨f, hmem⟩, -⟩
        rw [hconfig] at hmem
        simp only [List.mem_append, List.mem_cons, List.not_mem_nil, or_false] at hmem
        rcases hmem with (heq | heq | heq) | hmem
        · exact absurd (Call.fopen.inj (congrArg Sigma.fst heq)).1 (by decide)
        · cases heq
        · cases heq
        · exact absurd (hopens _ _ hmem) (by decide)
      · intro e hmem
        simp only [List.mem_append, List.mem_cons, List.not_mem_nil, or_false] at hmem
        rcases hmem with (rfl | rfl | rfl) | hmem
        · simp
        · simp
        · simp
        · exact (hquiet e hmem).not_kill
  | wrapped n hoption hfound hother hrestorable hkill =>
      obtain ⟨h, hopen, hnumber, halive⟩ := hfound
      have hhelp : argument argv 1 ≠ key 5 := by
        rw [hoption]
        decide
      have hrecordedPid := recordedPid_of_open hopen
      simp only [hnumber, Option.map_some] at hrecordedPid
      rw [wp_parseOptions hargc hhelp]
      simp only [hopen, hnumber, if_pos halive]
      refine wp_mono (wp_and_only (daemonProcess_signalsOnly cwd argv _)
        (daemonProcess_restart hoption hrestorable hkill)) fun ret g' _ events => ?_
      rintro ⟨⟨hzero, hwrites⟩, hsignals⟩
      refine ⟨hzero, ?_⟩
      rintro (⟨-, -, hrecorded⟩ | ⟨-, pid, hpid, -, hmem⟩)
      · have hscanned : ∀ e ∈ ([⟨.fopen pidFile .r, .ok h⟩, ⟨.fread h, os.fs.read h⟩,
            ⟨.readdirProc, os.proc⟩] : List Event), LeavesConfig e := by
          simp [LeavesConfig]
        have hall := hwrites.append hscanned (List.forall_mem_nil _)
        rw [List.append_nil] at hall
        exact hall.not_recorded hrecorded
      · rw [hrecordedPid, Option.some.injEq] at hpid
        simp only [List.mem_append, List.mem_cons, List.not_mem_nil, or_false] at hmem
        rcases hmem with (heq | heq | heq) | hmem
        · cases heq
        · cases heq
        · cases heq
        · exact hother (hpid.trans (hsignals _ hmem))

/-- `parse_options` returns 0 only when a daemon should be started, unless the PID file has no
number or a number that 16 bits do not hold, or `CONFIG_LOAD` has no word. -/
theorem parse_options_starts_only_justified_iff (hargc : argv.length = 2 ∨ argv.length = 3) :
    StartsOnlyJustified cwd argv g os ↔ ¬ StartsWrongly cwd argv g os :=
  ⟨fun h hwrong => not_startsOnlyJustified_of_wrongly hargc hwrong h,
    startsOnlyJustified_of_not_wrongly hargc⟩

/-- The variables when `main` calls `parse_options`. -/
def initialGlobals : Globals := ⟨defaultConfigFile, 0⟩

/-- A system whose PID file exists and is empty, as between its creation and its flush. -/
def emptyPidFile : Os where
  fs := .ofFiles [(pidFile, [])]
  proc := ["1"]
  killError _ _ := some .esrch
  self := 2

theorem emptyPidFile_opens : emptyPidFile.fs.openRead pidFile = .ok ⟨pidFile, 0⟩ := by
  simp [FileSystem.openRead, emptyPidFile, FileSystem.ofFiles, File.holding]

/-- `status` on an empty PID file is such a case. -/
theorem parse_options_status_iff :
    StartsOnlyJustified "/" [package, "status"] initialGlobals emptyPidFile ↔
      ¬ StartsWrongly "/" [package, "status"] initialGlobals emptyPidFile :=
  parse_options_starts_only_justified_iff (by decide)

/-- `status` on an empty PID file returns 0, and `main` starts a daemon. -/
theorem status_starts_daemon : ¬ ∀ cwd argv g os, argv.length = 2 ∨ argv.length = 3 →
    StartsOnlyJustified cwd argv g os := by
  intro hall
  refine not_startsOnlyJustified_of_wrongly (by decide) ?_
    (hall "/" [package, "status"] initialGlobals emptyPidFile (by decide))
  exact .unreadablePid _ (by decide) emptyPidFile_opens (by rfl) rfl

end Robotd
