import Robotd.Cli.Restore
import Robotd.Cli.Verdict
import Robotd.Daemon.Process

/-!
# What the exit status tells

`parse_options` returns an error number or `WRONG_OPTIONS` for a failure and another small
positive number when there is nothing left to do; `main` only looks at the sign. `Errs` lists the
inputs on which an error is reported, and `exit_tells_iff` says that the exit status tells the
truth on the others only.
-/

namespace Robotd

open Lib Lib.CLib Cli

/-- What `main` returns for a value of `parse_options`; `none` when it goes on to construct the
daemon. -/
def exitStatus (ret : Int) : Option Int :=
  if ret < 0 then some exitFailure else if 0 < ret then some exitSuccess else none

/-- That is how `main` goes on. -/
theorem main_eq (cwd : Path) (argv : List String) : main cwd argv = (do
    let (ret, g) ← ExceptT.lift ((parseOptions cwd argv).run ⟨defaultConfigFile, 0⟩)
    match exitStatus ret with
    | some code => return .exit code
    | none => do
      daemon g.configFile
      monitorProc) := by
  unfold main exitStatus
  refine congrArg _ (funext fun out => ?_)
  obtain ⟨ret, g⟩ := out
  dsimp only
  split
  · rfl
  · split <;> rfl

/-- The exit status tells how `parse_options` ended: after an error that it reported `main` fails,
and when it is done without one and no daemon is to be started `main` succeeds. So the value of an
error is none of the values that mean no error. -/
def ExitTells (cwd : Path) (argv : List String) (g : Globals) (os : Os) : Prop :=
  ∀ ret g' os' events, (parseOptions cwd argv).runs g os = some ((ret, g'), os', events) →
    (Reported events → exitStatus ret = some exitFailure ∧ ret ∉ [0, helpOption, dontDoAnything]) ∧
    (¬ Reported events → ret ≠ 0 → exitStatus ret = some exitSuccess)

/-- Without a daemon the option fails: the configuration cannot be loaded, or there is no such
option. -/
def FailsAlone (fs : FileSystem) (cwd : Path) (argv : List String) (g : Globals) : Prop :=
  (StartsDaemon (argument argv 1) → ¬ Loadable fs cwd (requestedConfig argv g)) ∧
    argument argv 1 ≠ key 3 ∧ argument argv 1 ≠ key 4

/-- With this daemon running and `CONFIG_LOAD` restored it fails: the signal cannot be sent, or
`load` has nothing to load, or there is no such option. -/
def FailsRunning (os : Os) (cwd : Path) (argv : List String) (pid : Nat) : Prop :=
  match signalOf (argument argv 1) with
  | none => True
  | some signal => os.killError pid signal ≠ none ∨ argument argv 1 = key 0 ∧
      ¬ (argv.length = 3 ∧ Loadable (restored os.fs) cwd (argument argv 2))

/-- The inputs on which `parse_options` reports an error. -/
inductive Errs (cwd : Path) (argv : List String) (g : Globals) (os : Os) : Prop where
  | arguments (hargc : ¬ (argv.length = 2 ∨ argv.length = 3))
  | unreadable (h : Handle) (hargc : argv.length = 2 ∨ argv.length = 3)
      (hhelp : argument argv 1 ≠ key 5) (hopen : os.fs.openRead pidFile = .ok h)
      (hnumber : number (os.fs.read h) = none)
  | unremovable (h : Handle) (n : Bool × Nat) (e : Errno) (fs : FileSystem)
      (hargc : argv.length = 2 ∨ argv.length = 3) (hhelp : argument argv 1 ≠ key 5)
      (hopen : os.fs.openRead pidFile = .ok h) (hnumber : number (os.fs.read h) = some n)
      (hdead : ¬ Alive os.proc (pidExists n)) (hunlink : os.fs.unlink pidFile = (.error e, fs))
  | alone (fs : FileSystem) (hargc : argv.length = 2 ∨ argv.length = 3)
      (hhelp : argument argv 1 ≠ key 5) (hnotfound : NotFound os fs)
      (hfails : FailsAlone fs cwd argv g)
  | broken (n : Bool × Nat) (hargc : argv.length = 2 ∨ argv.length = 3)
      (hhelp : argument argv 1 ≠ key 5) (hstatus : argument argv 1 ≠ key 4) (hfound : Found os n)
      (hbroken : Broken os.fs)
  | running (n : Bool × Nat) (hargc : argv.length = 2 ∨ argv.length = 3)
      (hhelp : argument argv 1 ≠ key 5) (hstatus : argument argv 1 ≠ key 4) (hfound : Found os n)
      (hrestorable : Restorable os.fs) (hfails : FailsRunning os cwd argv (pidExists n))

variable {g : Globals} {os : Os} {cwd : Path} {argv : List String} {pid : Nat} {events : List Event}

/-! ## Which functions report -/

theorem not_reported_of_only (h : ∀ e ∈ events, ¬ Complaint e.1) : ¬ Reported events := by
  rintro ⟨e, hmem, hcomplaint⟩
  exact h e hmem hcomplaint

/-- Opening `CONFIG_LOAD` for recording reports exactly when it fails. -/
theorem openConfigLoad_reports :
    wp openConfigLoad g os (fun f _ _ events => Reported events ↔ f = none) True := by
  simp only [openConfigLoad, wp_bind, wp_fopen_w]
  rcases os.fs.openWrite configLoad with ⟨answer, fs⟩
  cases answer with
  | ok h => simp
  | error e =>
      simp only [wp_get, wp_ite, wp_bind]
      split
      · refine wp_mono (wp_and_only makeRunConfDir_silent (wp_stuck makeRunConfDir_spec))
          fun made g' os' events => ?_
        rintro ⟨-, hsilent⟩
        have hno := not_reported_of_only hsilent
        cases made with
        | false => simp
        | true =>
            simp only [if_true, wp_bind, wp_fopen_w]
            rcases os'.fs.openWrite configLoad with ⟨answer, fs⟩
            cases answer <;> simp [hno]
      · simp

theorem recordConfig_reports :
    wp recordConfig g os (fun ret _ _ events => 0 ≤ ret ∧ (Reported events ↔ ret ≠ 0)) False := by
  simp only [recordConfig, wp_bind]
  refine wp_mono (wp_and openConfigLoad_spec openConfigLoad_reports) fun f g' os' events => ?_
  rintro ⟨⟨-, herrno, -⟩, hreported⟩
  cases f with
  | none =>
      have hne := herrno rfl
      simp only [wp_errno, List.append_nil, hreported]
      exact ⟨Int.natCast_nonneg _, by simp [hne]⟩
  | some h => simp [hreported]

theorem optionLoad_reports :
    wp (optionLoad cwd) g os (fun ret _ _ events => 0 ≤ ret ∧ (Reported events ↔ ret ≠ 0)) False := by
  simp only [optionLoad, wp_bind, wp_get, wp_fopen_r]
  cases os.fs.openRead (cwd ++ "/" ++ g.configFile) with
  | ok h =>
      simp only [wp_setConfigFile]
      refine wp_mono recordConfig_reports fun ret g' os' events => ?_
      simp
  | error e =>
      simp only [wp_setConfigFile]
      cases os.fs.openRead (etcConfDir ++ "/" ++ g.configFile) with
      | ok h =>
          refine wp_mono recordConfig_reports fun ret g' os' events => ?_
          simp
      | error e' => simp [e'.2]

theorem signalDaemon_reports {signal : Signal} {ret : Int} {format : String} {args : List String}
    (hret : 0 ≤ ret) : wp (signalDaemon pid signal ret format args) g os (fun r _ _ events =>
      0 ≤ r ∧ (Reported events ↔ os.killError pid signal ≠ none)) False := by
  simp only [signalDaemon, wp_bind, wp_kill]
  cases os.killError pid signal with
  | none => simp [hret]
  | some e => simp

/-- The other messages are not complaints. -/
theorem not_complaint_done {args : List String} :
    ¬ Complaint (.print .stdout "%s stopped\r\n" args) ∧
      ¬ Complaint (.print .stdout "%s run. PID: %i\r\n" args) ∧
      ¬ Complaint (.print .stdout "%s stopped: %i\n" args) ∧
      ¬ Complaint (.print .stdout "Current config: %s\n" args) := by
  have hformats : "%s stopped\r\n" ∉ usages ∧ "%s run. PID: %i\r\n" ∉ usages ∧
      "%s stopped: %i\n" ∉ usages ∧ "Current config: %s\n" ∉ usages := by
    decide +kernel
  exact hformats

theorem complaint_usage {args : List String} :
    Complaint (.print .stdout shortHelp args) ∧
      Complaint (.print .stdout "Usage: %s load [filename.cfg]\r\n" args) ∧
      Complaint (.print .stdout "Usage: %s load [filename.cfg]\n" args) := by
  simp [Complaint, usages]

theorem falseParameters_reports :
    wp falseParameters g os (fun _ _ _ events => Reported events) False := by
  have hcomplaint : Complaint (.print .stdout shortHelp [packageString, package]) :=
    complaint_usage.1
  exact ⟨_, List.mem_singleton.mpr rfl, hcomplaint⟩

/-- Without a daemon an error is reported exactly when the option fails. -/
theorem noDaemonProcess_reports (hargc : argv.length = 2 ∨ argv.length = 3) :
    wp (noDaemonProcess cwd argv) g os (fun ret _ _ events =>
      0 ≤ ret ∧ (Reported events ↔ FailsAlone os.fs cwd argv g)) False := by
  simp only [noDaemonProcess, wp_ite, FailsAlone]
  split
  · rename_i hstop
    simp [hstop, dontDoAnything]
  · rename_i hstop
    split
    · rename_i hstatus
      simp [hstatus, dontDoAnything, not_complaint_done.1]
    · rename_i hstatus
      split
      · rename_i hoption
        have hstarts : StartsDaemon (argument argv 1) := hoption
        have hloads {ret : Int} {events : List Event} {config : Path}
            (hzero : ret = 0 ↔ Loadable os.fs cwd config)
            (hreported : Reported events ↔ ret ≠ 0) :
            Reported events ↔ (StartsDaemon (argument argv 1) → ¬ Loadable os.fs cwd config) ∧
              argument argv 1 ≠ key 3 ∧ argument argv 1 ≠ key 4 := by
          rw [hreported, ← hzero]
          exact ⟨fun hne => ⟨fun _ => hne, hstop, hstatus⟩, fun h => h.1 hstarts⟩
        by_cases hthree : argv.length = 3
        · simp only [hthree, if_true, requestedConfig, wp_bind, wp_setConfigFile]
          refine wp_mono (wp_and (optionLoad_spec cwd) (wp_stuck optionLoad_reports))
            fun ret g' os' events => ?_
          rintro ⟨⟨hzero, -⟩, hret, hreported⟩
          exact ⟨hret, hloads hzero hreported⟩
        · have htwo : argv.length = 2 := hargc.resolve_right hthree
          simp only [if_neg hthree, if_pos htwo, requestedConfig]
          refine wp_mono (wp_and (optionLoad_spec cwd) (wp_stuck optionLoad_reports))
            fun ret g' os' events => ?_
          rintro ⟨⟨hzero, -⟩, hret, hreported⟩
          exact ⟨hret, hloads hzero hreported⟩
      · rename_i hoption
        have hno : ¬ StartsDaemon (argument argv 1) := hoption
        simp only [wp_bind, wp_printf]
        refine wp_mono falseParameters_reports fun _ g' os' events hreported => ?_
        simp [hreported, hno, hstop, hstatus, wrongOptions]

/-- With a daemon running and `CONFIG_LOAD` restored as well. -/
theorem runningOption_reports {os₀ : Os} (hos : os = { os₀ with fs := restored os₀.fs }) :
    wp (runningOption cwd argv pid) g os (fun ret _ _ events =>
      0 ≤ ret ∧ (Reported events ↔ FailsRunning os₀ cwd argv pid)) False := by
  have hkill : os.killError = os₀.killError := by rw [hos]
  have hfs : os.fs = restored os₀.fs := by rw [hos]
  have hkeys : key 1 ≠ key 0 ∧ key 2 ≠ key 0 ∧ key 2 ≠ key 1 ∧ key 3 ≠ key 0 ∧ key 3 ≠ key 1 ∧
    key 3 ≠ key 2 := by decide
  simp only [runningOption, wp_ite, FailsRunning, signalOf]
  by_cases hload : argument argv 1 = key 0
  · simp only [hload, true_or, if_true, true_and]
    by_cases hthree : argv.length = 3
    · simp only [hthree, if_true, wp_bind, wp_setConfigFile, true_and]
      refine wp_mono (wp_and (optionLoad_spec cwd) (wp_stuck optionLoad_reports))
        fun ret g' os' first => ?_
      rintro ⟨⟨hzero, -, heffect⟩, hret, hreported⟩
      rw [hfs] at hzero
      simp only [wp_ite]
      split
      · rename_i hne
        simp only [wp_pure, List.append_nil, List.nil_append]
        exact ⟨hret, iff_of_true (hreported.mpr hne) (.inr fun hloadable => hne (hzero.mpr hloadable))⟩
      · rename_i hne
        rw [not_not] at hne
        refine wp_mono (signalDaemon_reports (by decide)) fun r g'' os'' rest => ?_
        rintro ⟨hr, hsent⟩
        have hno : ¬ Reported first := fun hyes => hreported.mp hyes hne
        have hsame : os'.killError = os₀.killError := by rw [heffect.os_eq, ← hkill]
        simp [hr, hsent, hno, hsame, hzero.mp hne]
    · simp [hthree, complaint_usage.2.2, wrongOptions]
  · by_cases hreload : argument argv 1 = key 1
    · simp only [hreload, if_true, hkeys.1, false_or, if_false, false_and, or_false]
      refine wp_mono (signalDaemon_reports (by decide)) fun r g'' os'' rest => ?_
      rintro ⟨hr, hsent⟩
      exact ⟨hr, by rw [hsent, hkill]⟩
    · by_cases hrestart : argument argv 1 = key 2
      · simp only [hrestart, hkeys.2.1, hkeys.2.2.1, if_false, if_true, or_false, true_or, false_and,
          wp_bind, wp_get, wp_printf]
        refine wp_mono (signalDaemon_reports (le_refl 0)) fun r g'' os'' rest => ?_
        rintro ⟨hr, hsent⟩
        simp [hr, hsent, hkill, not_complaint_done.2.2.2]
      · by_cases hstop : argument argv 1 = key 3
        · simp only [hstop, hkeys.2.2.2, if_false, if_true, or_false, or_true, false_and, wp_bind,
            wp_kill, hkill]
          cases os₀.killError pid .sigterm with
          | none => simp [not_complaint_done.2.2.1, dontDoAnything]
          | some e => simp
        · simp only [hload, hreload, hrestart, hstop, or_self, if_false, wp_bind, wp_printf]
          refine wp_mono falseParameters_reports fun _ g' os' events hreported => ?_
          simp [hreported, wrongOptions]

/-! ## The inputs on which an error is reported -/

/-- `parse_options` runs into undefined behaviour in the block on `CONFIG_LOAD`. -/
def Lost (argv : List String) (os : Os) : Prop :=
  (argv.length = 2 ∨ argv.length = 3) ∧ argument argv 1 ≠ key 5 ∧ argument argv 1 ≠ key 4 ∧
    (∃ n, Found os n) ∧ ¬ Restorable os.fs ∧ ¬ Broken os.fs

section Inputs

variable {h : Handle} {n : Bool × Nat} {e : Errno} {fs : FileSystem}

theorem Found.eq {m : Bool × Nat} (hfound : Found os m) (hopen : os.fs.openRead pidFile = .ok h)
    (hnumber : number (os.fs.read h) = some n) : m = n ∧ Alive os.proc (pidExists n) := by
  obtain ⟨h', hopen', hnumber', halive⟩ := hfound
  cases hopen.symm.trans hopen'
  cases hnumber.symm.trans hnumber'
  exact ⟨rfl, halive⟩

/-- A PID file that cannot be opened. -/
theorem errs_iff_closed (hargc : argv.length = 2 ∨ argv.length = 3)
    (hhelp : argument argv 1 ≠ key 5) (hopen : os.fs.openRead pidFile = .error e) :
    Errs cwd argv g os ↔ FailsAlone os.fs cwd argv g := by
  constructor
  · intro herrs
    cases herrs with
    | arguments hno => exact absurd hargc hno
    | unreadable h _ _ hopen' => cases hopen.symm.trans hopen'
    | unremovable h n e' fs _ _ hopen' => cases hopen.symm.trans hopen'
    | alone fs _ _ hnotfound hfails =>
        rcases hnotfound with ⟨-, rfl⟩ | ⟨h, n, hopen', -⟩
        · exact hfails
        · cases hopen.symm.trans hopen'
    | broken n _ _ _ hfound =>
        obtain ⟨h, hopen', -⟩ := hfound
        cases hopen.symm.trans hopen'
    | running n _ _ _ hfound =>
        obtain ⟨h, hopen', -⟩ := hfound
        cases hopen.symm.trans hopen'
  · exact fun hfails => .alone os.fs hargc hhelp (.inl ⟨⟨e, hopen⟩, rfl⟩) hfails

/-- A stale PID file that is removed. -/
theorem errs_iff_stale (hargc : argv.length = 2 ∨ argv.length = 3)
    (hhelp : argument argv 1 ≠ key 5) (hopen : os.fs.openRead pidFile = .ok h)
    (hnumber : number (os.fs.read h) = some n) (hdead : ¬ Alive os.proc (pidExists n))
    (hunlink : os.fs.unlink pidFile = (.ok (), fs)) :
    Errs cwd argv g os ↔ FailsAlone fs cwd argv g := by
  constructor
  · intro herrs
    cases herrs with
    | arguments hno => exact absurd hargc hno
    | unreadable h' _ _ hopen' hnone =>
        cases hopen.symm.trans hopen'
        cases hnumber.symm.trans hnone
    | unremovable h' n' e' fs' _ _ _ _ _ hunlink' => cases hunlink.symm.trans hunlink'
    | alone fs' _ _ hnotfound hfails =>
        rcases hnotfound with ⟨⟨e', hopen'⟩, -⟩ | ⟨h', n', -, -, -, hunlink'⟩
        · cases hopen.symm.trans hopen'
        · cases hunlink.symm.trans hunlink'
          exact hfails
    | broken n' _ _ _ hfound => exact absurd (hfound.eq hopen hnumber).2 hdead
    | running n' _ _ _ hfound => exact absurd (hfound.eq hopen hnumber).2 hdead
  · intro hfails
    exact .alone fs hargc hhelp (.inr ⟨h, n, hopen, hnumber, hdead, hunlink⟩) hfails

/-- A daemon that is found. -/
theorem errs_iff_found (hargc : argv.length = 2 ∨ argv.length = 3)
    (hhelp : argument argv 1 ≠ key 5) (hopen : os.fs.openRead pidFile = .ok h)
    (hnumber : number (os.fs.read h) = some n) (halive : Alive os.proc (pidExists n)) :
    Errs cwd argv g os ↔ argument argv 1 ≠ key 4 ∧
      (Broken os.fs ∨ Restorable os.fs ∧ FailsRunning os cwd argv (pidExists n)) := by
  constructor
  · intro herrs
    cases herrs with
    | arguments hno => exact absurd hargc hno
    | unreadable h' _ _ hopen' hnone =>
        cases hopen.symm.trans hopen'
        cases hnumber.symm.trans hnone
    | unremovable h' n' e' fs' _ _ hopen' hnumber' hdead =>
        cases hopen.symm.trans hopen'
        cases hnumber.symm.trans hnumber'
        exact absurd halive hdead
    | alone fs' _ _ hnotfound =>
        rcases hnotfound with ⟨⟨e', hopen'⟩, -⟩ | ⟨h', n', hopen', hnumber', hdead, -⟩
        · cases hopen.symm.trans hopen'
        · cases hopen.symm.trans hopen'
          cases hnumber.symm.trans hnumber'
          exact absurd halive hdead
    | broken n' _ _ hstatus _ hbroken => exact ⟨hstatus, .inl hbroken⟩
    | running n' _ _ hstatus hfound hrestorable hfails =>
        obtain ⟨rfl, -⟩ := hfound.eq hopen hnumber
        exact ⟨hstatus, .inr ⟨hrestorable, hfails⟩⟩
  · intro hcases
    have hfound : Found os n := ⟨h, hopen, hnumber, halive⟩
    rcases hcases with ⟨hstatus, hbroken | ⟨hrestorable, hfails⟩⟩
    · exact .broken n hargc hhelp hstatus hfound hbroken
    · exact .running n hargc hhelp hstatus hfound hrestorable hfails

/-- An input on which an error is reported is not lost. -/
theorem Errs.not_lost (herrs : Errs cwd argv g os) : ¬ Lost argv os := by
  intro hlost
  obtain ⟨hargc, hhelp, -, ⟨n, h, hopen, hnumber, halive⟩, hrestorable, hbroken⟩ := hlost
  rcases ((errs_iff_found hargc hhelp hopen hnumber halive).mp herrs).2 with hyes | ⟨hyes, -⟩
  · exact hbroken hyes
  · exact hrestorable hyes

end Inputs

/-- The help is no complaint. -/
theorem help_silent : wp help g os (fun _ _ _ events => ¬ Reported events) False := by
  have hformat : (String.join
      ["%s - cross-platform UNIX daemonized server.\r\n",
        "This program can be used for development your own daemon.\r\n",
        "This is free software: you are free to change and redistribute it.\r\n",
        "There is NO WARRANTY, to the extent permitted by law.\r\n",
        "Usage: %s <option>\r\n\r\n",
        "Options:\r\n",
        "\thelp                  show this message\r\n",
        "\tload [filename.cfg]   run daemon with configuration loaded from filename.cfg.\r\n",
        "\t                      Note: It can be only one copy of the daemon run in the system.\r\n",
        "\treload                reload configuration file without stopping daemon.\r\n",
        "\tstop                  terminate daemon.\r\n",
        "\trestart               restart daemon with the same configuration.\r\n",
        "\tstatus                show status of the daemon. If daemon is run you will see its PID.\r\n"])
      ∉ usages := by
    decide +kernel
  rw [help, wp_printf, reported_cons]
  simp only [reported_nil, or_false]
  exact hformat

/-- `parse_options` reports an error exactly on these inputs, and never returns a negative
number. -/
theorem parseOptions_reports {stuck : Prop} (hlost : Lost argv os → stuck) :
    wp (parseOptions cwd argv) g os (fun ret _ _ events =>
      0 ≤ ret ∧ (Reported events ↔ Errs cwd argv g os)) stuck := by
  by_cases hargc : argv.length = 2 ∨ argv.length = 3
  swap
  · simp only [parseOptions, if_pos hargc, wp_bind]
    refine wp_mono (wp_stuck falseParameters_reports) fun _ g' os' events hreported => ?_
    simp only [wp_pure, List.append_nil]
    exact ⟨by decide, iff_of_true hreported (.arguments hargc)⟩
  by_cases hhelp : argument argv 1 = key 5
  · simp only [parseOptions, if_neg (not_not.mpr hargc), if_pos hhelp, wp_bind]
    refine wp_mono (wp_stuck help_silent) fun _ g' os' events hsilent => ?_
    simp only [wp_pure, List.append_nil]
    refine ⟨by decide, iff_of_false hsilent fun herrs => ?_⟩
    cases herrs with
    | arguments hno => exact hno hargc
    | unreadable _ _ hno | unremovable _ _ _ _ _ hno | alone _ _ hno | broken _ _ hno
      | running _ _ hno => exact hno hhelp
  rw [wp_parseOptions hargc hhelp]
  cases hopen : os.fs.openRead pidFile with
  | error e =>
      refine wp_mono (wp_stuck (noDaemonProcess_reports hargc)) fun ret g' os' events => ?_
      rintro ⟨hret, hreported⟩
      rw [reported_cons, errs_iff_closed hargc hhelp hopen]
      simp only [complaint_fopen, false_or]
      exact ⟨hret, hreported⟩
  | ok h =>
      dsimp only
      cases hnumber : number (os.fs.read h) with
      | none =>
          refine ⟨Int.natCast_nonneg _, iff_of_true ?_ (.unreadable h hargc hhelp hopen hnumber)⟩
          simp
      | some n =>
          dsimp only
          split
          · rename_i halive
            rw [errs_iff_found hargc hhelp hopen hnumber halive]
            by_cases hstatus : argument argv 1 = key 4
            · simp [daemonProcess, hstatus, dontDoAnything, not_complaint_done.2.1]
            · by_cases hbroken : Broken os.fs
              · refine wp_mono (wp_stuck (daemonProcess_broken hstatus hbroken))
                  fun ret g' os' events => ?_
                rintro ⟨hret, hreported, -⟩
                simp [hret, hreported, hstatus, hbroken]
              · by_cases hrestorable : Restorable os.fs
                · refine daemonProcess_restorable hstatus hrestorable fun g' first hsilent _ => ?_
                  refine wp_mono (wp_stuck (runningOption_reports rfl)) fun ret g'' os'' rest => ?_
                  rintro ⟨hret, hreported⟩
                  simp [hret, hreported, hsilent, hstatus, hbroken, hrestorable]
                -- the block neither restores nor reports: the behaviour is undefined
                · have hstuck : stuck := hlost ⟨hargc, hhelp, hstatus, ⟨n, h, hopen, hnumber, halive⟩,
                    hrestorable, hbroken⟩
                  rw [eq_true hstuck]
                  exact wp_mono (daemonProcess_lost hstatus hrestorable hbroken)
                    fun _ _ _ _ hno => hno.elim
          · rename_i hdead
            rcases hunlink : os.fs.unlink pidFile with ⟨answer, fs⟩
            cases answer with
            | error e =>
                refine ⟨Int.natCast_nonneg _, iff_of_true ?_
                  (.unremovable h n e fs hargc hhelp hopen hnumber hdead hunlink)⟩
                simp
            | ok done =>
                refine wp_mono (wp_stuck (noDaemonProcess_reports hargc)) fun ret g' os' events => ?_
                rintro ⟨hret, hreported⟩
                rw [errs_iff_stale hargc hhelp hopen hnumber hdead hunlink]
                refine ⟨hret, ?_⟩
                simp only [reported_append, reported_cons, reported_nil, complaint_fopen,
                  complaint_fread, complaint_readdirProc, complaint_unlink, false_or, hreported]
                split <;> exact Iff.rfl

/-- After an error that is reported the exit status does not tell of it. -/
theorem not_exitTells (herrs : Errs cwd argv g os) : ¬ ExitTells cwd argv g os := by
  intro htells
  have hlost : Lost argv os → False := herrs.not_lost
  obtain ⟨ret, g', os', events, hrun, hret, hreported⟩ :=
    wp_false_iff.mp (parseOptions_reports (g := g) hlost)
  have hfails := ((htells ret g' os' events hrun).1 (hreported.mpr herrs)).1
  rw [exitStatus, if_neg (not_lt.mpr hret)] at hfails
  split at hfails
  · cases hfails
  · cases hfails

/-- The exit status tells the truth exactly on the inputs on which no error is reported. -/
theorem exit_tells_iff (cwd : Path) (argv : List String) (g : Globals) (os : Os) :
    ExitTells cwd argv g os ↔ ¬ Errs cwd argv g os := by
  constructor
  · exact fun htells herrs => not_exitTells herrs htells
  · intro hno ret g' os' events hrun
    have hpost := wp_true_iff.mp (parseOptions_reports (g := g) fun _ => trivial)
      ret g' os' events hrun
    refine ⟨fun hreported => absurd (hpost.2.mp hreported) hno, fun _ hne => ?_⟩
    have hpos : 0 < ret := lt_of_le_of_ne hpost.1 hne.symm
    rw [exitStatus, if_neg (not_lt.mpr hpost.1), if_pos hpos]

/-- Without an option `main` prints how it is used and succeeds. -/
theorem wrong_options_succeed : ¬ ∀ cwd argv g os, ExitTells cwd argv g os := by
  intro hall
  have herrs : Errs "/" [package] initialGlobals emptyPidFile := .arguments (by decide)
  exact not_exitTells herrs (hall "/" [package] initialGlobals emptyPidFile)

end Robotd
