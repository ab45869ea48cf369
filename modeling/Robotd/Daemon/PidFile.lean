import Robotd.Cli.Verdict
import Robotd.Daemon.Process

/-!
# The PID file, written and read back

`set_pid_file` prints the process id with `%u`; `parse_options` reads it into 16 bits.
`ReadsBack` is what the command line owes the daemon `pid` after that, and
`pid_file_reads_back_iff` says when it holds.
-/

namespace Robotd

open Lib Lib.CLib Cli

variable {os : Os} {pid : Nat}

theorem createPidFile_spec :
    Program.wp Os.respond createPidFile.run os (fun r os' _ => r = .ok () →
      (os'.fs.file pidFile).content = some (decimal os.self ++ ['\n']) ∧
        os'.proc = os.proc ∧ os'.fs.denied = os.fs.denied) True := by
  have hdenied := os.fs.fopen_denied pidFile .w
  simp only [createPidFile, Proc.run_make_bind, Program.wp_call, Os.respond, Os.withFs,
    FileSystem.fopen] at hdenied ⊢
  rcases hopen : os.fs.openWrite pidFile with ⟨answer, fs⟩
  rw [hopen] at hdenied
  cases answer with
  | ok f =>
      simp only [Proc.run_make_bind, Proc.run_make, Program.wp_call, Os.respond, Os.withFs,
        Program.wp_ret]
      exact fun _ => ⟨FileSystem.content_write_opened hopen _, trivial, hdenied⟩
  | error e =>
      simp only [Proc.run_log_bind, Program.wp_call, Os.respond, Proc.run_exit, Program.wp_ret]
      exact fun hr => absurd hr (by decide)

/-- A completed `set_pid_file` leaves a PID file with its own number and changes nothing else that
`parse_options` looks at. -/
theorem setPidFile_spec :
    Program.wp Os.respond setPidFile.run os (fun r os' _ => r = .ok () →
      (os'.fs.file pidFile).content = some (decimal os.self ++ ['\n']) ∧
        os'.proc = os.proc ∧ os'.fs.denied = os.fs.denied) True := by
  simp only [setPidFile, Proc.run_make_bind, Program.wp_call, Os.respond, Os.withFs]
  cases (os.fs.fopen pidFile .r).1 with
  | ok f =>
      simp only [Proc.run_make_bind, Program.wp_call, Os.respond, Os.withFs]
      refine Program.wp_mono createPidFile_spec fun r os' _ h hr => ?_
      simpa using h hr
  | error e =>
      refine Program.wp_mono createPidFile_spec fun r os' _ h hr => ?_
      simpa using h hr

/-! ## What the command line makes of it -/

/-- The command line finds the daemon `pid` alive: `status` reports it, no option signals another
process or removes the PID file, and every option that signals reaches its `kill`. For `load` the
configuration must be there to be loaded. -/
structure ReadsBack (os : Os) (pid : Nat) : Prop where
  status : ∀ cwd argv g, argv.length = 2 ∨ argv.length = 3 → argument argv 1 = key 4 →
    wp (parseOptions cwd argv) g os (fun ret _ _ events => ret = dontDoAnything ∧
      (⟨.print .stdout "%s run. PID: %i\r\n" [package, toString pid], ()⟩ : Event) ∈ events) False
  addressed : ∀ cwd argv g, argv.length = 2 ∨ argv.length = 3 →
    wp (parseOptions cwd argv) g os (fun _ _ _ events => ∀ e ∈ events, SignalsOnly pid e.1) True
  signalled : ∀ cwd argv g signal, argv.length = 2 ∨ argv.length = 3 →
    signalOf (argument argv 1) = some signal → Restorable os.fs →
    (argument argv 1 = key 0 → argv.length = 3 ∧ Worded os.fs ∧
      Loadable os.fs cwd (argument argv 2)) →
    wp (parseOptions cwd argv) g os (fun _ _ _ events =>
      ∃ answer, (⟨.kill pid signal, answer⟩ : Event) ∈ events) False

/-- On a word in `CONFIG_LOAD` the block changes nothing but `CONFIG_FILE`. -/
theorem restoreConfig_worded {g : Globals} (h : Worded os.fs) :
    wp restoreConfig g os (fun r _ os' _ => r = none ∧ os' = os) False := by
  obtain ⟨h, hread, hword, hlength⟩ := h
  simp [restoreConfig, hread, hlength, hword]

/-- Whatever its answer, the signal is sent. -/
theorem signalDaemon_sends {g : Globals} {signal : Signal} {ret : Int} {format : String}
    {args : List String} :
    wp (signalDaemon pid signal ret format args) g os (fun _ _ _ events =>
      ∃ answer, (⟨.kill pid signal, answer⟩ : Event) ∈ events) False := by
  simp only [signalDaemon, wp_bind, wp_kill]
  cases os.killError pid signal <;> simp

/-- Every option that signals the daemon reaches its `kill`. -/
theorem daemonProcess_signalled {cwd : Path} {argv : List String} {g : Globals} {signal : Signal}
    (hsignal : signalOf (argument argv 1) = some signal) (hrestorable : Restorable os.fs)
    (hload : argument argv 1 = key 0 → argv.length = 3 ∧ Worded os.fs ∧
      Loadable os.fs cwd (argument argv 2)) :
    wp (daemonProcess cwd argv pid) g os (fun _ _ _ events =>
      ∃ answer, (⟨.kill pid signal, answer⟩ : Event) ∈ events) False := by
  have hstatus : argument argv 1 ≠ key 4 := by
    intro heq
    have hnone : signalOf (key 4) = none := by decide
    rw [heq, hnone] at hsignal
    cases hsignal
  simp only [daemonProcess, if_neg hstatus]
  rw [wp_bind]
  by_cases hoption : argument argv 1 = key 0
  · obtain ⟨hthree, hworded, hloadable⟩ := hload hoption
    obtain rfl : signal = .sighup := by
      simpa [signalOf, hoption] using hsignal.symm
    refine wp_mono (restoreConfig_worded hworded) fun r g' os' first => ?_
    rintro ⟨rfl, rfl⟩
    simp only [if_pos hoption, if_pos hthree, wp_bind, wp_setConfigFile]
    refine wp_mono (optionLoad_spec cwd) fun ret g'' os'' _ => ?_
    rintro ⟨hret, -⟩
    have hzero : ret = 0 := hret.mpr hloadable
    simp only [hzero, ne_eq, not_true_eq_false, if_false]
    refine wp_mono signalDaemon_sends fun _ _ _ events => ?_
    rintro ⟨answer, hmem⟩
    exact ⟨answer, by simp [hmem]⟩
  · refine wp_mono (restoreConfig_none hrestorable) fun r g' os' first => ?_
    rintro ⟨rfl, -⟩
    simp only [if_neg hoption]
    by_cases hreload : argument argv 1 = key 1
    · obtain rfl : signal = .sighup := by
        simpa [signalOf, hreload] using hsignal.symm
      simp only [if_pos hreload]
      refine wp_mono signalDaemon_sends fun _ _ _ events => ?_
      rintro ⟨answer, hmem⟩
      exact ⟨answer, List.mem_append_right _ hmem⟩
    · simp only [if_neg hreload]
      by_cases hrestart : argument argv 1 = key 2
      · have hne : key 2 ≠ key 0 ∧ key 2 ≠ key 1 := by decide
        obtain rfl : signal = .sigterm := by
          simpa [signalOf, hrestart, hne] using hsignal.symm
        simp only [if_pos hrestart, wp_bind, wp_get, wp_printf]
        refine wp_mono signalDaemon_sends fun _ _ _ events => ?_
        rintro ⟨answer, hmem⟩
        exact ⟨answer, by simp [hmem]⟩
      · have hstop : argument argv 1 = key 3 := by
          by_contra hne
          simp [signalOf, hoption, hreload, hrestart, hne] at hsignal
        have hne : key 3 ≠ key 0 ∧ key 3 ≠ key 1 ∧ key 3 ≠ key 2 := by decide
        obtain rfl : signal = .sigterm := by
          simpa [signalOf, hstop, hne] using hsignal.symm
        simp only [if_neg hrestart, if_pos hstop, wp_bind, wp_kill]
        cases os'.killError pid .sigterm <;> simp

/-- A process id below 65536 is read back. -/
theorem readsBack_of_fits (hpid : pid < 65536) (hlisted : String.ofList (decimal pid) ∈ os.proc)
    (hcontent : (os.fs.file pidFile).content = some (decimal pid ++ ['\n']))
    (hdenied : os.fs.denied pidFile .r = none) : ReadsBack os pid := by
  obtain ⟨f, hopen, htext⟩ := FileSystem.openRead_of_content hdenied hcontent
  have hnumber : number (os.fs.read f) = some (false, pid) := by
    rw [htext]
    exact number_decimal (by simp)
  have hexists : pidExists (false, pid) = pid := by
    rw [pidExists_of_lt (by omega), Nat.mod_eq_of_lt hpid]
  have halive : Alive os.proc pid := alive_of_listed (by omega) hlisted
  refine ⟨fun cwd argv g hargc hoption => ?_, fun cwd argv g hargc => ?_,
    fun cwd argv g signal hargc hsignal hrestorable hload => ?_⟩
  · have hhelp : argument argv 1 ≠ key 5 := by rw [hoption]; decide
    rw [wp_parseOptions hargc hhelp]
    simp [hopen, hnumber, hexists, halive, daemonProcess, hoption]
  · by_cases hhelp : argument argv 1 = key 5
    · simp only [parseOptions, if_neg (not_not.mpr hargc), if_pos hhelp, wp_bind, help, wp_printf,
        wp_pure]
      simp [SignalsOnly]
    · rw [wp_parseOptions hargc hhelp]
      simp only [hopen, hnumber, hexists, if_pos halive]
      refine wp_true_iff.mpr fun ret g' os' events hrun => ?_
      have hevents := (daemonProcess_signalsOnly cwd argv pid _).events hrun
      simpa [SignalsOnly] using hevents
  · have hhelp : argument argv 1 ≠ key 5 := by
      intro heq
      have hnone : signalOf (key 5) = none := by decide
      rw [heq, hnone] at hsignal
      cases hsignal
    rw [wp_parseOptions hargc hhelp]
    simp only [hopen, hnumber, hexists, if_pos halive]
    refine wp_mono (daemonProcess_signalled hsignal hrestorable hload) fun _ _ _ events => ?_
    rintro ⟨answer, hmem⟩
    exact ⟨answer, List.mem_append_right _ hmem⟩

/-- A process that `status` reports is the one in the PID file. -/
theorem fits_of_status (hrange : pid < 2 ^ 31)
    (hcontent : (os.fs.file pidFile).content = some (decimal pid ++ ['\n']))
    (h : wp (parseOptions "/" [package, "status"]) ⟨defaultConfigFile, 0⟩ os
      (fun _ _ _ events =>
        (⟨.print .stdout "%s run. PID: %i\r\n" [package, toString pid], ()⟩ : Event) ∈ events)
      False) : pid < 65536 ∧ os.fs.denied pidFile .r = none := by
  rw [wp_parseOptions (by decide) (by decide)] at h
  cases hdenied : os.fs.denied pidFile .r with
  | some e =>
      have hopen : os.fs.openRead pidFile = .error e := by simp [FileSystem.openRead, hdenied]
      simp [hopen, noDaemonProcess, argument, key, options] at h
  | none =>
      obtain ⟨f, hopen, htext⟩ := FileSystem.openRead_of_content hdenied hcontent
      have hnumber : number (os.fs.read f) = some (false, pid) := by
        rw [htext]
        exact number_decimal (by simp)
      refine ⟨?_, rfl⟩
      by_contra hwide
      have hexists : pidExists (false, pid) = pid % 65536 := pidExists_of_lt (by omega)
      have hother : pid % 65536 ≠ pid := by omega
      simp only [hopen, hnumber, hexists] at h
      split at h
      · simp [daemonProcess, argument, key, options] at h
        exact hother h.symm
      · split at h
        · simp [noDaemonProcess, argument, key, options] at h
        · simp at h

/-- After `set_pid_file` the command line reads its process id back exactly when it is below 65536
and the file can be opened. -/
theorem pid_file_reads_back_iff {os₀ : Os} {events : List Event}
    (hset : setPidFile.run.exec Os.respond os₀ = some (.ok (), os, events))
    (hrange : os₀.self ≤ 4194304) (hlisted : String.ofList (decimal os₀.self) ∈ os₀.proc) :
    ReadsBack os os₀.self ↔ os₀.self < 65536 ∧ os.fs.denied pidFile .r = none := by
  obtain ⟨hcontent, hproc, -⟩ := Program.wp_true_iff.mp setPidFile_spec _ _ _ hset rfl
  constructor
  · intro h
    refine fits_of_status (by omega) hcontent (wp_mono (h.status "/" _ _ (by decide) (by decide)) ?_)
    exact fun _ _ _ _ h => h.2
  · exact fun ⟨hfits, hdenied⟩ => readsBack_of_fits hfits (hproc ▸ hlisted) hcontent hdenied

/-- A system without a PID file in which the daemon has the given process id. -/
def freshSystem (pid : Nat) : Os where
  fs := .ofFiles []
  proc := ["1", String.ofList (decimal pid)]
  killError _ _ := none
  self := pid

theorem freshSystem_setPidFile (pid : Nat) : ∃ os events,
    setPidFile.run.exec Os.respond (freshSystem pid) = some (.ok (), os, events) :=
  ⟨_, _, rfl⟩

/-- The process id 4321 fits and is read back. -/
theorem pid_file_reads_back_4321 : ∃ os events,
    setPidFile.run.exec Os.respond (freshSystem 4321) = some (.ok (), os, events) ∧
      (ReadsBack os 4321 ↔ 4321 < 65536 ∧ os.fs.denied pidFile .r = none) := by
  obtain ⟨os, events, hset⟩ := freshSystem_setPidFile 4321
  exact ⟨os, events, hset, pid_file_reads_back_iff hset (by decide) (by simp [freshSystem])⟩

/-- The process id 70000 is read back as 4464. -/
theorem pid_file_wraps : ¬ ∀ os₀ os events,
    setPidFile.run.exec Os.respond os₀ = some (.ok (), os, events) →
    1 ≤ os₀.self → os₀.self ≤ 4194304 → String.ofList (decimal os₀.self) ∈ os₀.proc →
    ReadsBack os os₀.self := by
  intro hall
  obtain ⟨os, events, hset⟩ := freshSystem_setPidFile 70000
  obtain ⟨hcontent, -⟩ := Program.wp_true_iff.mp setPidFile_spec _ _ _ hset rfl
  have hreads := hall _ os events hset (by decide) (by decide) (by simp [freshSystem])
  have hfits := fits_of_status (by decide) hcontent
    (wp_mono (hreads.status "/" _ _ (by decide) (by decide)) fun _ _ _ _ h => h.2)
  exact absurd hfits.1 (by decide)

end Robotd
