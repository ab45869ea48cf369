import Robotd.Cli.Restore
import Robotd.Cli.Verdict

/-!
# Whether a live daemon can be stopped

`stop` and `reload` only need the process id, but the block on `CONFIG_LOAD` stands before them.
`stop_reload_reach_iff` says for which states of `CONFIG_LOAD` and its directory the signal is
sent.
-/

namespace Robotd

open Lib Lib.CLib Cli

/-- The signals that a run sends, in order. -/
def kills (events : List Event) : List (Int × Signal) :=
  events.filterMap fun e => match e.1 with
    | .kill pid signal => some (pid, signal)
    | _ => none

/-- The command comes to an end and sends this signal to this process exactly once, and no other
signal. -/
def SendsOnce (cwd : Path) (argv : List String) (g : Globals) (os : Os) (pid : Nat)
    (signal : Signal) : Prop :=
  ∃ ret g' os' events, (parseOptions cwd argv).runs g os = some ((ret, g'), os', events) ∧
    kills events = [((pid : Int), signal)]

/-- The PID file can be read and holds this number, which a live process has. -/
structure HoldsLive (os : Os) (pid : Nat) : Prop where
  recorded : ∃ h, os.fs.openRead pidFile = .ok h ∧ number (os.fs.read h) = some (false, pid)
  alive : Alive os.proc pid
  bound : pid < 65536

@[simp] theorem kills_append (first rest : List Event) :
    kills (first ++ rest) = kills first ++ kills rest :=
  List.filterMap_append

/-- Quiet calls send nothing. -/
theorem kills_of_quiet {events : List Event} (h : ∀ e ∈ events, Quiet e.1) : kills events = [] := by
  refine List.filterMap_eq_nil_iff.mpr fun e hmem => ?_
  have hquiet := h e hmem
  split
  · rename_i hcall
    rw [hcall] at hquiet
    exact hquiet.elim
  · rfl

variable {g : Globals} {os : Os} {cwd : Path} {argv : List String} {pid : Nat} {signal : Signal}

theorem sendsOnce_iff_wp : SendsOnce cwd argv g os pid signal ↔
    wp (parseOptions cwd argv) g os (fun _ _ _ events => kills events = [((pid : Int), signal)])
      False :=
  wp_false_iff.symm

/-- `stop` and `reload`, once `CONFIG_LOAD` is restored, send their signal once, whether it can be
delivered or not. -/
theorem runningOption_sends (hoption : argument argv 1 = key 3 ∧ signal = .sigterm ∨
      argument argv 1 = key 1 ∧ signal = .sighup) :
    wp (runningOption cwd argv pid) g os (fun _ _ _ events =>
      kills events = [((pid : Int), signal)]) False := by
  have hstop : key 3 ≠ key 0 ∧ key 3 ≠ key 1 ∧ key 3 ≠ key 2 := by decide
  have hreload : key 1 ≠ key 0 := by decide
  rcases hoption with ⟨hoption, rfl⟩ | ⟨hoption, rfl⟩
  · simp only [runningOption, hoption, if_neg hstop.1, if_neg hstop.2.1, if_neg hstop.2.2, if_true,
      wp_bind, wp_kill]
    cases os.killError pid .sigterm <;> simp [kills]
  · simp only [runningOption, hoption, if_neg hreload, if_true, signalDaemon, wp_bind, wp_kill]
    cases os.killError pid .sighup <;> simp [kills]

/-- With a live daemon the PID file leads to the section for a running daemon. -/
theorem wp_parseOptions_live (cwd : Path) (g : Globals)
    (post : Int → Globals → Os → List Event → Prop) (stuck : Prop)
    (hargc : argv.length = 2 ∨ argv.length = 3) (hhelp : argument argv 1 ≠ key 5)
    (hlive : HoldsLive os pid) :
    ∃ scanned : List Event, (∀ e ∈ scanned, Quiet e.1) ∧
      (wp (parseOptions cwd argv) g os post stuck ↔
        wp (daemonProcess cwd argv pid) g os (fun ret g' os' events =>
          post ret g' os' (scanned ++ events)) stuck) := by
  obtain ⟨h, hopen, hnumber⟩ := hlive.recorded
  have hbound := hlive.bound
  have hpid : pidExists (false, pid) = pid := by
    rw [pidExists_of_lt (by omega)]
    exact Nat.mod_eq_of_lt hbound
  have hle : ¬ 2 ^ 64 ≤ pid := by omega
  refine ⟨[⟨.fopen pidFile .r, .ok h⟩, ⟨.fread h, os.fs.read h⟩, ⟨.readdirProc, os.proc⟩], ?_, ?_⟩
  · intro e hmem
    simp only [List.mem_cons, List.not_mem_nil, or_false] at hmem
    rcases hmem with rfl | rfl | rfl <;> trivial
  · rw [wp_parseOptions hargc hhelp]
    simp only [hopen, hnumber, hpid, if_pos hlive.alive, if_neg hle]

/-- `stop` and `reload` reach a live daemon exactly when `CONFIG_LOAD` can be restored. -/
theorem stop_reload_reach_iff (hargc : argv.length = 2 ∨ argv.length = 3)
    (hoption : argument argv 1 = key 3 ∧ signal = .sigterm ∨
      argument argv 1 = key 1 ∧ signal = .sighup) (hlive : HoldsLive os pid) :
    SendsOnce cwd argv g os pid signal ↔ Restorable os.fs := by
  have hhelp : argument argv 1 ≠ key 5 := by
    rcases hoption with ⟨hoption, -⟩ | ⟨hoption, -⟩ <;> rw [hoption] <;> decide
  have hstatus : argument argv 1 ≠ key 4 := by
    rcases hoption with ⟨hoption, -⟩ | ⟨hoption, -⟩ <;> rw [hoption] <;> decide
  obtain ⟨scanned, hscanned, hrun⟩ := wp_parseOptions_live cwd g
    (fun _ _ _ events => kills events = [((pid : Int), signal)]) False hargc hhelp hlive
  rw [sendsOnce_iff_wp, hrun]
  simp only [kills_append, kills_of_quiet hscanned, List.nil_append]
  constructor
  · intro hsent
    by_contra hrestorable
    by_cases hbroken : Broken os.fs
    · -- the block returns before the signal
      have hquiet := wp_and hsent (wp_stuck (daemonProcess_broken hstatus hbroken))
      obtain ⟨ret, g', os', events, -, hkills, -, -, hevents⟩ := wp_false_iff.mp hquiet
      rw [kills_of_quiet hevents] at hkills
      cases hkills
    · have hnone := wp_and hsent (daemonProcess_lost hstatus hrestorable hbroken)
      obtain ⟨ret, g', os', events, -, -, hno⟩ := wp_false_iff.mp hnone
      exact hno
  · intro hrestorable
    refine daemonProcess_restorable hstatus hrestorable fun g' first _ hfirst => ?_
    simp only [kills_append, kills_of_quiet hfirst, List.nil_append]
    exact runningOption_sends hoption

/-- A system with the daemon 77 and this text in `CONFIG_LOAD`. -/
def daemonWith (config : List Char) : Os where
  fs := .ofFiles [(pidFile, ['7', '7', '\n']), (configLoad, config)]
  proc := ["77"]
  killError _ _ := none
  self := 2

theorem holdsLive_daemonWith (config : List Char) : HoldsLive (daemonWith config) 77 := by
  have halive : Alive ["77"] (77 : Nat) := by decide
  refine ⟨⟨⟨pidFile, 0⟩, ?_, by rfl⟩, halive, by decide⟩
  simp [FileSystem.openRead, daemonWith, FileSystem.ofFiles, File.holding]

theorem openRead_daemonWith (config : List Char) :
    (daemonWith config).fs.openRead configLoad = .ok ⟨configLoad, 0⟩ := by
  have hne : (configLoad == pidFile) = false := by decide
  simp [FileSystem.openRead, daemonWith, FileSystem.ofFiles, File.holding, List.lookup, hne]

/-- With the path in `CONFIG_LOAD` the daemon is stopped. -/
theorem stop_reaches : SendsOnce "/" [package, "stop"] initialGlobals
    (daemonWith (defaultConfigFile.toList ++ ['\n'])) 77 .sigterm := by
  refine (stop_reload_reach_iff (by decide) (by decide) (holdsLive_daemonWith _)).mpr (.inl ?_)
  exact ⟨_, openRead_daemonWith _, by decide +kernel, by decide +kernel⟩

/-- With an empty `CONFIG_LOAD` neither `stop` nor anything else is sent. -/
theorem empty_config_load_no_stop : ¬ ∀ cwd argv g os pid,
    argv.length = 2 ∨ argv.length = 3 → argument argv 1 = key 3 → HoldsLive os pid →
      SendsOnce cwd argv g os pid .sigterm := by
  intro hall
  obtain ⟨ret, g', os', events, hrun, hkills⟩ := hall "/" [package, "stop"] initialGlobals
    (daemonWith []) 77 (by decide) (by decide) (holdsLive_daemonWith _)
  have hnone : ((parseOptions "/" [package, "stop"]).runs initialGlobals (daemonWith [])).map
      (fun out => kills out.2.2) = some [] := by
    decide +kernel
  rw [hrun, Option.map_some, hkills] at hnone
  cases hnone

end Robotd
