import Robotd.Loader.Fresh

/-!
# The first start with a file that cannot be loaded

In a new process the log comes into being late in `daemon_load_config`. The loader asks
`log_to_file` before it writes to the log; the constructor of `daemon` does not.
`first_start_clean_iff` says for which files it ends the process with a message all the same.
-/

namespace Robotd

open Lib Lib.CLib Load

/-- The constructor of `daemon` as far as `daemonize`, in a build with or without `TRACE`; a
return is its `exit`. -/
def constructDaemon (trace : Bool) (env : Environment) (configFile config : Path) : Load Unit := do
  let code ← call (daemonLoadConfig env configFile config)
  if trace = true then logMessage .trace "daemon_load_config returned {}" [toString code]
  if code ≠ 0 then
    logMessage .err "Some errors was found in slave sections of the config file" []
    ret code
  else if trace = true then logMessage .trace "Slave configs loaded" []

/-- In a new process the constructor does not touch a missing log, and when the file is not
loaded it exits with -1, the value that a check in `daemon_load_config` returns after it has told
the console what failed. -/
def FailsCleanly (trace : Bool) (env : Environment) (configFile config : Path) : Prop :=
  (constructDaemon trace env configFile config).run Loader.initial ≠ .thrown .nullLogger ∧
    ((∀ s, (daemonLoadConfig env configFile config).run Loader.initial ≠ .returned 0 s) →
      ∃ s, (constructDaemon trace env configFile config).run Loader.initial = .returned (-1) s)

/-- The file is loaded as far as the options of the slave: all options of the section `Daemon` are
accepted, the new log can be opened, and there is a section for the slave. -/
def ReachesSlave (env : Environment) (config : Path) : Prop :=
  ∃ settings v lev logsize ram, Levelled env 1 config Loader.initial settings v lev ∧
    logSize env v = .bytes logsize ∧ ramUse env v = .bytes ram ∧
    env.opensSink (logName env v ++ ".log") = true ∧ settings.member "TCPServer" ≠ none

variable {trace : Bool} {env : Environment} {configFile config : Path} {s : Loader} {α : Type}

/-- Before there is a log a failed check speaks to the console and returns -1. -/
theorem meets_reject_console {format : String} {args : List String} {next : α → Loader → Prop}
    {returned : Int → Loader → Prop} {throws : Prop} (hfile : s.logToFile = false)
    (h : returned (-1) s) : (reject format args : Load α).Meets s next returned throws := by
  rw [reject, meets_bind, meets_get]
  refine meets_ite (fun hyes => ?_) fun _ => h
  rw [hfile] at hyes
  exact absurd hyes (by decide)

/-- A load that reaches the slave returns 0 or -1 and leaves a log. -/
theorem load_of_reachesSlave (configFile : Path) (h : ReachesSlave env config) :
    ∃ code s logger, (daemonLoadConfig env configFile config).run Loader.initial =
      .returned code s ∧ (code = 0 ∨ code = -1) ∧ s.log = some logger := by
  obtain ⟨settings, v, lev, logsize, ram, hlevelled, hsize, hram, hsink, hserver⟩ := h
  have hmeets : (daemonLoadConfigOf env [tcpServer env] configFile config).Meets Loader.initial
      (fun _ _ => False) (fun code s => (code = 0 ∨ code = -1) ∧ ∃ logger, s.log = some logger)
      False := by
    refine meets_daemonLoadConfigOf (by decide) (fun settings' hread hnone => ?_)
      (fun hno => absurd hlevelled (hno settings v lev)) ?_ ?_
    · rw [hlevelled.read] at hread
      cases hread
      rw [hlevelled.daemonSection] at hnone
      cases hnone
    · intro settings' v' lev' h hno
      obtain ⟨rfl, rfl, rfl⟩ := hlevelled.unique h
      rcases hno with hno | hno
      · exact absurd hsize (hno _)
      · exact absurd hram (hno _)
    · intro settings' v' lev' logsize' ram' sizeS loglevel h _ _
      obtain ⟨rfl, rfl, rfl⟩ := hlevelled.unique h
      refine meets_finishLoadOf (fun hno => hno hsink) fun _ => ?_
      refine meets_tcpServer_reject (fun hnone => hserver hnone) (fun _ _ _ _ => ?_) fun _ _ _ _ _ => ?_
      · exact ⟨rfl, .inl rfl, _, rfl⟩
      · exact meets_reject_console rfl ⟨rfl, .inr rfl, _, rfl⟩
  obtain ⟨code, s, hrun, hcode, logger, hlog⟩ := hmeets.returns
  exact ⟨code, s, logger, hrun, hcode, hlog⟩

/-- Any other load throws, or returns an error and leaves no log. -/
theorem load_of_not_reachesSlave (configFile : Path) (h : ¬ ReachesSlave env config) :
    (∃ e, (daemonLoadConfig env configFile config).run Loader.initial = .thrown e) ∨
      ∃ code s, (daemonLoadConfig env configFile config).run Loader.initial = .returned code s ∧
        code ≠ 0 ∧ s.log = none := by
  have hmeets : (daemonLoadConfigOf env [tcpServer env] configFile config).Meets Loader.initial
      (fun _ _ => False) (fun code s => code ≠ 0 ∧ s.log = none) True := by
    refine meets_daemonLoadConfigOf (fun _ _ => trivial) (fun _ _ _ => trivial)
      (fun _ => ⟨rfl, fun _ _ hcode => ⟨hcode, rfl⟩⟩)
      (fun _ _ _ _ _ => ⟨rfl, fun _ _ _ hcode => ⟨hcode, rfl⟩⟩) ?_
    intro settings v lev logsize ram sizeS loglevel hlevelled hsize hram
    refine meets_finishLoadOf (fun _ => trivial) fun hsink => ?_
    have hno : ∀ server, settings.member "TCPServer" ≠ some server := by
      intro server hserver
      refine h ⟨settings, v, lev, logsize, ram, hlevelled, hsize, hram, hsink, ?_⟩
      exact ne_of_eq_of_ne hserver (Option.some_ne_none server)
    refine meets_tcpServer_reject (fun _ => trivial) (fun server hserver => absurd hserver (hno server))
      fun server hserver => absurd hserver (hno server)
  rw [daemonLoadConfigOf_tcpServer] at hmeets
  unfold Meets at hmeets
  split at hmeets
  · exact hmeets.elim
  · rename_i code s hrun
    exact .inr ⟨code, s, hrun, hmeets⟩
  · rename_i e hrun
    exact .inl ⟨e, hrun⟩

/-! ## The constructor -/

theorem constructDaemon_thrown {e : Thrown}
    (hrun : (daemonLoadConfig env configFile config).run Loader.initial = .thrown e) :
    (constructDaemon trace env configFile config).run Loader.initial = .thrown e := by
  rw [constructDaemon]
  exact bind_thrown (call_thrown hrun)

/-- An error without a log makes it follow a null pointer. -/
theorem constructDaemon_none {code : Int}
    (hrun : (daemonLoadConfig env configFile config).run Loader.initial = .returned code s)
    (hcode : code ≠ 0) (hlog : s.log = none) :
    (constructDaemon trace env configFile config).run Loader.initial = .thrown .nullLogger := by
  have hmessage (level : Level) (format : String) (args : List String) :
      (logMessage level format args).run s = .thrown .nullLogger := by
    rw [logMessage, run_get_bind, hlog, run_throw]
  rw [constructDaemon, bind_next (call_returned hrun)]
  cases trace with
  | true => exact bind_thrown (hmessage _ _ _)
  | false =>
      simp only [Bool.false_eq_true, if_false, if_pos hcode]
      exact bind_thrown (hmessage _ _ _)

/-- With a log it goes on after 0, and exits with any other value. -/
theorem constructDaemon_some (trace : Bool) {code : Int} {logger : Logger}
    (hrun : (daemonLoadConfig env configFile config).run Loader.initial = .returned code s)
    (hlog : s.log = some logger) :
    (constructDaemon trace env configFile config).run Loader.initial =
      if code ≠ 0 then .returned code s else .next () s := by
  have hmessage {level : Level} {format : String} {args : List String}
      (hargs : placeholders format.toList ≤ args.length) :
      (logMessage level format args).run s = .next () s := logMessage_fits hlog hargs
  rw [constructDaemon, bind_next (call_returned hrun)]
  by_cases hcode : code ≠ 0
  · simp only [if_pos hcode]
    cases trace with
    | true =>
        rw [if_pos rfl, bind_next (hmessage (Nat.le_of_ble_eq_true rfl)),
          bind_next (hmessage (Nat.le_of_ble_eq_true rfl)), run_ret]
    | false =>
        simp only [Bool.false_eq_true, if_false]
        rw [bind_next (hmessage (Nat.le_of_ble_eq_true rfl)), run_ret]
  · simp only [if_neg hcode]
    cases trace with
    | true =>
        rw [if_pos rfl, bind_next (hmessage (Nat.le_of_ble_eq_true rfl)), if_pos rfl]
        exact hmessage (Nat.le_of_ble_eq_true rfl)
    | false => rfl

/-- A first start fails cleanly exactly when the file gets as far as the slave. -/
theorem first_start_clean_iff (trace : Bool) (env : Environment) (configFile config : Path) :
    FailsCleanly trace env configFile config ↔ ReachesSlave env config := by
  constructor
  · intro hclean
    by_contra hno
    obtain ⟨hnull, hexit⟩ := hclean
    rcases load_of_not_reachesSlave configFile hno with ⟨e, hrun⟩ | hreturned
    · obtain ⟨s, hexits⟩ := hexit fun s hzero => by
        rw [hrun] at hzero
        cases hzero
      rw [constructDaemon_thrown hrun] at hexits
      cases hexits
    · obtain ⟨code, s, hrun, hcode, hlog⟩ := hreturned
      exact hnull (constructDaemon_none hrun hcode hlog)
  · intro hreaches
    obtain ⟨code, s, logger, hrun, hcode, hlog⟩ := load_of_reachesSlave configFile hreaches
    have hconstruct := constructDaemon_some trace hrun hlog
    constructor
    · intro hnull
      rw [hconstruct] at hnull
      split at hnull
      · cases hnull
      · cases hnull
    · intro hno
      have hminus : code = -1 := by
        refine hcode.resolve_left fun hzero => hno s ?_
        rw [hrun, hzero]
      rw [hconstruct, hminus]
      exact ⟨s, rfl⟩

/-- A file that cannot be read leaves no log to write the error to. -/
theorem unreadable_config_not_clean : ¬ ∀ trace env configFile config,
    FailsCleanly trace env configFile config := by
  intro hall
  have hclean := hall false { Environment.holding (.group []) with readFile := fun _ => .fileIOException }
    "daemon.cfg" "daemon.cfg"
  exact hclean.1 (by decide +kernel)

end Robotd
