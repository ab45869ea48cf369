import Robotd.Cli.OptionLoad

/-!
# Signals and removals

Only two calls of the command line reach beyond its own files: `kill` and `unlink`. The functions
that record a configuration make neither (`Quiet`), and the section for a running daemon signals
that daemon alone (`SignalsOnly`), whatever the system answers. None touches the signal mask.
-/

namespace Robotd

open Lib Lib.CLib Cli

/-- The signal by which an option addresses the daemon. -/
def signalOf (option : String) : Option Signal :=
  if option = key 0 ∨ option = key 1 then some .sighup
  else if option = key 2 ∨ option = key 3 then some .sigterm
  else none

/-- A call that sends no signal and removes no file. -/
def Quiet : Call → Prop
  | .unlink _ | .kill _ _ => False
  | _ => True

/-- A call on files that removes none, or a message. -/
def OnFiles : Call → Prop
  | .fopen _ _ | .fread _ | .fwrite _ _ | .stat _ | .mkdir _ | .print _ _ _ | .fault _ => True
  | _ => False

theorem Quiet.of_onFiles {c : Call} (h : OnFiles c) : Quiet c := by
  cases c <;> trivial

theorem makeRunConfDir_onFiles : Only OnFiles makeRunConfDir := by
  refine (only_stat trivial).bind fun found => ?_
  cases found with
  | true => exact only_pure _
  | false => exact only_mkdir trivial

theorem openConfigLoad_onFiles : Only OnFiles openConfigLoad := by
  refine (only_fopen trivial).bind fun first => ?_
  cases first with
  | some f => exact only_pure _
  | none =>
      refine only_get.bind fun g => Only.ite (makeRunConfDir_onFiles.bind fun made => ?_) ?_
      · refine Only.ite ((only_fopen trivial).bind fun second => ?_) ?_
        · cases second with
          | some f => exact only_pure _
          | none => exact (only_make trivial).bind fun _ => only_pure _
        · exact (only_make trivial).bind fun _ => only_pure _
      · exact (only_make trivial).bind fun _ => only_pure _

theorem recordConfig_onFiles : Only OnFiles recordConfig := by
  refine openConfigLoad_onFiles.bind fun f => ?_
  cases f with
  | none => exact only_errno
  | some f => exact only_get.bind fun g => (only_make trivial).bind fun _ => only_pure _

theorem optionLoad_onFiles (cwd : Path) : Only OnFiles (optionLoad cwd) := by
  refine only_get.bind fun g => (only_fopen trivial).bind fun first => ?_
  cases first with
  | some f => exact only_get.bind fun _ => (only_setConfigFile _).bind fun _ => recordConfig_onFiles
  | none =>
      refine only_get.bind fun _ => (only_setConfigFile _).bind fun _ => only_get.bind fun _ =>
        (only_fopen trivial).bind fun second => ?_
      cases second with
      | some f => exact recordConfig_onFiles
      | none => exact (only_make trivial).bind fun _ => only_errno

theorem falseParameters_onFiles : Only OnFiles falseParameters := only_make trivial

theorem noDaemonProcess_onFiles (cwd : Path) (argv : List String) :
    Only OnFiles (noDaemonProcess cwd argv) := by
  refine Only.ite (only_pure _) (Only.ite ((only_make trivial).bind fun _ => only_pure _)
    (Only.ite (Only.ite ((only_setConfigFile _).bind fun _ => optionLoad_onFiles cwd)
      (Only.ite (optionLoad_onFiles cwd) ((only_make trivial).bind fun _ => only_pure _))) ?_))
  exact (only_make trivial).bind fun _ => falseParameters_onFiles.bind fun _ => only_pure _

theorem restoreConfig_onFiles : Only OnFiles restoreConfig := by
  refine (only_fopen trivial).bind fun first => ?_
  cases first with
  | some f =>
      refine (only_make trivial).bind fun text => Only.ite (only_fault trivial)
        (only_get.bind fun g => (only_setConfigFile _).bind fun _ => Only.ite ?_ (only_pure _))
      refine (only_fopen trivial).bind fun second => ?_
      cases second with
      | none => exact only_fault trivial
      | some f =>
          exact (only_make trivial).bind fun _ => (only_make trivial).bind fun _ =>
            only_errno.bind fun _ => only_pure _
  | none =>
      refine only_get.bind fun g => Only.ite (makeRunConfDir_onFiles.bind fun made => ?_)
        ((only_make trivial).bind fun _ => only_errno.bind fun _ => only_pure _)
      refine Only.ite ((only_fopen trivial).bind fun second => ?_)
        ((only_make trivial).bind fun _ => only_errno.bind fun _ => only_pure _)
      cases second with
      | none => exact (only_make trivial).bind fun _ => only_errno.bind fun _ => only_pure _
      | some f => exact (only_make trivial).bind fun _ => only_pure _

theorem noDaemonProcess_quiet (cwd : Path) (argv : List String) :
    Only Quiet (noDaemonProcess cwd argv) :=
  (noDaemonProcess_onFiles cwd argv).mono fun _ => Quiet.of_onFiles

theorem restoreConfig_quiet : Only Quiet restoreConfig :=
  restoreConfig_onFiles.mono fun _ => Quiet.of_onFiles

/-- A call that sends no signal but to `pid` and removes no file. -/
def SignalsOnly (pid : Nat) : Call → Prop
  | .unlink _ => False
  | .kill target _ => target = pid
  | _ => True

/-- A call on files that removes none, a message, or a signal to `pid`. -/
def Addresses (pid : Nat) (c : Call) : Prop := OnFiles c ∨ ∃ signal, c = .kill pid signal

theorem SignalsOnly.of_addresses {pid : Nat} {c : Call} (h : Addresses pid c) : SignalsOnly pid c := by
  rcases h with hfiles | ⟨signal, rfl⟩
  · cases c <;> trivial
  · rfl

theorem addresses_print {pid : Nat} {stream : Stream} {format : String} {args : List String} :
    Addresses pid (.print stream format args) :=
  .inl trivial

theorem only_kill_daemon (pid : Nat) (signal : Signal) :
    Only (Addresses pid) (kill pid signal) :=
  only_kill (.inr ⟨signal, rfl⟩)

theorem signalDaemon_addresses {pid : Nat} {signal : Signal} {ret : Int} {format : String}
    {args : List String} : Only (Addresses pid) (signalDaemon pid signal ret format args) :=
  (only_kill_daemon pid signal).bind fun _ =>
    Only.ite (only_pure _) ((only_make addresses_print).bind fun _ => only_errno)

theorem daemonProcess_addresses (cwd : Path) (argv : List String) (pid : Nat) :
    Only (Addresses pid) (daemonProcess cwd argv pid) := by
  refine Only.ite ((only_make addresses_print).bind fun _ => only_pure _)
    ((restoreConfig_onFiles.mono fun _ => .inl).bind fun r => ?_)
  cases r with
  | some ret => exact only_pure _
  | none =>
      refine Only.ite (Only.ite ((only_setConfigFile _).bind fun _ => ?_) ?_)
        (Only.ite signalDaemon_addresses (Only.ite ?_ (Only.ite ?_ ?_)))
      · refine ((optionLoad_onFiles cwd).mono fun _ => .inl).bind fun ret => ?_
        exact Only.ite (only_pure _) signalDaemon_addresses
      · exact (only_make addresses_print).bind fun _ => only_pure _
      · exact only_get.bind fun g => (only_make addresses_print).bind fun _ => signalDaemon_addresses
      · refine (only_kill_daemon pid .sigterm).bind fun _ => Only.ite ?_ ?_
        · exact (only_make addresses_print).bind fun _ => only_pure _
        · exact (only_make addresses_print).bind fun _ => only_errno
      · exact (only_make addresses_print).bind fun _ =>
          (only_make addresses_print).bind fun _ => only_pure _

theorem daemonProcess_signalsOnly (cwd : Path) (argv : List String) (pid : Nat) :
    Only (SignalsOnly pid) (daemonProcess cwd argv pid) :=
  (daemonProcess_addresses cwd argv pid).mono fun _ => SignalsOnly.of_addresses

/-- A call that leaves the signal mask alone. -/
def Unmasked (c : Call) : Prop := ∀ set, c ≠ .sigprocmask set

theorem Unmasked.of_onFiles {c : Call} (h : OnFiles c) : Unmasked c := by
  rintro set rfl
  exact h

theorem Unmasked.of_addresses {pid : Nat} {c : Call} (h : Addresses pid c) : Unmasked c := by
  rcases h with hfiles | ⟨signal, rfl⟩
  · exact .of_onFiles hfiles
  · exact nofun

/-- No option touches the signal mask. -/
theorem parseOptions_unmasked (cwd : Path) (argv : List String) :
    Only Unmasked (parseOptions cwd argv) := by
  have hnone : Only Unmasked (noDaemonProcess cwd argv) :=
    (noDaemonProcess_onFiles cwd argv).mono fun _ => .of_onFiles
  refine Only.ite ((falseParameters_onFiles.mono fun _ => .of_onFiles).bind fun _ => only_pure _)
    (Only.ite ((only_make nofun).bind fun _ => only_pure _) ((only_fopen nofun).bind fun exist => ?_))
  cases exist with
  | none => exact hnone
  | some exist =>
      refine (only_fscanfU16 nofun).bind fun scan =>
        Only.ite ?_ ((only_make nofun).bind fun names => ?_)
      · exact (only_make nofun).bind fun _ => only_errno
      · refine Only.ite ?_ ((only_unlink nofun).bind fun done => Only.ite hnone ?_)
        · exact (daemonProcess_addresses cwd argv scan.value).mono fun _ => .of_addresses
        · exact (only_make nofun).bind fun _ => only_errno

end Robotd
