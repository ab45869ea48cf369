import Robotd.Cli.Os
import Robotd.Lib.Amortized

/-!
# What a command costs

The command line functions make a bounded number of calls, whatever the system answers, and one
`kill` among them at most: `parseOptions_spends`. A call costs one, a signal what its receiver may
make of it. `Spends` has one rule for each wrapper of a call, like `Only`.
-/

namespace Robotd

open Lib Lib.CLib

/-- The price of a call of the command line, where `signal` is that of a `kill`. No response follows
a fault. -/
def Call.price (signal : Nat) : Call → Option Nat
  | .kill _ _ => some signal
  | .fault _ => some 0
  | .fopen _ _ | .fread _ | .fwrite _ _ | .unlink _ | .stat _ | .mkdir _ => some 1
  | .readdirProc | .print _ _ _ | .getpid | .setup _ => some 1
  | _ => none

namespace Cli

variable {price : Call → Option Nat} {α β : Type} {n k x : Nat}

/-- The function makes only calls that have a price, and pays `n` for them at most. -/
def Spends (price : Call → Option Nat) (n : Nat) (f : Cli α) : Prop :=
  ∀ g, Program.Spends price n (f.run g)

theorem spends_pure (a : α) : Spends price n (pure a) := fun _ => trivial

theorem spends_get : Spends price n get := fun _ => trivial

theorem spends_errno : Spends price n errno := fun _ => trivial

theorem spends_modify (f : Globals → Globals) : Spends price n (modify f) := fun _ => trivial

theorem Spends.seq {f : Cli α} {next : α → Cli β} (hf : Spends price n f) (hle : n ≤ k)
    (hnext : ∀ a, Spends price (k - n) (next a)) : Spends price k (f >>= next) :=
  fun g => (hf g).seq hle fun out => hnext out.1 out.2

/-- A function without calls in front of another. -/
theorem Spends.free {f : Cli α} {next : α → Cli β} (hf : Spends price 0 f)
    (hnext : ∀ a, Spends price k (next a)) : Spends price k (f >>= next) :=
  hf.seq (Nat.zero_le k) hnext

theorem Spends.mono {f : Cli α} (hf : Spends price n f) (hle : n ≤ k) : Spends price k f :=
  fun g => (hf g).mono hle

theorem Spends.ite {c : Prop} [Decidable c] {f g : Cli α} (hf : Spends price n f)
    (hg : Spends price n g) : Spends price n (if c then f else g) := by
  split <;> assumption

theorem spends_make {c : Call} (hc : price c = some x) :
    Spends price x (Sys.make c : Cli (Response c)) := by
  intro g
  rw [StateT.run_monadLift]
  exact ⟨x, hc, le_rfl, fun _ => trivial⟩

theorem spends_fault {reason : Fault} (h : price (.fault reason) = some 0) :
    Spends price n (fault reason : Cli α) :=
  fun _ => ⟨0, h, Nat.zero_le n, fun r => r.elim⟩

theorem spends_report (answer : Except Errno Unit) : Spends price n (report answer) := by
  cases answer with
  | ok done => exact spends_pure true
  | error e => exact fun _ => trivial

theorem spends_fopen {path : Path} {mode : Mode} (h : price (.fopen path mode) = some x) :
    Spends price x (fopen path mode) := by
  refine (spends_make h).seq le_rfl fun answer => ?_
  cases answer with
  | ok f => exact spends_pure (some f)
  | error e => exact fun _ => trivial

theorem spends_unlink {path : Path} (h : price (.unlink path) = some x) :
    Spends price x (unlink path) :=
  (spends_make h).seq le_rfl spends_report

theorem spends_stat {path : Path} (h : price (.stat path) = some x) : Spends price x (stat path) :=
  (spends_make h).seq le_rfl spends_report

theorem spends_mkdir {path : Path} (h : price (.mkdir path) = some x) :
    Spends price x (mkdir path) :=
  (spends_make h).seq le_rfl spends_report

theorem spends_kill {pid : Int} {signal : Signal} (h : price (.kill pid signal) = some x) :
    Spends price x (kill pid signal) :=
  (spends_make h).seq le_rfl spends_report

end Cli

open Cli

variable {signal : Nat}

/-- A message in front of a return. -/
theorem spends_print_return {α : Type} {stream : Stream} {format : String} {args : List String}
    {rest : Cli α} {n : Nat} (hn : 1 ≤ n) (hrest : Spends (Call.price signal) (n - 1) rest) :
    Spends (Call.price signal) n (do
      let _ ← (Sys.make (.print stream format args) : Cli Unit)
      rest) :=
  (spends_make rfl).seq hn fun _ => hrest

theorem makeRunConfDir_spends : Spends (Call.price signal) 2 makeRunConfDir := by
  refine (spends_stat rfl).seq (by decide) fun found => ?_
  cases found with
  | true => exact spends_pure true
  | false => exact spends_mkdir rfl

theorem openConfigLoad_spends : Spends (Call.price signal) 5 openConfigLoad := by
  refine (spends_fopen rfl).seq (by decide) fun first => ?_
  cases first with
  | some f => exact spends_pure (some f)
  | none =>
      refine spends_get.free fun g => Spends.ite ?_ (spends_print_return (by decide) (spends_pure _))
      refine makeRunConfDir_spends.seq (by decide) fun made =>
        Spends.ite ?_ (spends_print_return (by decide) (spends_pure _))
      refine (spends_fopen rfl).seq (by decide) fun second => ?_
      cases second with
      | some f => exact spends_pure (some f)
      | none => exact spends_print_return (by decide) (spends_pure _)

theorem recordConfig_spends : Spends (Call.price signal) 6 recordConfig := by
  refine openConfigLoad_spends.seq (by decide) fun f => ?_
  cases f with
  | none => exact spends_errno
  | some f => exact spends_get.free fun g => (spends_make rfl).seq (by decide) fun _ => spends_pure 0

theorem optionLoad_spends (cwd : Path) : Spends (Call.price signal) 8 (optionLoad cwd) := by
  refine spends_get.free fun g => (spends_fopen rfl).seq (by decide) fun first => ?_
  cases first with
  | some f =>
      refine spends_get.free fun _ => (spends_modify _).free fun _ => ?_
      exact recordConfig_spends.mono (by decide)
  | none =>
      refine spends_get.free fun _ => (spends_modify _).free fun _ => spends_get.free fun _ => ?_
      refine (spends_fopen rfl).seq (by decide) fun second => ?_
      cases second with
      | some f => exact recordConfig_spends
      | none => exact spends_print_return (by decide) spends_errno

theorem noDaemonProcess_spends (cwd : Path) (argv : List String) :
    Spends (Call.price signal) 8 (noDaemonProcess cwd argv) := by
  refine Spends.ite (spends_pure _) (Spends.ite (spends_print_return (by decide) (spends_pure _))
    (Spends.ite (Spends.ite ((spends_modify _).free fun _ => optionLoad_spends cwd)
      (Spends.ite (optionLoad_spends cwd) (spends_print_return (by decide) (spends_pure _)))) ?_))
  exact spends_print_return (by decide) (spends_print_return (by decide) (spends_pure _))

theorem restoreConfig_spends : Spends (Call.price signal) 5 restoreConfig := by
  refine (spends_fopen rfl).seq (by decide) fun first => ?_
  cases first with
  | some f =>
      refine (spends_make rfl).seq (by decide) fun text => Spends.ite (spends_fault rfl)
        (spends_get.free fun g => (spends_modify _).free fun _ => Spends.ite ?_ (spends_pure _))
      refine (spends_fopen rfl).seq (by decide) fun second => ?_
      cases second with
      | none => exact spends_fault rfl
      | some f =>
          refine (spends_make rfl).seq (by decide) fun _ => ?_
          exact spends_print_return (by decide) (spends_errno.free fun _ => spends_pure _)
  | none =>
      have hfails : ∀ {n : Nat} {format : String} {args : List String}, 1 ≤ n →
          Spends (Call.price signal) n (do
            eprintf format args
            return some (← errno) : Cli (Option Int)) :=
        fun hn => spends_print_return hn (spends_errno.free fun _ => spends_pure _)
      refine spends_get.free fun g => Spends.ite ?_ (hfails (by decide))
      refine makeRunConfDir_spends.seq (by decide) fun made => Spends.ite ?_ (hfails (by decide))
      refine (spends_fopen rfl).seq (by decide) fun second => ?_
      cases second with
      | none => exact hfails (by decide)
      | some f => exact (spends_make rfl).seq (by decide) fun _ => spends_pure _

/-- A signal and the message for its failure. -/
theorem signalDaemon_spends {pid : Nat} {sig : Signal} {ret : Int} {format : String}
    {args : List String} :
    Spends (Call.price signal) (signal + 1) (signalDaemon pid sig ret format args) := by
  refine (spends_kill rfl).seq (by omega) fun sent => Spends.ite (spends_pure _) ?_
  exact spends_print_return (by omega) spends_errno

theorem daemonProcess_spends (cwd : Path) (argv : List String) (pid : Nat) :
    Spends (Call.price signal) (signal + 14) (daemonProcess cwd argv pid) := by
  refine Spends.ite (spends_print_return (by omega) (spends_pure _))
    (restoreConfig_spends.seq (by omega) fun r => ?_)
  cases r with
  | some ret => exact spends_pure _
  | none =>
      refine Spends.ite (Spends.ite ((spends_modify _).free fun _ => ?_)
        (spends_print_return (by omega) (spends_pure _)))
        (Spends.ite (signalDaemon_spends.mono (by omega)) (Spends.ite ?_ (Spends.ite ?_ ?_)))
      · refine (optionLoad_spends cwd).seq (by omega) fun ret => Spends.ite (spends_pure _) ?_
        exact signalDaemon_spends.mono (by omega)
      · refine spends_get.free fun g => spends_print_return (by omega) ?_
        exact signalDaemon_spends.mono (by omega)
      · refine (spends_kill rfl).seq (by omega) fun sent => Spends.ite ?_ ?_
        · exact spends_print_return (by omega) (spends_pure _)
        · exact spends_print_return (by omega) spends_errno
      · exact spends_print_return (by omega) (spends_print_return (by omega) (spends_pure _))

/-- Every command makes 17 calls and sends one signal at most. -/
theorem parseOptions_spends (cwd : Path) (argv : List String) :
    Spends (Call.price signal) (signal + 17) (parseOptions cwd argv) := by
  have hnone : ∀ {n : Nat}, 8 ≤ n → Spends (Call.price signal) n (noDaemonProcess cwd argv) :=
    fun hn => (noDaemonProcess_spends cwd argv).mono hn
  refine Spends.ite (spends_print_return (by omega) (spends_pure _))
    (Spends.ite (spends_print_return (by omega) (spends_pure _))
      ((spends_fopen rfl).seq (by omega) fun exist => ?_))
  cases exist with
  | none => exact hnone (by omega)
  | some exist =>
      have hscan : Spends (Call.price signal) 1 (fscanfU16 exist) :=
        (spends_make rfl).seq le_rfl fun _ => (spends_modify _).free fun _ => spends_pure _
      refine hscan.seq (by omega) fun scan =>
        Spends.ite ?_ ((spends_make rfl).seq (by omega) fun names => Spends.ite ?_ ?_)
      · exact spends_print_return (by omega) spends_errno
      · exact (daemonProcess_spends cwd argv scan.value).mono (by omega)
      · refine (spends_unlink rfl).seq (by omega) fun done => Spends.ite (hnone (by omega)) ?_
        exact spends_print_return (by omega) spends_errno

end Robotd
