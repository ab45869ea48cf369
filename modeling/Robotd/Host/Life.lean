import Robotd.Cli.Signals
import Robotd.Daemon.Protocol
import Robotd.Host.Steps

/-!
# The life of a process

`Life` is how far a process has come: from the look at the PID file to the decision of the command
line, from there through the constructor of `daemon` and `set_pid_file` to `monitor_proc`. `life`
is the protocol of these phases, and `Life.moves` lists all that a call can do to a phase.
-/

namespace Robotd

open Lib Lib.CLib Cli
open Lib.Program (Protocol Conforms)

inductive Life where
  | arriving
  | found (h : Handle)
  | numbered (text : List Char)
  | stale
  | vacant
  | addressed (pid : Nat)
  | wordless
  | told
  | starting
  | parted
  | registering
  | created (h : Handle)
  | signed (h : Handle) (n : Nat)
  | registered
  | monitoring (watch : Watch)
  deriving DecidableEq, Repr

/-- Messages and faults. -/
def Call.talks : Call → Bool
  | .print _ _ _ | .fault _ => true
  | _ => false

/-- The calls that remove the PID file or begin it anew. -/
def Call.touches : Call → Bool
  | .unlink path | .fopen path .w => path = pidFile
  | _ => false

/-- The calls of the command line that leave the PID file alone. -/
def Call.Records : Call → Prop
  | .fopen _ .r | .fread _ | .stat _ | .mkdir _ | .print _ _ _ | .fault _ => True
  | .fopen path .w => path = configLoad
  | .fwrite h _ => h.path = configLoad
  | _ => False

namespace Life

/-- The command line may go on to the constructor of `daemon`. -/
def Opens : Life → Prop
  | vacant | wordless | told => True
  | numbered text => (scanU16 text).wordsRead < 1
  | _ => False

def after : Life → Event → Life
  | arriving, ⟨.fopen _ .r, .ok h⟩ => found h
  | arriving, ⟨.fopen _ .r, .error _⟩ => vacant
  | found _, ⟨.fread _, text⟩ => numbered text
  | numbered text, ⟨.readdirProc, names⟩ =>
      if names.any (entryNames (scanU16 text).value) then addressed (scanU16 text).value else stale
  | stale, ⟨.unlink _, .ok _⟩ => vacant
  | addressed pid, ⟨.fread _, text⟩ => if scanWord text = [] then wordless else addressed pid
  | addressed _, ⟨.kill _ .sigterm, .ok _⟩ => told
  | numbered _, ⟨.loadConfig _, _⟩ => starting
  | vacant, ⟨.loadConfig _, _⟩ => starting
  | wordless, ⟨.loadConfig _, _⟩ => starting
  | told, ⟨.loadConfig _, _⟩ => starting
  | starting, ⟨.fork, .parent _⟩ => parted
  | starting, ⟨.fork, .child⟩ => registering
  | registering, ⟨.fopen _ .w, .ok h⟩ => created h
  | created h, ⟨.getpid, n⟩ => signed h n
  | signed _ _, ⟨.fwrite _ _, _⟩ => registered
  | registered, ⟨.sigprocmask set, _⟩ => if set = monitorSignals then monitoring .forking else registered
  | monitoring watch, e => monitoring (watch.after e)
  | φ, _ => φ

def allows (option : String) : Life → Call → Prop
  | arriving, c => c.talks = true ∨ c = .fopen pidFile .r
  | found h, c => c = .fread h
  | numbered text, c => c.talks = true ∨ c = .readdirProc ∨
      (∃ path, c = .loadConfig path) ∧ (numbered text).Opens
  | stale, c => c.talks = true ∨ c = .unlink pidFile
  | vacant, c | wordless, c | told, c => c.Records ∨ ∃ path, c = .loadConfig path
  | addressed pid, c => c.Records ∨ ∃ signal, c = .kill pid signal ∧ signalOf option = some signal
  | starting, c => c.talks = true ∨ c = .fork
  | parted, _ => False
  | registering, c => c.talks = true ∨ (∃ what, c = .setup what) ∨ c = .fopen pidFile .r ∨
      c = .unlink pidFile ∨ c = .fopen pidFile .w
  | created _, c => c = .getpid
  | signed h n, c => c = .fwrite h (decimal n ++ ['\n'])
  | registered, c => c.talks = true ∨ c = .sigprocmask monitorSignals
  | monitoring watch, c => watch.allows c

/-- What a process relies on: the answers of `supervision`, and that a stream has the name it was
opened by. -/
def Expects (e : Event) : Prop :=
  Expected e ∧ match e with
    | ⟨.fopen path _, .ok h⟩ => h.path = path
    | _ => True

/-- The process is not in `monitor_proc`. -/
def Outside : Life → Prop
  | monitoring _ => False
  | _ => True

/-- Where a piece of code may end. -/
def Rests : Life → Next → Prop
  | monitoring watch, next => watch.Rests next
  | _, next => ∃ code, next = .exit code

theorem Opens.outside {φ : Life} (h : φ.Opens) : φ.Outside := by
  cases φ with
  | monitoring watch => exact h
  | _ => trivial

theorem Outside.rests {φ : Life} (h : φ.Outside) (code : Int) : φ.Rests (.exit code) := by
  cases φ with
  | monitoring watch => exact absurd h id
  | _ => exact ⟨code, rfl⟩

end Life

/-- The protocol of a process that a command with this option has started. -/
abbrev life (option : String) : Protocol Call Response where
  Phase := Life
  after := Life.after
  allows := Life.allows option
  expects _ := Life.Expects

variable {option : String}

theorem after_talks {c : Call} (hc : c.talks = true) (φ : Life) (r : Response c) :
    φ.after ⟨c, r⟩ = φ := by
  cases c with
  | print | fault => cases φ with
      | monitoring watch => exact congrArg Life.monitoring (after_background rfl watch r)
      | _ => rfl
  | _ => cases hc

theorem signalOf_eq {signal : Signal} (h : signalOf option = some signal) :
    signal = .sighup ∨ signal = .sigterm := by
  unfold signalOf at h
  split at h
  · exact .inl (Option.some.inj h).symm
  · split at h
    · exact .inr (Option.some.inj h).symm
    · cases h

namespace Life

/-- The calls that the protocol allows and what they change. -/
inductive Moves (option : String) : Life → Event → Life → Prop where
  | rest {φ : Life} {c : Call} (hφ : φ.Outside) (hc : c.Records ∨ ∃ what, c = .setup what)
      (r : Response c) : Moves option φ ⟨c, r⟩ φ
  | look {h : Handle} : Moves option arriving ⟨.fopen pidFile .r, .ok h⟩ (found h)
  | missing {e : Errno} : Moves option arriving ⟨.fopen pidFile .r, .error e⟩ vacant
  | scan {h : Handle} {text : List Char} : Moves option (found h) ⟨.fread h, text⟩ (numbered text)
  | alive {text : List Char} {names : List String}
      (h : names.any (entryNames (scanU16 text).value) = true) :
      Moves option (numbered text) ⟨.readdirProc, names⟩ (addressed (scanU16 text).value)
  | dead {text : List Char} {names : List String}
      (h : names.any (entryNames (scanU16 text).value) = false) :
      Moves option (numbered text) ⟨.readdirProc, names⟩ stale
  | clear {done : Unit} : Moves option stale ⟨.unlink pidFile, .ok done⟩ vacant
  | fails {φ : Life} {c : Call} (hφ : φ = stale ∨ φ = registering) (hc : c.touches = true)
      (r : Response c) : Moves option φ ⟨c, r⟩ φ
  | empty {pid : Nat} {h : Handle} {text : List Char} (hword : scanWord text = []) :
      Moves option (addressed pid) ⟨.fread h, text⟩ wordless
  | signal {pid : Nat} {signal : Signal} (hsignal : signalOf option = some signal)
      (r : Response (.kill pid signal)) :
      Moves option (addressed pid) ⟨.kill pid signal, r⟩ (addressed pid)
  | stop {pid : Nat} (hsignal : signalOf option = some .sigterm)
      (r : Response (.kill pid .sigterm)) :
      Moves option (addressed pid) ⟨.kill pid .sigterm, r⟩ told
  | start {φ : Life} (h : φ.Opens) {path : Path} (r : Response (.loadConfig path)) :
      Moves option φ ⟨.loadConfig path, r⟩ starting
  | part {pid : Nat} : Moves option starting ⟨.fork, .parent pid⟩ parted
  | child : Moves option starting ⟨.fork, .child⟩ registering
  | create {h : Handle} : Moves option registering ⟨.fopen pidFile .w, .ok h⟩ (created h)
  | sign {h : Handle} {n : Nat} : Moves option (created h) ⟨.getpid, n⟩ (signed h n)
  | register {h : Handle} {n : Nat} (r : Response (.fwrite h (decimal n ++ ['\n']))) :
      Moves option (signed h n) ⟨.fwrite h (decimal n ++ ['\n']), r⟩ registered
  | watch (r : Response (.sigprocmask monitorSignals)) :
      Moves option registered ⟨.sigprocmask monitorSignals, r⟩ (monitoring .forking)
  | monitor {watch watch' : Watch} {e : Event} (h : Robotd.Moves watch e watch') :
      Moves option (monitoring watch) e (monitoring watch')

/-- Where the command line has found a reason to start a daemon, except in the number. -/
def Free : Life → Prop
  | vacant | wordless | told => True
  | _ => False

theorem Free.outside {φ : Life} (h : φ.Free) : φ.Outside := by
  cases φ with
  | monitoring watch => exact h
  | _ => trivial

theorem moves_talks {φ : Life} {c : Call} (hφ : φ.Outside) (hc : c.talks = true) (r : Response c) :
    Moves option φ ⟨c, r⟩ (φ.after ⟨c, r⟩) := by
  rw [after_talks hc]
  refine .rest hφ (.inl ?_) r
  cases c with
  | print | fault => trivial
  | _ => cases hc

/-- A recording call leaves these phases alone, and that of a daemon found alive unless it reads. -/
theorem moves_records {φ : Life} {c : Call} (hφ : φ.Free) (hc : c.Records) (r : Response c) :
    Moves option φ ⟨c, r⟩ (φ.after ⟨c, r⟩) := by
  have hafter : φ.after ⟨c, r⟩ = φ := by
    cases φ with
    | vacant | wordless | told => cases c with
        | fopen | fread | fwrite | stat | mkdir | print | fault => rfl
        | _ => exact absurd hc id
    | _ => exact absurd hφ id
  rw [hafter]
  exact .rest hφ.outside (.inl hc) r

theorem moves_addressed {pid : Nat} {c : Call} (hc : c.Records) (r : Response c) :
    Moves option (addressed pid) ⟨c, r⟩ ((addressed pid).after ⟨c, r⟩) := by
  have hrest : Moves option (addressed pid) ⟨c, r⟩ (addressed pid) := .rest (by trivial) (.inl hc) r
  cases c with
  | fread h =>
      have hafter : (addressed pid).after ⟨.fread h, r⟩ =
        if scanWord r = [] then wordless else addressed pid := rfl
      rw [hafter]
      by_cases hword : scanWord r = []
      · rw [if_pos hword]
        exact .empty hword
      · rw [if_neg hword]
        exact hrest
  | fopen | fwrite | stat | mkdir | print | fault => exact hrest
  | _ => exact absurd hc id

/-- An allowed call with an expected answer is one of these. -/
theorem moves {φ : Life} {e : Event} (hallows : φ.allows option e.1) (hexpects : Expects e) :
    Moves option φ e (φ.after e) := by
  obtain ⟨c, r⟩ := e
  cases φ with
  | arriving =>
      rcases hallows with hc | rfl
      · exact moves_talks (by trivial) hc r
      · cases r with
        | ok h => exact .look
        | error e => exact .missing
  | found h =>
      obtain rfl : c = .fread h := hallows
      exact .scan
  | numbered text =>
      rcases hallows with hc | rfl | ⟨⟨path, rfl⟩, hopens⟩
      · exact moves_talks (by trivial) hc r
      · have hafter : (numbered text).after ⟨.readdirProc, r⟩ =
          if List.any r (entryNames (scanU16 text).value) then addressed (scanU16 text).value
          else stale := rfl
        rw [hafter]
        by_cases hany : List.any r (entryNames (scanU16 text).value) = true
        · rw [if_pos hany]
          exact .alive hany
        · rw [if_neg hany]
          exact .dead (Bool.eq_false_iff.mpr hany)
      · exact .start hopens r
  | stale =>
      rcases hallows with hc | rfl
      · exact moves_talks (by trivial) hc r
      · cases r with
        | ok done => exact .clear
        | error e => exact .fails (.inl rfl) rfl _
  | vacant | wordless | told =>
      rcases hallows with hc | ⟨path, rfl⟩
      · exact moves_records (by trivial) hc r
      · exact .start (by trivial) r
  | addressed pid =>
      rcases hallows with hc | ⟨signal, rfl, hsignal⟩
      · exact moves_addressed hc r
      · rcases signalOf_eq hsignal with rfl | rfl
        · exact .signal hsignal r
        · cases r with
          | ok done => exact .stop hsignal _
          | error e => exact .signal hsignal _
  | starting =>
      rcases hallows with hc | rfl
      · exact moves_talks (by trivial) hc r
      · rcases hexpects.1 with rfl | ⟨pid, -, rfl⟩
        · exact .child
        · exact .part
  | parted => exact absurd hallows id
  | registering =>
      rcases hallows with hc | ⟨what, rfl⟩ | rfl | rfl | rfl
      · exact moves_talks (by trivial) hc r
      · exact .rest (by trivial) (.inr ⟨what, rfl⟩) r
      · exact .rest (by trivial) (.inl (by trivial)) r
      · exact .fails (.inr rfl) rfl r
      · cases r with
        | ok h => exact .create
        | error e => exact .fails (.inr rfl) rfl _
  | created h =>
      obtain rfl : c = .getpid := hallows
      exact .sign
  | signed h n =>
      obtain rfl : c = .fwrite h (decimal n ++ ['\n']) := hallows
      exact .register r
  | registered =>
      rcases hallows with hc | rfl
      · exact moves_talks (by trivial) hc r
      · exact .watch r
  | monitoring watch => exact .monitor (Robotd.moves hallows hexpects.1)

/-- The children: one is to become the daemon, the other is a master. -/
theorem moves_child {φ φ' : Life} (h : Moves option φ ⟨.fork, .child⟩ φ') :
    φ = starting ∧ φ' = registering ∨ φ = monitoring .forking ∧ φ' = monitoring .master := by
  cases h with
  | child => exact .inl ⟨rfl, rfl⟩
  | rest hφ hc r =>
      rcases hc with hc | ⟨what, hc⟩
      · exact absurd hc id
      · cases hc
  | fails hφ hc r => cases hc
  | monitor hmoves => cases hmoves with
      | child => exact .inr ⟨rfl, rfl⟩
      | background hcalm hc r => cases hc

/-- Their parents. -/
theorem moves_parent {φ φ' : Life} {pid : Nat} (h : Moves option φ ⟨.fork, .parent pid⟩ φ') :
    φ = starting ∧ φ' = parted ∨ φ = monitoring .forking ∧ φ' = monitoring (.waiting pid) := by
  cases h with
  | part => exact .inl ⟨rfl, rfl⟩
  | rest hφ hc r =>
      rcases hc with hc | ⟨what, hc⟩
      · exact absurd hc id
      · cases hc
  | fails hφ hc r => cases hc
  | monitor hmoves => cases hmoves with
      | forked hpid => exact .inr ⟨rfl, rfl⟩
      | background hcalm hc r => cases hc

end Life

end Robotd
