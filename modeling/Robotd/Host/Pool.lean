import Robotd.Daemon.Protocol
import Robotd.Lib.Machine

/-!
# The processes of one host

`Host` is the whole system: the files, the processes with the code they have still to run, and
the zombies their parents have not reaped. `Host.step` lets the shell start a command or another
program, a process make its next call, end, or be killed; every interleaving of calls is a run.
What a call answers is computed, except for what the machine leaves open: the number of a new
process, the signal that is taken, what a load comes to, and which other processes `/proc` lists.

A process remembers its calls, `past`, with those of the process it was forked from. A signal it
has not blocked by then ends it, and so does a fault, `abort`. Forks and waits for signals do not
fail.
-/

namespace Robotd

open Lib Lib.CLib

structure Process where
  argv : List String
  code : Sys Next
  past : List Event
  pending : List Signal
  parent : Option Nat

/-- Go on with the next piece of code when one is done. -/
def settle : Sys Next → Sys Next
  | .ret next => next.resume.getD (.ret next)
  | code => code

namespace Process

/-- A process that a shell starts. -/
def ofCommand (cwd : Path) (argv : List String) : Process where
  argv := argv
  code := settle (main cwd argv).program
  past := []
  pending := []
  parent := none

/-- Another program. Of what it does only its end is modelled. -/
def other : Process where
  argv := []
  code := .ret (.exit exitSuccess)
  past := []
  pending := []
  parent := none

/-- The process has blocked the signal, or inherited that. -/
def blocks (p : Process) (signal : Signal) : Bool :=
  p.past.any fun
    | ⟨.sigprocmask set, _⟩ => signal ∈ set
    | _ => false

/-- A call has been answered. -/
def answered (p : Process) (e : Event) (code : Sys Next) : Process :=
  { p with code := settle code, past := p.past ++ [e] }

/-- The child of a process that forks: the same program, no signals. -/
def forked (p : Process) (code : Sys Next) (parent : Nat) : Process where
  argv := p.argv
  code := settle code
  past := p.past ++ [⟨.fork, .child⟩]
  pending := []
  parent := some parent

/-- A signal becomes pending. -/
def raised (p : Process) (signal : Signal) : Process :=
  { p with pending := p.pending.insert signal }

end Process

/-- The number of a signal. -/
def Signal.number : Signal → Fin 127
  | .sighup => 1
  | .sigint => 2
  | .sigquit => 3
  | .sigterm => 15
  | .sigchld => 17

/-- The number of the signal that a fault comes to: `std::terminate` aborts, and a wrong access to
memory is SIGSEGV. -/
def Fault.signal : Fault → Fin 127
  | .uncaughtException => 6
  | .nullStream | .nullPointer | .bufferOverflow | .nullLogger | .uninitializedRead => 11

structure Host where
  fs : FileSystem
  process : Nat → Option Process
  zombie : Nat → Option (Nat × WaitStatus)
  pids : List Nat

/-- What the machine leaves open about a call. -/
inductive Choice where
  | none
  | listing (extra : List String)
  | child (pid : Nat)
  | setup (answer : Except Errno Unit)
  | signal (signal : Signal)
  | load (outcome : LoadOutcome)
  | services (outcome : ServiceOutcome)

inductive Action where
  | spawn (pid : Nat) (cwd : Path) (argv : List String)
  | other (pid : Nat)
  | run (pid : Nat) (choice : Choice)
  | exit (pid : Nat)
  | abort (pid : Nat)
  | crash (pid : Nat) (status : WaitStatus)

namespace Host

/-- The number can be given to a new process. -/
def Free (s : Host) (pid : Nat) : Prop :=
  0 < pid ∧ s.process pid = none ∧ s.zombie pid = none

instance (s : Host) (pid : Nat) : Decidable (s.Free pid) :=
  haveI : Decidable (s.process pid = none) := Option.decidableEqNone _
  haveI : Decidable (s.zombie pid = none) := Option.decidableEqNone _
  inferInstanceAs (Decidable (_ ∧ _ ∧ _))

/-- The names of the processes in `/proc`. -/
def listing (s : Host) : List String :=
  (s.pids.filter fun pid => (s.process pid).isSome || (s.zombie pid).isSome).map fun pid =>
    String.ofList (decimal pid)

def add (s : Host) (pid : Nat) (p : Process) : Host :=
  { s with process := fun q => if q = pid then some p else s.process q, pids := pid :: s.pids }

def update (s : Host) (pid : Nat) (f : Process → Process) : Host :=
  { s with process := fun q => if q = pid then (s.process q).map f else s.process q }

/-- The processes after one has ended: its children are orphans, its zombies are gone, and it is
a zombie itself if it has a parent. -/
def remove (s : Host) (pid : Nat) (status : WaitStatus) : Host :=
  { s with
    process := fun q => if q = pid then none else (s.process q).map fun p =>
      if p.parent = some pid then { p with parent := none } else p
    zombie := fun q => if q = pid then ((s.process q).bind Process.parent).map fun parent =>
        (parent, status)
      else (s.zombie q).filter fun z => z.1 ≠ pid }

/-- A signal for a process that blocks it; the others ignore it or have ended by it. -/
def raise (s : Host) (pid : Nat) (signal : Signal) : Host :=
  s.update pid fun p => if p.blocks signal then p.raised signal else p

/-- A process ends, and its parent learns it. -/
def die (s : Host) (pid : Nat) (status : WaitStatus) : Host :=
  match (s.process pid).bind Process.parent with
  | some parent => (s.remove pid status).raise parent .sigchld
  | none => s.remove pid status

/-- `kill`. A signal that is not blocked ends the process, SIGCHLD apart. -/
def kill (s : Host) (target : Int) (signal : Signal) : Except Errno Unit × Host :=
  match s.process target.toNat with
  | some p =>
      if p.blocks signal = true ∨ signal = .sigchld then (.ok (), s.raise target.toNat signal)
      else (.ok (), s.die target.toNat (.signaled signal.number false))
  | none => if (s.zombie target.toNat).isSome then (.ok (), s) else (.error .esrch, s)

/-- Put the file system after an operation back. -/
def withFs {α : Type} (s : Host) (result : α × FileSystem) : Option (α × Host) :=
  some (result.1, { s with fs := result.2 })

/-- The answer to a call of a process, and the host after it. `fork` is answered twice, so it is
left to `step`. -/
def answer (s : Host) (pid : Nat) (choice : Choice) : (c : Call) → Option (Response c × Host)
  | .fopen path mode => s.withFs (s.fs.fopen path mode)
  | .fread h => some (s.fs.read h, s)
  | .fwrite h text => s.withFs ((), s.fs.write h text)
  | .unlink path => s.withFs (s.fs.unlink path)
  | .stat path => some (s.fs.statDir path, s)
  | .mkdir path => s.withFs (s.fs.mkdir path)
  | .readdirProc => match choice with
      | .listing extra => some (s.listing ++ extra, s)
      | _ => none
  | .print _ _ _ => some ((), s)
  | .fault _ => none
  | .getpid => some (pid, s)
  | .kill target signal => some (s.kill target signal)
  | .fork => none
  | .setup _ => match choice with
      | .setup result => some (result, s)
      | _ => none
  | .sigprocmask _ => some ((), s)
  | .sigwaitinfo set => match choice with
      | .signal signal =>
          if signal ∈ set ∧ (s.process pid).any (fun p => signal ∈ p.pending) = true then
            some (.ok signal, s.update pid fun p => { p with pending := p.pending.erase signal })
          else none
      | _ => none
  | .wait => match choice with
      | .child child => match s.zombie child with
          | some (parent, status) =>
              if parent = pid then
                some (.ok status.raw,
                  { s with zombie := fun q => if q = child then none else s.zombie q })
              else none
          | none => none
      | _ => none
  | .loadConfig _ => match choice with
      | .load outcome => some (outcome, s)
      | _ => none
  | .registerServices => match choice with
      | .services outcome => some (outcome, s)
      | _ => none
  | .updateLoggers => some ((), s)

/-- A process makes its next call. -/
def call (s : Host) (pid : Nat) (choice : Choice) (p : Process) : Option Host :=
  match p.code with
  | .ret _ => none
  | .call .fork next => match choice with
      | .child child =>
          if s.Free child then
            some ((s.update pid fun p => p.answered ⟨.fork, .parent child⟩ (next (.parent child))).add
              child (p.forked (next .child) pid))
          else none
      | _ => none
  | .call c next => do
      let (r, s') ← s.answer pid choice c
      some (s'.update pid fun p => p.answered ⟨c, r⟩ (next r))

def step (s : Host) : Action → Option Host
  | .spawn pid cwd argv =>
      if s.Free pid then some (s.add pid (.ofCommand cwd argv)) else none
  | .other pid => if s.Free pid then some (s.add pid .other) else none
  | .run pid choice => s.process pid >>= s.call pid choice
  | .exit pid => s.process pid >>= fun p => match p.code with
      | .ret (.exit code) => some (s.die pid (.exited (Fin.ofNat 256 (code % 256).toNat)))
      | _ => none
  | .abort pid => s.process pid >>= fun p => match p.code with
      | .call (.fault reason) _ => some (s.die pid (.signaled reason.signal false))
      | _ => none
  | .crash pid status => (s.process pid).map fun _ => s.die pid status

end Host

end Robotd
