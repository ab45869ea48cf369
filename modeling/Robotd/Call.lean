import Robotd.Directories
import Robotd.Lib.Program

/-!
# The calls of the robotd processes

Every function of the command line, the daemon and the master that touches the system is a
`Sys` program over `Call`. A call that can fail answers with the error number; what it does to
the system is said where a system is modelled, so that one program text serves them all.

Streams are closed at once after use in the source, and what was written is flushed in one
piece; so opening, one read and one write of a whole text are the calls on files, and closing
is not a call.
-/

namespace Robotd

open Lib

inductive Signal where
  | sighup
  | sigint
  | sigquit
  | sigterm
  | sigchld
  deriving DecidableEq, Repr

/-- Where a message goes: a standard stream or the logger. -/
inductive Stream where
  | stdout
  | stderr
  | log
  deriving DecidableEq, Repr

/-- Undefined behaviour that ends a process: no response follows. -/
inductive Fault where
  | nullStream
  | nullPointer
  | bufferOverflow
  | nullLogger
  | uncaughtException
  | uninitializedRead
  deriving DecidableEq, Repr

/-- Preparations of a process whose only modelled effect is to succeed or fail. -/
inductive Setup where
  | setsid
  | chdirRoot
  | closeStdin
  | closeStdout
  | closeStderr
  | rlimitStack
  | signalHandlers
  | rlimitNofile
  deriving DecidableEq, Repr

/-- The answers of `fork` in the parent and in the child. -/
inductive ForkResult where
  | failed (errno : Errno)
  | child
  | parent (pid : Nat)
  deriving DecidableEq

/-- How `daemon_load_config` ends: with its return value and whether the object has a logger
afterwards, or with an exception. -/
inductive LoadOutcome where
  | returned (ret : Int) (hasLogger : Bool)
  | thrown
  deriving DecidableEq, Repr

/-- How the construction of the slaves ends: they run, one called `exit`, or one threw. -/
inductive ServiceOutcome where
  | running
  | exited (code : Int)
  | thrown
  deriving DecidableEq, Repr

inductive Call where
  | fopen (path : Path) (mode : Mode)
  | fread (h : Handle)
  | fwrite (h : Handle) (text : List Char)
  | unlink (path : Path)
  | stat (path : Path)
  | mkdir (path : Path)
  | readdirProc
  | print (stream : Stream) (format : String) (args : List String)
  | fault (reason : Fault)
  | getpid
  | kill (pid : Int) (signal : Signal)
  | fork
  | setup (what : Setup)
  | sigprocmask (set : List Signal)
  | sigwaitinfo (set : List Signal)
  | wait
  | loadConfig (path : Path)
  | registerServices
  | updateLoggers
  deriving DecidableEq

/-- What a call answers. -/
abbrev Response : Call → Type
  | .fopen _ _ => Except Errno Handle
  | .fread _ => List Char
  | .fwrite _ _ => Unit
  | .unlink _ => Except Errno Unit
  | .stat _ => Except Errno Unit
  | .mkdir _ => Except Errno Unit
  | .readdirProc => List String
  | .print _ _ _ => Unit
  | .fault _ => Empty
  | .getpid => Nat
  | .kill _ _ => Except Errno Unit
  | .fork => ForkResult
  | .setup _ => Except Errno Unit
  | .sigprocmask _ => Unit
  | .sigwaitinfo _ => Except Errno Signal
  | .wait => Except Errno Nat
  | .loadConfig _ => LoadOutcome
  | .registerServices => ServiceOutcome
  | .updateLoggers => Unit

/-- A program over the calls of the system. -/
abbrev Sys := Program Call Response

/-- A completed call of a process. -/
abbrev Event := Lib.Event Call Response

/-- Make a call. -/
abbrev Sys.make (c : Call) : Sys (Response c) := Program.request c

/-- Stop in undefined behaviour. -/
def Sys.fault {α : Type} (reason : Fault) : Sys α := .call (.fault reason) Empty.elim

/-- Write a message to the log. -/
def Sys.log (format : String) (args : List String) : Sys Unit :=
  Sys.make (.print .log format args)

end Robotd
