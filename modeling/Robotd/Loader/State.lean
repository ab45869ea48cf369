import Robotd.Directories
import Robotd.Lib.CLib

/-!
# The state of the configuration loader

The statics of the classes `loader` and `tcp_server`, the logger of one object of class `daemon`
or `master`, and the libraries the loader rests on: `libconfig` reads the file, `spdlog` writes
the log. What differs between their versions is a parameter of `Environment`.

`Load` is the code of the loader: a part of it goes on, makes its function return, or lets an
exception out.
-/

namespace Robotd

open Lib Lib.CLib

/-- `spdlog::level::level_enum`, in its order. -/
inductive Level where
  | trace
  | debug
  | info
  | notice
  | warn
  | err
  | critical
  | alert
  | emerg
  | off
  deriving DecidableEq, Repr

namespace Level

/-- The level as a number: a message is written when it is not below the logger's. -/
def rank : Level → Nat
  | trace => 0
  | debug => 1
  | info => 2
  | notice => 3
  | warn => 4
  | err => 5
  | critical => 6
  | alert => 7
  | emerg => 8
  | off => 9

/-- `to_str`: the entry of `level_names`. -/
def toStr : Level → String
  | trace => "trace"
  | debug => "debug"
  | info => "info"
  | notice => "notice"
  | warn => "warning"
  | err => "error"
  | critical => "critical"
  | alert => "alert"
  | emerg => "emerg"
  | off => "off"

/-- The levels that `from_str` compares with, which stops before `off`. -/
def parsed : List Level := [trace, debug, info, notice, warn, err, critical, alert, emerg]

/-- `from_str`. -/
def fromStr (name : String) : Option Level := parsed.find? fun l => l.toStr = name

/-- Every level but `off` is read back from its name. -/
theorem fromStr_toStr (l : Level) (h : l ≠ off) : fromStr l.toStr = some l := by
  cases l <;> first | rfl | exact absurd rfl h

theorem fromStr_ne_off {name : String} {l : Level} (h : fromStr name = some l) : l ≠ off := by
  intro hoff
  have hmem := List.mem_of_find?_eq_some h
  rw [hoff] at hmem
  exact absurd hmem (by decide)

end Level

/-- A value in a configuration file. -/
inductive Value where
  | int (n : Int)
  | int64 (n : Int)
  | float (text : String)
  | bool (b : Bool)
  | string (s : String)
  | list (items : List Value)
  | group (members : List (String × Value))

/-- The member of a setting, when the setting is a group that has it. -/
def Value.member (v : Value) (name : String) : Option Value :=
  match v with
  | .group members => members.lookup name
  | _ => none

/-- What `Config::readFile` comes to. -/
inductive ReadResult where
  | fileIOException
  | parseException (file : String) (line : Nat) (error : String)
  | root (settings : Value)

/-- A rotating log file. -/
structure Sink where
  id : Nat
  filename : Path
  maxSize : Nat
  deriving DecidableEq, Repr

structure Logger where
  id : Nat
  sink : Sink
  level : Level
  deriving DecidableEq, Repr

/-- The statics of `loader` and `tcp_server`, the member `log` of the object that loads, and the
number of objects made so far, which tells a new sink or logger from an old one. -/
@[ext]
structure Loader where
  logToFile : Bool
  threadCount : Nat
  lev : Level
  sink : Option Sink
  log : Option Logger
  ramsize : Nat
  address : String
  port : Nat
  made : Nat
  deriving DecidableEq, Repr

/-- What the loader asks of the libraries and the system: the file read under a name, the
conversions of `lookupValue` (`none` when the type does not fit), the number of processors, and
whether a file can be opened for appending and a sink can open its file. -/
structure Environment where
  readFile : Path → ReadResult
  asInt : Value → Option Int
  asUnsigned : Value → Option Nat
  asString : Value → Option String
  hardwareConcurrency : Nat
  opensLog : Path → Bool
  opensSink : Path → Bool

namespace Environment

variable (env : Environment)

/-- `lookupValue`: the converted member, or the old value. -/
def lookupInt (section_ : Value) (name : String) (old : Int) : Int :=
  ((section_.member name).bind env.asInt).getD old

def lookupUnsigned (section_ : Value) (name : String) (old : Nat) : Nat :=
  ((section_.member name).bind env.asUnsigned).getD old

def lookupString (section_ : Value) (name : String) (old : String) : String :=
  ((section_.member name).bind env.asString).getD old

end Environment

/-- An exception or a null pointer that ends the process. -/
inductive Thrown where
  | settingNotFound (name : String)
  | badFormat (format : String)
  | sinkNotOpened (path : Path)
  | nullLogger
  deriving DecidableEq, Repr

/-- How a part of the loader ends: it goes on with a value, the function it belongs to returns,
or an exception is thrown. -/
inductive Outcome (α : Type) where
  | next (value : α) (s : Loader)
  | returned (ret : Int) (s : Loader)
  | thrown (e : Thrown)
  deriving DecidableEq, Repr

/-- The code of the loader. -/
structure Load (α : Type) where
  run : Loader → Outcome α

namespace Load

variable {α β : Type}

/-- Go on with `f` after `x`. -/
def bind (x : Load α) (f : α → Load β) : Load β where
  run s := match x.run s with
    | .next a s' => (f a).run s'
    | .returned code s' => .returned code s'
    | .thrown e => .thrown e

instance : Monad Load where
  pure a := ⟨fun s => .next a s⟩
  bind := bind

def get : Load Loader := ⟨fun s => .next s s⟩

def modify (f : Loader → Loader) : Load Unit := ⟨fun s => .next () (f s)⟩

def throw (e : Thrown) : Load α := ⟨fun _ => .thrown e⟩

/-- `return` of the function this code belongs to. -/
def ret (code : Int) : Load α := ⟨fun s => .returned code s⟩

/-- Call a function: its return is a value for the caller. -/
def call (f : Load Unit) : Load Int where
  run s := match f.run s with
    | .next _ s' => .next 0 s'
    | .returned code s' => .next code s'
    | .thrown e => .thrown e

@[simp] theorem run_pure (a : α) (s : Loader) : (pure a : Load α).run s = .next a s := rfl

@[simp] theorem run_get_bind (f : Loader → Load β) (s : Loader) :
    (get >>= f).run s = (f s).run s := rfl

@[simp] theorem run_modify (f : Loader → Loader) (s : Loader) :
    (modify f).run s = .next () (f s) := rfl

@[simp] theorem run_modify_bind (f : Loader → Loader) (g : Unit → Load β) (s : Loader) :
    (modify f >>= g).run s = (g ()).run (f s) := rfl

@[simp] theorem run_pure_bind (a : α) (f : α → Load β) (s : Loader) :
    (pure a >>= f).run s = (f a).run s := rfl

@[simp] theorem run_throw (e : Thrown) (s : Loader) : (throw e : Load α).run s = .thrown e := rfl

@[simp] theorem run_ret (code : Int) (s : Loader) :
    (ret code : Load α).run s = .returned code s := rfl

@[simp] theorem run_ite (c : Prop) [Decidable c] (x y : Load α) (s : Loader) :
    (if c then x else y : Load α).run s = if c then x.run s else y.run s := by
  split <;> rfl

variable {x : Load α} {f : α → Load β} {s s' : Loader}

theorem bind_next {a : α} (h : x.run s = .next a s') : (x >>= f).run s = (f a).run s' := by
  show (bind x f).run s = _
  simp only [bind, h]

theorem bind_returned {code : Int} (h : x.run s = .returned code s') :
    (x >>= f).run s = .returned code s' := by
  show (bind x f).run s = _
  simp only [bind, h]

theorem bind_thrown {e : Thrown} (h : x.run s = .thrown e) : (x >>= f).run s = .thrown e := by
  show (bind x f).run s = _
  simp only [bind, h]

theorem call_next {g : Load Unit} (h : g.run s = .next () s') : (call g).run s = .next 0 s' := by
  simp only [call, h]

theorem call_returned {g : Load Unit} {code : Int} (h : g.run s = .returned code s') :
    (call g).run s = .next code s' := by
  simp only [call, h]

theorem call_thrown {g : Load Unit} {e : Thrown} (h : g.run s = .thrown e) :
    (call g).run s = .thrown e := by
  simp only [call, h]

end Load

end Robotd
