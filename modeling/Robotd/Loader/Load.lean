import Robotd.Loader.State

/-!
# Loading the configuration

`daemonLoadConfig` and the functions it calls, after `loader_impl.hpp` and `tcp_server.cpp`, with
one slave, `tcp_server`. The function writes the statics one by one between its checks; each
check with the write that follows it is a definition of its own.

Messages on the console, which the loader writes before it has a log, are left out: they tell
what the messages to the log tell.
-/

namespace Robotd

open Lib Lib.CLib Load

/-- The number of placeholders in a format. -/
def placeholders : List Char → Nat
  | '{' :: '}' :: rest => placeholders rest + 1
  | _ :: rest => placeholders rest
  | [] => 0

/-- A message to the log. It throws when it is to be written and lacks an argument. Without
arguments it is no format but a text. -/
def logMessage (level : Level) (format : String) (args : List String) : Load Unit := do
  match (← get).log with
  | none => throw .nullLogger
  | some logger =>
    if logger.level.rank ≤ level.rank ∧ args ≠ [] ∧ args.length < placeholders format.toList then
      throw (.badFormat format)
    else
      pure ()

/-- A failed check: a warning and the return value, which depend on where messages go. -/
def reject {α : Type} (format : String) (args : List String) : Load α := do
  if (← get).logToFile = true then
    logMessage .warn format args
    ret childNeedWork
  else
    ret (-1)

/-- `operator[]` of a setting. -/
def setting (v : Value) (name : String) : Load Value :=
  match v.member name with
  | some m => pure m
  | none => throw (.settingNotFound name)

/-- `tcp_server::tag`. -/
def tcpServerTag : String := "Server(Slave)"

def loadPort (env : Environment) (robotServer : Value) : Load Unit := do
  let tmp := env.lookupUnsigned robotServer "Port" (← get).port
  if tmp = 0 then
    reject "<{}> port number must not be zero." [tcpServerTag]
  else if 65535 < tmp then
    -- two placeholders and one argument
    reject "<{}> {} port number must be less than 65535." [tcpServerTag]
  else
    modify fun s => { s with port := tmp }
    if (← get).logToFile = true then
      logMessage .info "<{}> TCP Server address: {}" [tcpServerTag, (← get).address]
      logMessage .info "<{}> TCP Server port: {}" [tcpServerTag, toString (← get).port]

/-- `tcp_server::load_config`. -/
def tcpServerLoadConfig (env : Environment) (settings : Value) : Load Unit := do
  let robotServer ← setting settings "TCPServer"
  modify fun s => { s with address := env.lookupString robotServer "Address" s.address }
  loadPort env robotServer

/-- `load_slave_config`, for the one slave. -/
def loadSlaveConfig (env : Environment) (settings : Value) : Load Int :=
  call (tcpServerLoadConfig env settings)

/-- The match of the regular expression of `size_parse`: digits and at most one suffix. -/
def sizeMatch (size : String) : Option (List Char × Option Char) :=
  let digits := size.toList.takeWhile Char.isDigit
  match size.toList.dropWhile Char.isDigit with
  | [] => some (digits, none)
  | [c] => if c ∈ ['k', 'K', 'm', 'M'] then some (digits, some c) else none
  | _ => none

/-- `atoi` as it is stored in an `unsigned long`. -/
def atoiUnsigned (digits : List Char) : Nat := (atoi digits % 2 ^ 64).toNat

/-- `size_parse`. The second parameter writes to the variable it was given a reference to. -/
def sizeParse (size : String) (write : Nat → Load Unit) : Load Nat := do
  match sizeMatch size with
  | none => reject "Invalid Size value = {}!" [size]
  | some (digits, suffix) =>
    let logsize := atoiUnsigned digits
    write logsize
    if logsize = 0 then
      reject "Size must not be zero ({})!" [String.ofList digits]
    else
      match suffix with
      -- `dummy[0]` of an empty match is the end of the string
      | none => return logsize
      | some c =>
        if c = 'k' ∨ c = 'K' then
          write (logsize * 1024 % 2 ^ 64)
          return logsize * 1024 % 2 ^ 64
        else if c = 'm' ∨ c = 'M' then
          write (logsize * (1024 * 1024) % 2 ^ 64)
          return logsize * (1024 * 1024) % 2 ^ 64
        else
          -- not reached: the expression has no other suffix
          reject "What's happened? regex lies ({})!" [String.ofList [c]]

/-- Reading the file. -/
def readConfig (env : Environment) (filename : Path) : Load Value :=
  match env.readFile filename with
  | .root settings => pure settings
  | .fileIOException => reject "I/O error while reading file {}" [filename]
  | .parseException _ _ _ => reject "Parse error at" []

/-- The number of slaves, which stands in for an unknown number of processors. -/
def slaveCount : Nat := 1

/-- The variable `max_threads`, of 16 bits. -/
def Environment.maxThreads (env : Environment) : Nat :=
  if env.hardwareConcurrency % 2 ^ 16 = 0 then slaveCount else env.hardwareConcurrency % 2 ^ 16

def loadThreadCount (env : Environment) (section_ : Value) : Load Unit := do
  let dummy := env.lookupInt section_ "ThreadCount" (← get).threadCount
  if dummy ≤ env.maxThreads ∧ 0 < dummy ∧ dummy < 65535 then
    modify fun s => { s with threadCount := dummy.toNat }
  else
    reject "ThreadCount number must be less then or equal to {}. ThreadCount={}"
      [toString env.maxThreads, toString dummy]

def loadLogName (env : Environment) (section_ : Value) : Load String := do
  let logname := env.lookupString section_ "LogName" ""
  if logname = "" then
    reject "Couldn't found Logname {}" ["in the configuration file or it's empty."]
  else if env.opensLog logname = true then
    return logname
  else
    reject "Failed to open Logfile ({})" ["%m"]

/-- The default of `LogLevel`: the level of the log in use, and `info` before there is one. -/
def defaultLevel : Load String := do
  if (← get).logToFile = true then
    match (← get).log with
    | none => throw .nullLogger
    | some logger => return logger.level.toStr
  else
    return Level.info.toStr

def loadLogLevel (env : Environment) (section_ : Value) : Load String := do
  let loglevel := (env.lookupString section_ "LogLevel" (← defaultLevel)).toLower
  match Level.fromStr loglevel with
  | some lev =>
    modify fun s => { s with lev := lev }
    return loglevel
  | none => reject "Invalid value of the loglevel ({})" [loglevel]

/-- A new sink and a new logger in its place. -/
def Loader.reopen (s : Loader) (logname : String) (logsize : Nat) : Loader :=
  let sink : Sink := ⟨s.made, logname ++ ".log", logsize⟩
  { s with sink := some sink, log := some ⟨s.made + 1, sink, s.lev⟩, made := s.made + 2 }

def openLog (env : Environment) (logname : String) (logsize : Nat) : Load Unit :=
  if env.opensSink (logname ++ ".log") = true then modify fun s => s.reopen logname logsize
  else throw (.sinkNotOpened (logname ++ ".log"))

/-- The list of the loaded options, when it goes to the log. -/
def logOptions (configFile : Path) (logname sizeS loglevel : String) : Load Unit := do
  logMessage .debug "Log config loaded" []
  if (← get).logToFile = true then
    logMessage .info "===========================LOADED OPTIONS============================" []
    logMessage .info "{} using these options:" [package]
    logMessage .info "Configuration file: {}" [configFile]
    logMessage .info "Count of the threads: {}" [toString (← get).threadCount]
    logMessage .info "LogName: {}.log" [logname]
    logMessage .info "Max Log Size: {}" [sizeS]
    logMessage .info "Log level: {}" [loglevel]
    logMessage .info "Max RAM Size: {}" [toString (← get).ramsize]

/-- The end of `daemon_load_config`, once its own checks have passed: the new log, the list of
options and the slaves. -/
def finishLoad (env : Environment) (configFile : Path) (root : Value) (logname : String)
    (logsize : Nat) (sizeS loglevel : String) : Load Unit := do
  openLog env logname logsize
  logOptions configFile logname sizeS loglevel
  -- the slaves still see whether this is the first load
  let code ← loadSlaveConfig env root
  if (← get).logToFile = true then
    logMessage .info "=====================================================================" []
  modify fun s => { s with logToFile := true }
  ret code

/-- `daemon_load_config`. The global `CONFIG_FILE` only appears in a message. -/
def daemonLoadConfig (env : Environment) (configFile filename : Path) : Load Unit := do
  let root ← readConfig env filename
  let daemonSection ← setting root "Daemon"
  loadThreadCount env daemonSection
  let logname ← loadLogName env daemonSection
  let loglevel ← loadLogLevel env daemonSection
  -- the reference is to a local variable
  let logsize ← sizeParse (env.lookupString daemonSection "Size" "") fun _ => pure ()
  let sizeS := env.lookupString daemonSection "MaxRamUse" ""
  let _ ← sizeParse sizeS fun n => modify fun s => { s with ramsize := n }
  finishLoad env configFile root logname logsize sizeS loglevel

end Robotd
