import Robotd.Call
import Robotd.Lib.CLib

/-!
# The command line

`parseOptions` and the functions it calls, after `daemon/cli_parser.cpp`. The state of the
process is the global `CONFIG_FILE` and `errno`; a call that fails sets `errno`, and a
conversion by `fscanf` that stores nothing leaves it alone. The current directory is a
parameter: no function changes it.

The section of `parse_options` that runs when the daemon is alive is `daemonProcess`, and its
block on `CONFIG_LOAD` is `restoreConfig`, which answers with a value to return at once.
-/

namespace Robotd

open Lib Lib.CLib

/-- The variables that the command line functions share. -/
structure Globals where
  configFile : Path
  errno : Nat

abbrev Cli := StateT Globals Sys

namespace Cli

def errno : Cli Int := do return ((← get).errno : Int)

def setErrno (n : Nat) : Cli Unit := modify fun g => { g with errno := n }

def setConfigFile (path : Path) : Cli Unit := modify fun g => { g with configFile := path }

/-- `fopen`; `none` is the null pointer. -/
def fopen (path : Path) (mode : Mode) : Cli (Option Handle) := do
  match ← Sys.make (.fopen path mode) with
  | .ok h => return some h
  | .error e => setErrno e; return none

def fread (h : Handle) : Cli (List Char) := Sys.make (.fread h)

/-- `fscanf` of one 16-bit number. A magnitude that `strtoul` cannot hold sets `errno`. -/
def fscanfU16 (h : Handle) : Cli Scan := do
  let scan := scanU16 (← fread h)
  modify fun g => if scan.outOfRange then { g with errno := Errno.erange } else g
  return scan

/-- `fprintf` and `fflush` of one text. -/
def fwrite (h : Handle) (text : List Char) : Cli Unit := Sys.make (.fwrite h text)

/-- What a call reports: `false` stands for -1, and then `errno` is set. -/
def report : Except Errno Unit → Cli Bool
  | .ok _ => return true
  | .error e => do setErrno e; return false

def unlink (path : Path) : Cli Bool := do report (← Sys.make (.unlink path))

def stat (path : Path) : Cli Bool := do report (← Sys.make (.stat path))

def mkdir (path : Path) : Cli Bool := do report (← Sys.make (.mkdir path))

def kill (pid : Int) (signal : Signal) : Cli Bool := do report (← Sys.make (.kill pid signal))

/-- The names in `/proc`, as `opendir` and the calls of `readdir` list them. -/
def readdirProc : Cli (List String) := Sys.make .readdirProc

def printf (format : String) (args : List String) : Cli Unit :=
  Sys.make (.print .stdout format args)

/-- A message on `stderr`; `%m` stands for the text of `errno`. -/
def eprintf (format : String) (args : List String) : Cli Unit :=
  Sys.make (.print .stderr format args)

def fault {α : Type} (reason : Fault) : Cli α := fun _ => Sys.fault reason

end Cli

open Cli

def wrongOptions : Int := 1

def helpOption : Int := 2

def dontDoAnything : Int := 3

/-- The option list: the name of an option and whether it needs a value. -/
def options : List (String × Bool) :=
  [("load", true), ("reload", false), ("restart", false), ("stop", false), ("status", false),
    ("help", false)]

/-- `argv[i]`. -/
def argument (argv : List String) (i : Nat) : String := argv.getD i ""

/-- `options[i].key`. -/
def key (i : Nat) : String := (options.map Prod.fst).getD i ""

/-- `false_parameters`: the short help. -/
def falseParameters : Cli Unit :=
  printf ("%s\nUsage: %s  <option>\n\nOptions:\n" ++ String.join (options.map fun option =>
    "\t" ++ option.1 ++ if option.2 then " [filename.cfg]\n" else " \r\n"))
    [packageString, package]

/-- `help`: the long help, without its lines on the licence and the author. -/
def help : Cli Unit :=
  printf (String.join
    ["%s - cross-platform UNIX daemonized server.\r\n",
      "This program can be used for development your own daemon.\r\n",
      "This is free software: you are free to change and redistribute it.\r\n",
      "There is NO WARRANTY, to the extent permitted by law.\r\n",
      "Usage: %s <option>\r\n\r\n",
      "Options:\r\n",
      "\thelp                  show this message\r\n",
      "\tload [filename.cfg]   run daemon with configuration loaded from filename.cfg.\r\n",
      "\t                      Note: It can be only one copy of the daemon run in the system.\r\n",
      "\treload                reload configuration file without stopping daemon.\r\n",
      "\tstop                  terminate daemon.\r\n",
      "\trestart               restart daemon with the same configuration.\r\n",
      "\tstatus                show status of the daemon. If daemon is run you will see its PID.\r\n"])
    [packageString, package]

/-- The `stat` and `mkdir` of `RUN_CONF_DIR`; `false` when it cannot be made. -/
def makeRunConfDir : Cli Bool := do
  if ← stat runConfDir then return true
  else mkdir runConfDir

/-- Open `CONFIG_LOAD` for writing, making its directory when the first attempt finds none;
`none` when `option_load` is to return `errno`. -/
def openConfigLoad : Cli (Option Handle) := do
  match ← fopen configLoad .w with
  | some configLoadDesc => return some configLoadDesc
  | none =>
    if (← get).errno = Errno.enoent then
      if ← makeRunConfDir then
        match ← fopen configLoad .w with
        | some configLoadDesc => return some configLoadDesc
        | none =>
          eprintf "Error: %s - %m\n" [configLoad]
          return none
      else
        eprintf "Error: Failed to create directory %s%s: %m\n" [runConfDir, configLoad]
        return none
    else
      eprintf "Error: Failed to open directory %s%s: %m\n" [runConfDir, configLoad]
      return none

/-- The second half of `option_load`: record `CONFIG_FILE` in `CONFIG_LOAD`. -/
def recordConfig : Cli Int := do
  match ← openConfigLoad with
  | none => errno
  | some configLoadDesc =>
    fwrite configLoadDesc ((← get).configFile.toList ++ ['\n'])
    return 0

/-- `option_load`. -/
def optionLoad (cwd : Path) : Cli Int := do
  -- the directory of the caller comes before the one of the installation
  match ← fopen (cwd ++ "/" ++ (← get).configFile) .r with
  | none =>
    setConfigFile (etcConfDir ++ "/" ++ (← get).configFile)
    match ← fopen (← get).configFile .r with
    | none =>
      eprintf "Error: Failed to open config file: %m\n" []
      errno
    | some _ => recordConfig
  | some _ =>
    setConfigFile (cwd ++ "/" ++ (← get).configFile)
    recordConfig

/-- `no_daemon_process`. -/
def noDaemonProcess (cwd : Path) (argv : List String) : Cli Int := do
  let option := argument argv 1
  if option = key 3 then
    return dontDoAnything
  else if option = key 4 then
    printf "%s stopped\r\n" [package]
    return dontDoAnything
  -- `load`, `reload` and `restart` all start a daemon here
  else if option = key 0 ∨ option = key 1 ∨ option = key 2 then
    if argv.length = 3 then
      setConfigFile (argument argv 2)
      optionLoad cwd
    else if argv.length = 2 then
      optionLoad cwd
    else
      printf "Usage: %s load [filename.cfg]\r\n" [package]
      return wrongOptions
  else
    printf "Undefined option\n%s\r\n" [option]
    falseParameters
    return wrongOptions

/-- The block of `parse_options` that reads, repairs or recreates `CONFIG_LOAD`. -/
def restoreConfig : Cli (Option Int) := do
  match ← fopen configLoad .r with
  | some existConf =>
    let tmp := scanWord (← fread existConf)
    -- `char tmp[256]`, with room for the end of the word
    if 256 ≤ tmp.length then
      fault .bufferOverflow
    else
      let s := (← get).configFile
      setConfigFile (String.ofList tmp)
      if tmp.isEmpty then
        match ← fopen configLoad .w with
        -- the new stream is written to without a check
        | none => fault .nullStream
        | some existConf =>
          -- the name from before, without the end of the line
          fwrite existConf s.toList
          eprintf "Error: Failed to read %s: %m, fscanf returned %i\n" [configLoad, "-1"]
          return some (← errno)
      else
        return none
  | none =>
    if (← get).errno = Errno.enoent then
      if ← makeRunConfDir then
        match ← fopen configLoad .w with
        | none =>
          eprintf "Error: I don't understand, why file %s couldn't be created...: %m\n"
            [configLoad]
          return some (← errno)
        | some existConf =>
          fwrite existConf
            ((etcConfDir ++ "/" ++ package ++ "/" ++ configLoad).toList ++ ['\n'])
          return none
      else
        eprintf "Error: Failed to create directory %s%s: %m\n" [runConfDir, configLoad]
        return some (← errno)
    else
      eprintf "Error: Failed to open directory %s%s: %m\n" [runConfDir, configLoad]
      return some (← errno)

/-- Send a signal to the daemon; the message and `errno` when it cannot be sent, and else `ret`. -/
def signalDaemon (pid : Nat) (signal : Signal) (ret : Int) (format : String)
    (args : List String) : Cli Int := do
  if ← kill pid signal then return ret
  else
    eprintf format args
    errno

/-- The section of `parse_options` for a correct PID file and a process that exists. -/
def daemonProcess (cwd : Path) (argv : List String) (pid : Nat) : Cli Int := do
  let option := argument argv 1
  if option = key 4 then
    printf "%s run. PID: %i\r\n" [package, toString pid]
    return dontDoAnything
  else
    match ← restoreConfig with
    | some ret => return ret
    | none =>
      if option = key 0 then
        if argv.length = 3 then
          setConfigFile (argument argv 2)
          let ret ← optionLoad cwd
          if ret ≠ 0 then return ret
          else signalDaemon pid .sighup dontDoAnything "Can't load config: %m\n" []
        else
          printf "Usage: %s load [filename.cfg]\n" [package]
          return wrongOptions
      else if option = key 1 then
        signalDaemon pid .sighup dontDoAnything "Can't reload %s: %m\n" [package]
      else if option = key 2 then
        printf "Current config: %s\n" [(← get).configFile]
        signalDaemon pid .sigterm 0 "Can't restart %s: %m\n" [package]
      else if option = key 3 then
        if ← kill pid .sigterm then
          printf "%s stopped: %i\n" [package, toString pid]
          return dontDoAnything
        else
          eprintf "Can't stop %s: %m\n" [package]
          errno
      else
        printf "Undefined option\n%s\n" [option]
        falseParameters
        return wrongOptions

/-- The test of one entry of `/proc`: it starts with a digit and `atoi` gives the process id. -/
def entryNames (pid : Nat) (name : String) : Bool :=
  (name.toList.head?.any Char.isDigit) && atoi name.toList == pid

/-- `parse_options`, run in the directory `cwd`. -/
def parseOptions (cwd : Path) (argv : List String) : Cli Int := do
  if ¬ (argv.length = 2 ∨ argv.length = 3) then
    falseParameters
    return wrongOptions
  else if argument argv 1 = key 5 then
    help
    return helpOption
  else
    match ← fopen pidFile .r with
    | none => noDaemonProcess cwd argv
    | some exist =>
      let scan ← fscanfU16 exist
      if scan.wordsRead < 1 then
        eprintf "Error: Failed to read PID-file: %m words read %i\n" [toString scan.wordsRead]
        errno
      else if (← readdirProc).any (entryNames scan.value) then
        daemonProcess cwd argv scan.value
      -- no process has the number, so the daemon has ended
      else if ← unlink pidFile then
        noDaemonProcess cwd argv
      else
        eprintf "Can't remove PID-file: %m\n" []
        errno

end Robotd
