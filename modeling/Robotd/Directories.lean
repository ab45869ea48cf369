import Robotd.Lib.FileSystem

/-!
# Names, directories and exit codes

The constants of `directories.cpp`, `config.h` and `definitions.hpp`. `CONFIG_FILE` is the only
one that the program assigns, so only its initial value stands here.
-/

namespace Robotd

open Lib

/-- `PACKAGE` and `PACKAGE_NAME`. -/
def package : String := "robotd"

/-- `PACKAGE_STRING`. -/
def packageString : String := "robotd 1.0"

def runDir : Path := "/var/run"

def etcConfDir : Path := "/etc"

def runConfDir : Path := runDir ++ "/" ++ package

/-- `CONFIG_LOAD`: the file that records the path of the loaded configuration. -/
def configLoad : Path := runDir ++ "/" ++ package ++ "/" ++ "configuration"

def pidFile : Path := runDir ++ "/" ++ package ++ ".pid"

/-- The initial value of `CONFIG_FILE`. -/
def defaultConfigFile : Path := etcConfDir ++ "/" ++ package ++ "/" ++ "General.conf"

def childNeedTerminate : Int := 2

def childNeedWork : Int := 3

def exitSuccess : Int := 0

def exitFailure : Int := 1

theorem configLoad_ne_pidFile : configLoad ≠ pidFile := by decide

@[simp] theorem dirname_configLoad : dirname configLoad = runConfDir := by decide

end Robotd
