import Robotd.Loader.Fresh

/-!
# Values of another type

The comment in the shipped configuration file promises that a value of the wrong type is ignored
and the default is used. `lookupValue` leaves its argument alone then, and what it held before
meets the next check. `ill_typed_fall_back_iff` says for which keys the promise is kept.
-/

namespace Robotd

open Lib Lib.CLib Load

/-- The keys of the two sections. -/
inductive Key where
  | logName
  | logLevel
  | size
  | threadCount
  | maxRamUse
  | address
  | port
  deriving DecidableEq, Repr

namespace Key

def section_ : Key → String
  | address | port => "TCPServer"
  | _ => "Daemon"

def name : Key → String
  | logName => "LogName"
  | logLevel => "LogLevel"
  | size => "Size"
  | threadCount => "ThreadCount"
  | maxRamUse => "MaxRamUse"
  | address => "Address"
  | port => "Port"

/-- The value of a key in a configuration. -/
def value (k : Key) (c : Value) : Option Value :=
  (c.member k.section_).bind fun v => v.member k.name

section Values

variable (env : Environment) (c : Value)

def text (k : Key) : Option String := (k.value c).bind env.asString

def int (k : Key) : Option Int := (k.value c).bind env.asInt

def unsigned (k : Key) : Option Nat := (k.value c).bind env.asUnsigned

/-- `lookupValue` fails: the key is missing, or its value has another type. -/
def Ignored : Key → Prop
  | threadCount => threadCount.int env c = none
  | port => port.unsigned env c = none
  | k => k.text env c = none

/-- The value has its type and passes the checks of the loader. -/
def Valid : Key → Prop
  | threadCount => ∃ n, threadCount.int env c = some n ∧ n ≤ env.maxThreads ∧ 0 < n ∧ n < 65535
  | logName => ∃ name, logName.text env c = some name ∧ name ≠ "" ∧ env.opensLog name = true ∧
      env.opensSink (name ++ ".log") = true
  | logLevel => ∃ text lev, logLevel.text env c = some text ∧ Level.fromStr text.toLower = some lev
  | port => ∃ n, port.unsigned env c = some n ∧ n ≠ 0 ∧ n ≤ 65535
  | address => ∃ text, address.text env c = some text
  | k => ∃ text n, k.text env c = some text ∧ parseSize text = .bytes n

/-- The loader has the value of this key. -/
def Holds (s : Loader) : Key → Prop
  | threadCount => threadCount.int env c = some (s.threadCount : Int)
  | logName => ∃ name, logName.text env c = some name ∧
      s.sink.map Sink.filename = some (name ++ ".log")
  | logLevel => ∃ text, logLevel.text env c = some text ∧ Level.fromStr text.toLower = some s.lev ∧
      s.level = some s.lev
  | size => ∃ text n, size.text env c = some text ∧ parseSize text = .bytes n ∧
      s.sink.map Sink.maxSize = some n
  | maxRamUse => ∃ text, maxRamUse.text env c = some text ∧ parseSize text = .bytes s.ramsize
  | address => address.text env c = some s.address
  | port => port.unsigned env c = some s.port

end Values

/-- The loader has the default of this key. The code has none for the log's name, its size and the
limit on the memory, of which nothing is asked here. -/
def AtDefault (s : Loader) : Key → Prop
  | threadCount => s.threadCount = 2
  | logLevel => s.lev = .info ∧ s.level = some .info
  | address => s.address = "127.0.0.1"
  | port => s.port = 3333
  | _ => True

end Key

/-- The second configuration is the first with the values of these keys removed or replaced by
values of another type. -/
structure Replaced (env : Environment) (keys : Set Key) (c c' : Value) : Prop where
  daemonSection : ∃ v, c'.member "Daemon" = some v
  tcpServer : ∃ server, c'.member "TCPServer" = some server
  same : ∀ k ∉ keys, k.value c' = k.value c
  ignored : ∀ k ∈ keys, k.Ignored env c'

/-- The load of a new process returns 0; it has the defaults for these keys and the values of the
configuration for the others. -/
def FallsBack (env : Environment) (configFile filename : Path) (keys : Set Key) (c : Value) : Prop :=
  ∃ s, (daemonLoadConfig env configFile filename).run Loader.initial = .returned 0 s ∧
    (∀ k ∈ keys, k.AtDefault s) ∧ ∀ k ∉ keys, k.Holds env c s

/-- None of the keys is without a default, and the default of `ThreadCount` is allowed on this
machine. -/
def HaveDefaults (env : Environment) (keys : Set Key) : Prop :=
  Key.logName ∉ keys ∧ Key.size ∉ keys ∧ Key.maxRamUse ∉ keys ∧
    (Key.threadCount ∈ keys → 2 ≤ env.maxThreads)

variable {env : Environment} {configFile filename : Path} {keys : Set Key} {c c' v server : Value}
  {s : Loader}

/-! ## What the loader finds -/

/-- The two sections, with what the loader looks up in them. -/
structure Finds (env : Environment) (c' v server : Value) : Prop where
  threads : ∀ old, threads env v old = (Key.threadCount.int env c').getD old
  name : logName env v = (Key.logName.text env c').getD ""
  level : ∀ current, requestedLevel env v current =
    Level.fromStr ((Key.logLevel.text env c').getD current.toStr).toLower
  size : logSize env v = parseSize ((Key.size.text env c').getD "")
  ram : ramUse env v = parseSize ((Key.maxRamUse.text env c').getD "")
  address : ∀ old, requestedAddress env server old = (Key.address.text env c').getD old
  port : ∀ old, requestedPort env server old = (Key.port.unsigned env c').getD old

theorem finds_sections (hv : c'.member "Daemon" = some v)
    (hserver : c'.member "TCPServer" = some server) : Finds env c' v server := by
  have hdaemon : ∀ k : Key, k.section_ = "Daemon" → k.value c' = v.member k.name := by
    intro k hk
    rw [Key.value, hk, hv, Option.bind_some]
  have htcp : ∀ k : Key, k.section_ = "TCPServer" → k.value c' = server.member k.name := by
    intro k hk
    rw [Key.value, hk, hserver, Option.bind_some]
  refine ⟨fun old => ?_, ?_, fun current => ?_, ?_, ?_, fun old => ?_, fun old => ?_⟩
  · rw [Key.int, hdaemon _ rfl]
    rfl
  · rw [Key.text, hdaemon _ rfl]
    rfl
  · rw [Key.text, hdaemon _ rfl]
    rfl
  · rw [Key.text, hdaemon _ rfl]
    rfl
  · rw [Key.text, hdaemon _ rfl]
    rfl
  · rw [Key.text, htcp _ rfl]
    rfl
  · rw [Key.unsigned, htcp _ rfl]
    rfl

theorem Replaced.text_eq (h : Replaced env keys c c') {k : Key} (hk : k ∉ keys) :
    k.text env c' = k.text env c := by
  rw [Key.text, Key.text, h.same k hk]

/-! ## Each check -/

theorem Replaced.threads (h : Replaced env keys c c') (hfinds : Finds env c' v server)
    (hvalid : Key.threadCount ∉ keys → Key.threadCount.Valid env c)
    (hmax : Key.threadCount ∈ keys → 2 ≤ env.maxThreads) :
    ThreadsPassOf env 1 v 2 ∧
      (Key.threadCount ∈ keys → (Robotd.threads env v 2).toNat = 2) ∧
      (Key.threadCount ∉ keys →
        Key.threadCount.int env c = some ((Robotd.threads env v 2).toNat : Int)) := by
  rw [ThreadsPassOf, hfinds.threads]
  by_cases hk : Key.threadCount ∈ keys
  · have hnone : Key.threadCount.int env c' = none := h.ignored _ hk
    have hle := hmax hk
    rw [hnone]
    show ((2 : Int) ≤ (env.maxThreads : Int) ∧ (0 : Int) < 2 ∧ (2 : Int) < 65535) ∧ _
    exact ⟨by omega, fun _ => rfl, fun hno => absurd hk hno⟩
  · obtain ⟨n, hn, hle, hpos, hlt⟩ := hvalid hk
    have hsame : Key.threadCount.int env c' = some n := by
      rw [Key.int, h.same _ hk]
      exact hn
    rw [hsame, Option.getD_some]
    refine ⟨⟨hle, hpos, hlt⟩, fun hyes => absurd hyes hk, fun _ => ?_⟩
    rw [hn]
    exact congrArg some (Int.toNat_of_nonneg hpos.le).symm

theorem Replaced.level (h : Replaced env keys c c') (hfinds : Finds env c' v server)
    (hvalid : Key.logLevel ∉ keys → Key.logLevel.Valid env c) :
    ∃ lev, requestedLevel env v .info = some lev ∧ (Key.logLevel ∈ keys → lev = .info) ∧
      (Key.logLevel ∉ keys →
        ∃ text, Key.logLevel.text env c = some text ∧ Level.fromStr text.toLower = some lev) := by
  rw [hfinds.level]
  by_cases hk : Key.logLevel ∈ keys
  · have hnone : Key.logLevel.text env c' = none := h.ignored _ hk
    rw [hnone]
    exact ⟨.info, by decide +kernel, fun _ => rfl, fun hno => absurd hk hno⟩
  · obtain ⟨text, lev, htext, hlev⟩ := hvalid hk
    rw [h.text_eq hk, htext, Option.getD_some]
    exact ⟨lev, hlev, fun hyes => absurd hyes hk, fun _ => ⟨text, rfl, hlev⟩⟩

theorem Replaced.address (h : Replaced env keys c c') (hfinds : Finds env c' v server)
    (hvalid : Key.address ∉ keys → Key.address.Valid env c) (old : String) :
    (Key.address ∈ keys → requestedAddress env server old = old) ∧
      (Key.address ∉ keys → Key.address.text env c = some (requestedAddress env server old)) := by
  rw [hfinds.address]
  constructor
  · intro hk
    have hnone : Key.address.text env c' = none := h.ignored _ hk
    rw [hnone, Option.getD_none]
  · intro hk
    obtain ⟨text, htext⟩ := hvalid hk
    rw [h.text_eq hk, htext, Option.getD_some]

theorem Replaced.port (h : Replaced env keys c c') (hfinds : Finds env c' v server)
    (hvalid : Key.port ∉ keys → Key.port.Valid env c) :
    requestedPort env server 3333 ≠ 0 ∧ requestedPort env server 3333 ≤ 65535 ∧
      (Key.port ∈ keys → requestedPort env server 3333 = 3333) ∧
      (Key.port ∉ keys → Key.port.unsigned env c = some (requestedPort env server 3333)) := by
  rw [hfinds.port]
  by_cases hk : Key.port ∈ keys
  · have hnone : Key.port.unsigned env c' = none := h.ignored _ hk
    rw [hnone, Option.getD_none]
    exact ⟨by omega, by omega, fun _ => rfl, fun hno => absurd hk hno⟩
  · obtain ⟨n, hn, hne, hle⟩ := hvalid hk
    have hsame : Key.port.unsigned env c' = some n := by
      rw [Key.unsigned, h.same _ hk]
      exact hn
    rw [hsame, Option.getD_some]
    exact ⟨hne, hle, fun hyes => absurd hyes hk, fun _ => hn⟩

/-- A size that is ignored is the empty text, whose number is zero. -/
theorem Replaced.parse_eq (h : Replaced env keys c c') {k : Key}
    (hignored : k.Ignored env c' → k.text env c' = none) :
    (k ∈ keys → parseSize ((k.text env c').getD "") = .zero) ∧
      (k ∉ keys → k.text env c' = k.text env c) := by
  constructor
  · intro hk
    rw [hignored (h.ignored k hk), Option.getD_none]
    decide
  · intro hk
    exact h.text_eq hk

/-! ## The whole load -/

/-- A load that returns 0 has found a name and two sizes, and allowed the threads. -/
theorem haveDefaults_of_loads {lev : Level} {logsize ram : Nat} (h : Replaced env keys c c')
    (hfinds : Finds env c' v server)
    (hloads : Loads env filename Loader.initial c' v server lev logsize ram) :
    HaveDefaults env keys := by
  refine ⟨fun hk => ?_, fun hk => ?_, fun hk => ?_, fun hk => ?_⟩
  · have hnone : Key.logName.text env c' = none := h.ignored _ hk
    refine hloads.levelled.name.1 ?_
    rw [hfinds.name, hnone, Option.getD_none]
  · have hsize := hloads.size
    rw [hfinds.size, (h.parse_eq id).1 hk] at hsize
    cases hsize
  · have hram := hloads.ram
    rw [hfinds.ram, (h.parse_eq id).1 hk] at hram
    cases hram
  · have hnone : Key.threadCount.int env c' = none := h.ignored _ hk
    have hle : (2 : Int) ≤ env.maxThreads := by
      have hthreads := hloads.levelled.threads.1
      rw [hfinds.threads, hnone] at hthreads
      exact hthreads
    omega

/-- With defaults for the missing keys and valid values for the others every check passes. -/
theorem fallsBack_of_haveDefaults (h : Replaced env keys c c')
    (hread : env.readFile filename = .root c') (hvalid : ∀ k ∉ keys, k.Valid env c)
    (hdefaults : HaveDefaults env keys) : FallsBack env configFile filename keys c := by
  obtain ⟨v, hv⟩ := h.daemonSection
  obtain ⟨server, hserver⟩ := h.tcpServer
  have hfinds : Finds env _ _ _ := finds_sections hv hserver
  obtain ⟨hname, hsize, hram, hmax⟩ := hdefaults
  -- the three keys without a default have valid values
  obtain ⟨name, hnamed, hne, hopens, hsink⟩ := hvalid _ hname
  obtain ⟨sizeText, logsize, hsizeText, hlogsize⟩ := hvalid _ hsize
  obtain ⟨ramText, ram, hramText, hramsize⟩ := hvalid _ hram
  obtain ⟨hpass, hthreads, hthreads'⟩ := h.threads hfinds (hvalid _) hmax
  obtain ⟨lev, hlev, hlevel, hlevel'⟩ := h.level hfinds (hvalid _)
  obtain ⟨haddress, haddress'⟩ := h.address hfinds (hvalid _) "127.0.0.1"
  obtain ⟨hzero, hhigh, hport, hport'⟩ := h.port hfinds (hvalid _)
  have hlogname : logName env v = name := by
    rw [hfinds.name, h.text_eq hname, hnamed, Option.getD_some]
  have hloads : Loads env filename Loader.initial c' v server lev logsize ram := by
    refine ⟨⟨hread, hv, hpass, ?_, hlev⟩, ?_, ?_, ?_, hserver, hzero, hhigh⟩
    · rw [NamePasses, hlogname]
      exact ⟨hne, hopens⟩
    · rw [hfinds.size, h.text_eq hsize, hsizeText]
      exact hlogsize
    · rw [hfinds.ram, h.text_eq hram, hramText]
      exact hramsize
    · rw [hlogname]
      exact hsink
  refine ⟨_, (daemonLoadConfig_zero_iff (by decide)).mpr
    ⟨c', v, server, lev, logsize, ram, hloads, rfl⟩, fun k hk => ?_, fun k hk => ?_⟩
  · cases k with
    | threadCount => exact hthreads hk
    | logLevel => exact ⟨hlevel hk, congrArg some (hlevel hk)⟩
    | address => exact haddress hk
    | port => exact hport hk
    | logName | size | maxRamUse => trivial
  · cases k with
    | threadCount => exact hthreads' hk
    | logName =>
        refine ⟨name, hnamed, ?_⟩
        show some (logName env v ++ ".log") = _
        rw [hlogname]
    | logLevel =>
        obtain ⟨text, htext, hparsed⟩ := hlevel' hk
        exact ⟨text, htext, hparsed, rfl⟩
    | size => exact ⟨sizeText, logsize, hsizeText, hlogsize, rfl⟩
    | maxRamUse => exact ⟨ramText, hramText, hramsize⟩
    | address => exact haddress' hk
    | port => exact hport' hk

/-- Values of another type fall back to the defaults exactly where there is a default and this
machine allows it. -/
theorem ill_typed_fall_back_iff (hvalid : ∀ k ∉ keys, k.Valid env c)
    (hreplaced : Replaced env keys c c') (hread : env.readFile filename = .root c') :
    FallsBack env configFile filename keys c ↔ HaveDefaults env keys := by
  constructor
  · intro hfalls
    obtain ⟨s, hrun, -, -⟩ := hfalls
    obtain ⟨settings, v, server, lev, logsize, ram, hloads, -⟩ :=
      (daemonLoadConfig_zero_iff (by decide)).mp hrun
    have hsettings := hloads.levelled.read
    rw [hread] at hsettings
    cases hsettings
    have hfinds : Finds env _ _ _ := finds_sections hloads.levelled.daemonSection hloads.slave
    exact haveDefaults_of_loads hreplaced hfinds hloads
  · exact fallsBack_of_haveDefaults hreplaced hread hvalid

/-! ## The shipped file -/

/-- Every value of the shipped file is valid on a machine with four processors. -/
theorem cfg_valid (settings : Value) (k : Key) :
    k.Valid (.holding settings) (sections daemonCfg tcpServerCfg) := by
  cases k with
  | threadCount => exact ⟨2, rfl, show (2 : Int) ≤ (4 : Nat) by decide, by decide, by decide⟩
  | logName => exact ⟨"/var/log/robot", rfl, by decide, rfl, rfl⟩
  | logLevel => exact ⟨"trace", .trace, rfl, by decide +kernel⟩
  | size => exact ⟨"40k", 40 * 1024, rfl, by decide +kernel⟩
  | maxRamUse => exact ⟨"16m", 16 * 1024 * 1024, rfl, by decide +kernel⟩
  | address => exact ⟨"127.0.0.1", rfl⟩
  | port => exact ⟨4444, rfl, by decide, by decide⟩

/-- The shipped file with a number for the level and no port. -/
def cfgWithoutPort : Value :=
  sections [("LogName", .string "/var/log/robot"), ("LogLevel", .int 7), ("Size", .string "40k"),
    ("ThreadCount", .int 2), ("MaxRamUse", .string "16m")] [("Address", .string "127.0.0.1")]

theorem level_and_port_fall_back : FallsBack (.holding cfgWithoutPort) "daemon.cfg" "daemon.cfg"
    {.logLevel, .port} (sections daemonCfg tcpServerCfg) := by
  have hreplaced : Replaced (.holding cfgWithoutPort) {.logLevel, .port} (sections daemonCfg tcpServerCfg)
      cfgWithoutPort := by
    refine ⟨⟨_, rfl⟩, ⟨_, rfl⟩, fun k hk => ?_, fun k hk => ?_⟩
    · cases k with
      | logLevel | port => simp at hk
      | _ => rfl
    · rcases hk with rfl | rfl
      · rfl
      · rfl
  refine (ill_typed_fall_back_iff (fun k _ => cfg_valid _ k) hreplaced rfl).mpr ?_
  exact ⟨by simp, by simp, by simp, by simp⟩

/-- The shipped file with a number for the name of the log. -/
def cfgNumberedLog : Value :=
  sections [("LogName", .int 5), ("LogLevel", .string "trace"), ("Size", .string "40k"),
    ("ThreadCount", .int 2), ("MaxRamUse", .string "16m")] tcpServerCfg

theorem numbered_log_rejected : ¬ ∀ env configFile filename keys c c',
    0 < env.hardwareConcurrency → (∀ k ∉ keys, k.Valid env c) → Replaced env keys c c' →
      env.readFile filename = .root c' → FallsBack env configFile filename keys c := by
  intro hall
  have hreplaced : Replaced (.holding cfgNumberedLog) {.logName} (sections daemonCfg tcpServerCfg)
      cfgNumberedLog := by
    refine ⟨⟨_, rfl⟩, ⟨_, rfl⟩, fun k hk => ?_, fun k hk => ?_⟩
    · cases k with
      | logName => simp at hk
      | _ => rfl
    · cases hk
      rfl
  obtain ⟨s, hrun, -⟩ := hall (.holding cfgNumberedLog) "daemon.cfg" "daemon.cfg" {.logName} _ _
    (by decide) (fun k _ => cfg_valid _ k) hreplaced rfl
  have hrejected : (daemonLoadConfig (.holding cfgNumberedLog) "daemon.cfg" "daemon.cfg").run
      Loader.initial = .returned (-1) Loader.initial := by
    decide +kernel
  rw [hrejected] at hrun
  cases hrun

end Robotd
