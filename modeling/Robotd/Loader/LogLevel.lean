import Robotd.Loader.Fresh

/-!
# The language of `LogLevel`

The comment in the shipped configuration file lists the names that `LogLevel` may have. The loader
looks the name up in a table of `spdlog`, where one of them is spelled differently.
`log_level_language_iff` says that it is the only one that the loader does not know. The name that
stands in for a missing `LogLevel` is one of the table, whatever has been loaded before.
-/

namespace Robotd

open Lib Lib.CLib Load

/-! ## The names of the table -/

namespace Level

theorem fromStr_eq_some_iff {name : String} {l : Level} :
    fromStr name = some l ↔ l ≠ off ∧ l.toStr = name := by
  constructor
  · intro h
    have hname := List.find?_some h
    exact ⟨fromStr_ne_off h, by simpa using hname⟩
  · rintro ⟨hoff, rfl⟩
    exact fromStr_toStr l hoff

theorem fromStr_eq_none_iff {name : String} : fromStr name = none ↔ ∀ l ≠ off, l.toStr ≠ name := by
  rw [Option.eq_none_iff_forall_ne_some]
  constructor
  · exact fun h l hoff hname => h l (fromStr_eq_some_iff.mpr ⟨hoff, hname⟩)
  · intro h l hl
    obtain ⟨hoff, hname⟩ := fromStr_eq_some_iff.mp hl
    exact h l hoff hname

/-- The levels below `off` are all but `off`. -/
theorem rank_lt_off_iff {l : Level} : l.rank < off.rank ↔ l ≠ off := by
  cases l <;> decide

end Level

/-- The names that the comment in the configuration file lists, and their levels. -/
def documentedLevels : List (String × Level) :=
  [("trace", .trace), ("debug", .debug), ("info", .info), ("warn", .warn), ("error", .err)]

/-! ## The option -/

/-- The value of the option `LogLevel`, if there is one that is a text. -/
def logLevel (env : Environment) (daemonSection : Value) : Option String :=
  (daemonSection.member "LogLevel").bind env.asString

/-- The settings but `LogLevel` are valid for a load in this state. -/
structure OthersValid (env : Environment) (filename : Path) (s : Loader) (settings v server : Value) :
    Prop where
  read : env.readFile filename = .root settings
  daemonSection : settings.member "Daemon" = some v
  threads : ThreadsPassOf env 1 v s.threadCount
  name : NamePasses env v
  size : ∃ n, logSize env v = .bytes n
  ram : ∃ n, ramUse env v = .bytes n
  sink : env.opensSink (logName env v ++ ".log") = true
  slave : settings.member "TCPServer" = some server
  port : requestedPort env server s.port ≠ 0
  high : requestedPort env server s.port ≤ 65535

/-- The load returns 0 and sets this level. -/
def Accepts (env : Environment) (configFile filename : Path) (s : Loader) (lev : Level) : Prop :=
  ∃ s', (daemonLoadConfig env configFile filename).run s = .returned 0 s' ∧ s'.lev = lev

/-- The load returns an error and leaves the level as it was. -/
def Rejects (env : Environment) (configFile filename : Path) (s : Loader) : Prop :=
  ∃ code s', (daemonLoadConfig env configFile filename).run s = .returned code s' ∧ code ≠ 0 ∧
    s'.lev = s.lev

/-- The documented names are accepted, with their levels; a name that is neither documented nor in
the table is rejected; and without a name the level is the one in force. -/
structure KeepsLanguage (env : Environment) (configFile filename : Path) (s : Loader) (v : Value) :
    Prop where
  documented : ∀ text lev, logLevel env v = some text → (text.toLower, lev) ∈ documentedLevels →
    Accepts env configFile filename s lev
  unknown : ∀ text, logLevel env v = some text → (∀ lev, (text.toLower, lev) ∉ documentedLevels) →
    (∀ l : Level, l.rank < Level.off.rank → text.toLower ≠ l.toStr) →
      Rejects env configFile filename s
  missing : logLevel env v = none → Accepts env configFile filename s s.current

variable {env : Environment} {configFile filename : Path} {s : Loader} {settings v server : Value}
  {lev : Level} {α : Type}

/-! ## The check -/

/-- A failed check whose message has its arguments returns an error and does not throw. -/
theorem meets_reject_fits {format : String} {args : List String} {next : α → Loader → Prop}
    {returned : Int → Loader → Prop} {throws : Prop} (hlog : s.logToFile = true → s.log ≠ none)
    (hargs : placeholders format.toList ≤ args.length) (h : ∀ code, code ≠ 0 → returned code s) :
    (reject format args : Load α).Meets s next returned throws := by
  rw [reject, meets_bind, meets_get]
  refine meets_ite (fun hfile => ?_) fun _ => h _ (by decide)
  obtain ⟨logger, hlogger⟩ := Option.ne_none_iff_exists'.mp (hlog hfile)
  rw [meets_bind]
  exact meets_logMessage_fits hlogger hargs (h _ (by decide))

/-- A name that is not in the table is rejected before the level is written. -/
theorem meets_loadLogLevel_unknown {next : String → Loader → Prop} {returned : Int → Loader → Prop}
    {throws : Prop} (hlog : s.logToFile = true → s.log ≠ none)
    (hlevel : requestedLevel env v s.current = none) (h : ∀ code, code ≠ 0 → returned code s) :
    (loadLogLevel env v).Meets s next returned throws := by
  rw [loadLogLevel, meets_bind]
  refine meets_defaultLevel (fun hfile hnone => absurd hnone (hlog hfile)) ?_
  rw [requestedLevel] at hlevel
  dsimp only
  rw [hlevel]
  exact meets_reject_fits hlog (Nat.le_of_ble_eq_true rfl) h

theorem rejects_of_requestedLevel (hvalid : OthersValid env filename s settings v server)
    (hlog : s.logToFile = true → s.log ≠ none) (hlevel : requestedLevel env v s.current = none) :
    Rejects env configFile filename s := by
  have hmeets : (daemonLoadConfig env configFile filename).Meets s (fun _ _ => False)
      (fun code s' => code ≠ 0 ∧ s'.lev = s.lev) False := by
    rw [daemonLoadConfig, meets_bind, readConfig, hvalid.read]
    dsimp only
    rw [meets_pure, meets_bind]
    refine meets_setting (fun v' hv' => ?_) fun hnone => ?_
    swap
    · exact absurd (hnone.symm.trans hvalid.daemonSection) (by simp)
    obtain rfl : v' = v := Option.some.inj (hv'.symm.trans hvalid.daemonSection)
    rw [meets_bind]
    refine meets_loadThreadCountOf (fun _ : ThreadsPassOf env 1 v' s.threadCount => ?_) fun hno =>
      absurd hvalid.threads hno
    rw [meets_bind]
    refine meets_loadLogName (fun _ => ?_) fun hno => absurd hvalid.name hno
    rw [meets_bind]
    exact meets_loadLogLevel_unknown hlog hlevel fun _ hcode => ⟨hcode, rfl⟩
  obtain ⟨code, s', hrun, hcode, hlev⟩ := hmeets.returns
  exact ⟨code, s', hrun, hcode, hlev⟩

/-- With the other settings valid the level decides. -/
theorem accepts_iff (hvalid : OthersValid env filename s settings v server)
    (hlog : s.logToFile = true → s.log ≠ none) :
    Accepts env configFile filename s lev ↔ requestedLevel env v s.current = some lev := by
  constructor
  · rintro ⟨s', hrun, rfl⟩
    obtain ⟨settings', v', server', lev, logsize, ram, hloads, rfl⟩ :=
      (daemonLoadConfig_zero_iff hlog).mp hrun
    have hread := hloads.levelled.read
    rw [hvalid.read] at hread
    cases hread
    have hsection := hloads.levelled.daemonSection
    rw [hvalid.daemonSection] at hsection
    cases hsection
    exact hloads.levelled.level
  · intro hlevel
    obtain ⟨logsize, hsize⟩ := hvalid.size
    obtain ⟨ram, hram⟩ := hvalid.ram
    have hloads : Loads env filename s settings v server lev logsize ram :=
      ⟨⟨hvalid.read, hvalid.daemonSection, hvalid.threads, hvalid.name, hlevel⟩, hsize, hram,
        hvalid.sink, hvalid.slave, hvalid.port, hvalid.high⟩
    exact ⟨_, (daemonLoadConfig_zero_iff hlog).mpr
      ⟨settings, v, server, lev, logsize, ram, hloads, rfl⟩, rfl⟩

theorem requestedLevel_of_text {text : String} {current : Level} (h : logLevel env v = some text) :
    requestedLevel env v current = Level.fromStr text.toLower := by
  rw [requestedLevel, Environment.lookupString, show (v.member "LogLevel").bind env.asString = _ from h,
    Option.getD_some]

/-- A documented name is one of the table, but for `warn`. -/
theorem fromStr_documented {name : String} (h : (name, lev) ∈ documentedLevels) :
    Level.fromStr name = some lev ↔ name ≠ "warn" := by
  simp only [documentedLevels, List.mem_cons, Prod.mk.injEq, List.not_mem_nil, or_false] at h
  rcases h with ⟨rfl, rfl⟩ | ⟨rfl, rfl⟩ | ⟨rfl, rfl⟩ | ⟨rfl, rfl⟩ | ⟨rfl, rfl⟩ <;> decide

/-! ## The shipped file -/

/-- The shipped file with this level. -/
def cfgLevel (level : String) : Value :=
  sections [("LogName", .string "/var/log/robot"), ("LogLevel", .string level), ("Size", .string "40k"),
    ("ThreadCount", .int 2), ("MaxRamUse", .string "16m")] tcpServerCfg

theorem cfg_valid_but_level (level : String) : ∃ v server, OthersValid (.holding (cfgLevel level))
    "daemon.cfg" Loader.initial (cfgLevel level) v server ∧
      logLevel (.holding (cfgLevel level)) v = some level := by
  refine ⟨_, _, ⟨rfl, rfl, ?_, ?_, ⟨40 * 1024, ?_⟩, ⟨16 * 1024 * 1024, ?_⟩, rfl, rfl, ?_, ?_⟩, rfl⟩
  · exact ⟨show (2 : Int) ≤ (4 : Nat) by decide, show (0 : Int) < 2 by decide,
      show (2 : Int) < 65535 by decide⟩
  · exact ⟨show "/var/log/robot" ≠ "" by decide, rfl⟩
  · show parseSize "40k" = _
    decide +kernel
  · show parseSize "16m" = _
    decide +kernel
  · show 4444 ≠ 0
    decide
  · show 4444 ≤ 65535
    decide

/-- In every state that a process can come to, the loader keeps to the documented language exactly
when it is not asked for `warn`. -/
theorem log_level_language_iff (configFile : Path) (hreach : s.Reachable)
    (hvalid : OthersValid env filename s settings v server) :
    KeepsLanguage env configFile filename s v ↔
      ∀ text, logLevel env v = some text → text.toLower ≠ "warn" := by
  have hlevels := hreach.levels
  have hlog : s.logToFile = true → s.log ≠ none := fun hfile => (hlevels.log hfile).1
  constructor
  · intro hkeeps text htext hwarn
    have hdocumented : (text.toLower, Level.warn) ∈ documentedLevels := by
      rw [hwarn]
      decide
    have hlevel := (accepts_iff hvalid hlog).mp (hkeeps.documented text .warn htext hdocumented)
    rw [requestedLevel_of_text htext] at hlevel
    exact (fromStr_documented hdocumented).mp hlevel hwarn
  · intro hwarn
    refine ⟨fun text lev htext hdocumented => ?_, fun text htext _ hunknown => ?_, fun hnone => ?_⟩
    · rw [accepts_iff hvalid hlog, requestedLevel_of_text htext]
      exact (fromStr_documented hdocumented).mpr (hwarn text htext)
    · refine rejects_of_requestedLevel hvalid hlog ?_
      rw [requestedLevel_of_text htext, Level.fromStr_eq_none_iff]
      exact fun l hoff hname => hunknown l (Level.rank_lt_off_iff.mpr hoff) hname.symm
    · rw [accepts_iff hvalid hlog]
      exact requestedLevel_default hlevels.current hnone

/-- A new process with the shipped file, and a level in capital letters. -/
theorem capital_level_accepted : ∃ v, logLevel (.holding (cfgLevel "Error")) v = some "Error" ∧
    KeepsLanguage (.holding (cfgLevel "Error")) "daemon.cfg" "daemon.cfg" Loader.initial v := by
  obtain ⟨v, server, hvalid, htext⟩ := cfg_valid_but_level "Error"
  refine ⟨v, htext, (log_level_language_iff "daemon.cfg" reachable_initial hvalid).mpr ?_⟩
  intro text htext'
  cases htext.symm.trans htext'
  decide +kernel

/-- The documented name `warn` is rejected. -/
theorem warn_rejected : ¬ ∀ env configFile filename s settings v server, s.Reachable →
    OthersValid env filename s settings v server → KeepsLanguage env configFile filename s v := by
  intro hall
  obtain ⟨v, server, hvalid, htext⟩ := cfg_valid_but_level "warn"
  have hkeeps := hall _ "daemon.cfg" _ _ _ _ _ reachable_initial hvalid
  have hlower : "warn".toLower = "warn" := by decide +kernel
  have haccepts := hkeeps.documented "warn" .warn htext (by rw [hlower]; decide)
  rw [accepts_iff hvalid (by decide), requestedLevel_of_text htext, hlower] at haccepts
  exact absurd haccepts (by decide)

end Robotd
