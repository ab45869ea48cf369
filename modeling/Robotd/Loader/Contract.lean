import Robotd.Loader.Meaning

/-!
# Loading for any list of slaves

`daemonLoadConfigOf` is `daemon_load_config` for any list of slave classes; with `tcp_server`
alone it is `daemonLoadConfig`. A slave class only writes statics of its own, which
`SlaveClass.frame` says.

`Load.Meets` is partial correctness of the loader's code in any state, also before there is a
log. `meets_daemonLoadConfigOf` is the walk through the function: what has been written where it
returns, and what is left to do once its own checks have passed.
-/

namespace Robotd

open Lib Lib.CLib Load

namespace Load

variable {α β : Type} {s : Loader} {next : α → Loader → Prop} {returned : Int → Loader → Prop}
  {throws : Prop}

/-- The code goes on or returns as described; `throws` says whether an exception is tolerated. -/
def Meets (x : Load α) (s : Loader) (next : α → Loader → Prop) (returned : Int → Loader → Prop)
    (throws : Prop) : Prop :=
  match x.run s with
  | .next a s' => next a s'
  | .returned code s' => returned code s'
  | .thrown _ => throws

@[simp] theorem meets_pure (a : α) :
    (pure a : Load α).Meets s next returned throws ↔ next a s := Iff.rfl

@[simp] theorem meets_get {next : Loader → Loader → Prop} :
    get.Meets s next returned throws ↔ next s s := Iff.rfl

@[simp] theorem meets_modify (f : Loader → Loader) {next : Unit → Loader → Prop} :
    (modify f).Meets s next returned throws ↔ next () (f s) := Iff.rfl

@[simp] theorem meets_throw (e : Thrown) :
    (throw e : Load α).Meets s next returned throws ↔ throws := Iff.rfl

@[simp] theorem meets_ret (code : Int) :
    (ret code : Load α).Meets s next returned throws ↔ returned code s := Iff.rfl

theorem meets_bind (x : Load α) (f : α → Load β) {next : β → Loader → Prop} :
    (x >>= f).Meets s next returned throws ↔
      x.Meets s (fun a s' => (f a).Meets s' next returned throws) returned throws := by
  show (bind x f).Meets s next returned throws ↔ _
  cases hrun : x.run s <;> simp only [Meets, bind, hrun]

theorem meets_call (f : Load Unit) {next : Int → Loader → Prop} :
    (call f).Meets s next returned throws ↔
      f.Meets s (fun _ => next 0) (fun code => next code) throws := by
  cases hrun : f.run s <;> simp only [Meets, call, hrun]

theorem meets_ite {c : Prop} [Decidable c] {x y : Load α}
    (hpos : c → x.Meets s next returned throws) (hneg : ¬ c → y.Meets s next returned throws) :
    (if c then x else y).Meets s next returned throws := by
  split
  · exact hpos (by assumption)
  · exact hneg (by assumption)

theorem Meets.mono {x : Load α} {next' : α → Loader → Prop} {returned' : Int → Loader → Prop}
    (h : x.Meets s next returned throws) (hnext : ∀ a s', next a s' → next' a s')
    (hreturned : ∀ code s', returned code s' → returned' code s') :
    x.Meets s next' returned' throws := by
  unfold Meets at *
  split <;> rename_i hrun <;> rw [hrun] at h
  · exact hnext _ _ h
  · exact hreturned _ _ h
  · exact h

theorem Meets.of_returned {x : Load α} {s' : Loader} {code : Int}
    (h : x.Meets s next returned throws) (hrun : x.run s = .returned code s') :
    returned code s' := by
  unfold Meets at h
  rwa [hrun] at h

/-- Code that may neither go on nor throw returns. -/
theorem Meets.returns {x : Load α} (h : x.Meets s (fun _ _ => False) returned False) :
    ∃ code s', x.run s = .returned code s' ∧ returned code s' := by
  unfold Meets at h
  split at h
  · exact h.elim
  · exact ⟨_, _, by assumption, h⟩
  · exact h.elim

/-- A message changes nothing. -/
theorem meets_logMessage {level : Level} {format : String} {args : List String}
    {next : Unit → Loader → Prop} (h : next () s) :
    (logMessage level format args).Meets s next returned True := by
  rw [logMessage, meets_bind, meets_get]
  split
  · trivial
  · exact meets_ite (fun _ => trivial) fun _ => h

/-- A message to a log, with all its arguments, does not throw either. -/
theorem meets_logMessage_fits {level : Level} {format : String} {args : List String}
    {logger : Logger} {next : Unit → Loader → Prop} (hlog : s.log = some logger)
    (hargs : placeholders format.toList ≤ args.length) (h : next () s) :
    (logMessage level format args).Meets s next returned throws := by
  rw [Meets, logMessage_fits hlog hargs]
  exact h

/-- A failed check changes nothing and returns another value than 0. -/
theorem meets_reject (h : ∀ code, code ≠ 0 → returned code s) (format : String)
    (args : List String) : (reject format args : Load α).Meets s next returned True := by
  rw [reject, meets_bind, meets_get]
  refine meets_ite (fun _ => ?_) fun _ => h _ (by decide)
  rw [meets_bind]
  exact meets_logMessage (h _ (by decide))

theorem meets_setting {v : Value} {name : String} {next : Value → Loader → Prop}
    (h : ∀ m, v.member name = some m → next m s) (hnone : v.member name = none → throws) :
    (setting v name).Meets s next returned throws := by
  unfold setting
  split
  · exact h _ (by assumption)
  · exact hnone (by assumption)

end Load

/-! ## The function for any list of slaves -/

/-- Nothing that has to do with the log differs. -/
structure Loader.SameLog (s s' : Loader) : Prop where
  logToFile : s'.logToFile = s.logToFile
  lev : s'.lev = s.lev
  sink : s'.sink = s.sink
  log : s'.log = s.log
  made : s.made ≤ s'.made

theorem Loader.SameLog.trans {s s' s'' : Loader} (h : s.SameLog s') (h' : s'.SameLog s'') :
    s.SameLog s'' :=
  ⟨h'.1.trans h.1, h'.2.trans h.2, h'.3.trans h.3, h'.4.trans h.4, h.5.trans h'.5⟩

/-- A slave class, as far as the loader knows it: `load_config`, which has the logger and not the
statics of the loader. -/
structure SlaveClass where
  loadConfig : Value → Load Unit
  frame : ∀ settings s, (loadConfig settings).Meets s
    (fun _ => Loader.SameLog s) (fun _ => Loader.SameLog s) True

/-- `load_slave_config`: one class after another, up to the first that fails. -/
def loadSlaveConfigs : List SlaveClass → Value → Load Int
  | [], _ => pure 0
  | [T], settings => call (T.loadConfig settings)
  | T :: rest, settings => do
    let code ← call (T.loadConfig settings)
    if code ≠ 0 then return code
    else loadSlaveConfigs rest settings

/-- The variable `max_threads` for this number of slaves. -/
def Environment.maxThreadsOf (env : Environment) (count : Nat) : Nat :=
  if env.hardwareConcurrency % 2 ^ 16 = 0 then count % 2 ^ 16
  else env.hardwareConcurrency % 2 ^ 16

def loadThreadCountOf (env : Environment) (count : Nat) (section_ : Value) : Load Unit := do
  let dummy := env.lookupInt section_ "ThreadCount" (← get).threadCount
  if dummy ≤ env.maxThreadsOf count ∧ 0 < dummy ∧ dummy < 65535 then
    modify fun s => { s with threadCount := dummy.toNat }
  else
    reject "ThreadCount number must be less then or equal to {}. ThreadCount={}"
      [toString (env.maxThreadsOf count), toString dummy]

/-- The end of `daemon_load_config`. -/
def finishLoadOf (env : Environment) (slaves : List SlaveClass) (configFile : Path) (root : Value)
    (logname : String) (logsize : Nat) (sizeS loglevel : String) : Load Unit := do
  openLog env logname logsize
  logOptions configFile logname sizeS loglevel
  let code ← loadSlaveConfigs slaves root
  if (← get).logToFile = true then
    logMessage .info "=====================================================================" []
  modify fun s => { s with logToFile := true }
  ret code

/-- `daemon_load_config`. -/
def daemonLoadConfigOf (env : Environment) (slaves : List SlaveClass) (configFile filename : Path) :
    Load Unit := do
  let root ← readConfig env filename
  let daemonSection ← setting root "Daemon"
  loadThreadCountOf env slaves.length daemonSection
  let logname ← loadLogName env daemonSection
  let loglevel ← loadLogLevel env daemonSection
  let logsize ← sizeParse (env.lookupString daemonSection "Size" "") fun _ => pure ()
  let sizeS := env.lookupString daemonSection "MaxRamUse" ""
  let _ ← sizeParse sizeS fun n => modify fun s => { s with ramsize := n }
  finishLoadOf env slaves configFile root logname logsize sizeS loglevel

/-- The loading of the port: another value than 0 is returned for a port that 16 bits do not hold
or that is zero. -/
theorem meets_loadPort {env : Environment} {server : Value} {s : Loader}
    {next : Unit → Loader → Prop} {returned : Int → Loader → Prop} {throws : Prop}
    (hmessage : (∃ logger, s.log = some logger) ∨ throws = True)
    (hpass : requestedPort env server s.port ≠ 0 → requestedPort env server s.port ≤ 65535 →
      next () { s with port := requestedPort env server s.port })
    (hfail : requestedPort env server s.port = 0 ∨ 65535 < requestedPort env server s.port →
      ∀ format args, (reject format args : Load Unit).Meets s next returned throws) :
    (loadPort env server).Meets s next returned throws := by
  rw [loadPort, meets_bind, meets_get]
  refine meets_ite (fun hzero => hfail (.inl hzero) _ _) fun hne => ?_
  refine meets_ite (fun hhigh => hfail (.inr hhigh) _ _) fun hle => ?_
  have hnext := hpass hne (not_lt.mp hle)
  rw [meets_bind, meets_modify, meets_bind, meets_get]
  refine meets_ite (fun _ => ?_) fun _ => hnext
  rw [meets_bind, meets_get, meets_bind]
  rcases hmessage with ⟨logger, hlog⟩ | rfl
  · refine meets_logMessage_fits hlog (Nat.le_of_ble_eq_true rfl) ?_
    rw [meets_bind, meets_get]
    exact meets_logMessage_fits hlog (Nat.le_of_ble_eq_true rfl) hnext
  · refine meets_logMessage ?_
    rw [meets_bind, meets_get]
    exact meets_logMessage hnext

/-- The class `tcp_server`. -/
def tcpServer (env : Environment) : SlaveClass where
  loadConfig := tcpServerLoadConfig env
  frame settings s := by
    rw [tcpServerLoadConfig, meets_bind]
    refine meets_setting (fun server _ => ?_) fun _ => trivial
    rw [meets_bind, meets_modify]
    exact meets_loadPort (.inr rfl) (fun _ _ => ⟨rfl, rfl, rfl, rfl, le_rfl⟩)
      fun _ => meets_reject fun _ _ => ⟨rfl, rfl, rfl, rfl, le_rfl⟩

/-- With `tcp_server` alone it is the function of the shipped program. -/
theorem daemonLoadConfigOf_tcpServer (env : Environment) (configFile filename : Path) :
    daemonLoadConfigOf env [tcpServer env] configFile filename =
      daemonLoadConfig env configFile filename := rfl

/-! ## The walk through the function -/

/-- The default of `LogLevel`. -/
def Loader.current (s : Loader) : Level :=
  if s.logToFile = true then (s.log.map Logger.level).getD .info else .info

def ThreadsPassOf (env : Environment) (count : Nat) (daemonSection : Value) (threadCount : Nat) :
    Prop :=
  threads env daemonSection threadCount ≤ env.maxThreadsOf count ∧
    0 < threads env daemonSection threadCount ∧ threads env daemonSection threadCount < 65535

instance (env : Environment) (count : Nat) (daemonSection : Value) (threadCount : Nat) :
    Decidable (ThreadsPassOf env count daemonSection threadCount) :=
  inferInstanceAs (Decidable (_ ∧ _ ∧ _))

/-- The file gets as far as its log level, and asks for this one. -/
structure Levelled (env : Environment) (count : Nat) (filename : Path) (s : Loader)
    (settings v : Value) (lev : Level) : Prop where
  read : env.readFile filename = .root settings
  daemonSection : settings.member "Daemon" = some v
  threads : ThreadsPassOf env count v s.threadCount
  name : NamePasses env v
  level : requestedLevel env v s.current = some lev

variable {env : Environment} {s : Loader} {slaves : List SlaveClass} {configFile filename : Path}

/-- There is at most one such level. -/
theorem Levelled.unique {count : Nat} {settings v settings' v' : Value} {lev lev' : Level}
    (h : Levelled env count filename s settings v lev)
    (h' : Levelled env count filename s settings' v' lev') :
    settings' = settings ∧ v' = v ∧ lev' = lev := by
  have hread := h'.read
  rw [h.read] at hread
  cases hread
  have hsection := h'.daemonSection
  rw [h.daemonSection] at hsection
  cases hsection
  have hlevel := h'.level
  rw [h.level] at hlevel
  cases hlevel
  exact ⟨rfl, rfl, rfl⟩

section Stages

variable {returned : Int → Loader → Prop} {throws : Prop}

theorem meets_loadThreadCountOf {count : Nat} {v : Value} {next : Unit → Loader → Prop}
    (hpass : ThreadsPassOf env count v s.threadCount →
      next () { s with threadCount := (threads env v s.threadCount).toNat })
    (hfail : ¬ ThreadsPassOf env count v s.threadCount →
      ∀ format args, (reject format args : Load Unit).Meets s next returned throws) :
    (loadThreadCountOf env count v).Meets s next returned throws := by
  rw [loadThreadCountOf, meets_bind, meets_get]
  exact meets_ite hpass fun hno => hfail hno _ _

theorem meets_loadLogName {v : Value} {next : String → Loader → Prop}
    (hpass : NamePasses env v → next (logName env v) s)
    (hfail : ¬ NamePasses env v →
      ∀ format args, (reject format args : Load String).Meets s next returned throws) :
    (loadLogName env v).Meets s next returned throws := by
  refine meets_ite (fun hempty => hfail (fun hpass => hpass.1 hempty) _ _) fun hne => ?_
  exact meets_ite (fun hopens => hpass ⟨hne, hopens⟩)
    fun hno => hfail (fun hpass => hno hpass.2) _ _

theorem meets_defaultLevel {next : String → Loader → Prop}
    (hlog : s.logToFile = true → s.log = none → throws) (h : next s.current.toStr s) :
    defaultLevel.Meets s next returned throws := by
  unfold Loader.current at h
  rw [defaultLevel, meets_bind, meets_get]
  refine meets_ite (fun hfile => ?_) fun hno => ?_
  · rw [meets_bind, meets_get]
    split
    · exact hlog hfile (by assumption)
    · rename_i logger hlog
      rwa [if_pos hfile, hlog] at h
  · rwa [if_neg hno] at h

theorem meets_loadLogLevel {v : Value} {next : String → Loader → Prop}
    (hlog : s.logToFile = true → s.log = none → throws)
    (hpass : ∀ text lev, requestedLevel env v s.current = some lev → next text { s with lev := lev })
    (hfail : requestedLevel env v s.current = none →
      ∀ format args, (reject format args : Load String).Meets s next returned throws) :
    (loadLogLevel env v).Meets s next returned throws := by
  rw [loadLogLevel, meets_bind]
  refine meets_defaultLevel hlog ?_
  unfold requestedLevel at hpass hfail
  dsimp only
  split
  · rename_i lev hlev
    exact hpass _ lev hlev
  · rename_i hnone
    exact hfail hnone _ _

/-- `size_parse`, for any variable it writes to: when it fails, the variable has been left alone
or set to zero. -/
theorem meets_sizeParse {size : String} {store : Nat → Loader → Loader}
    {next : Nat → Loader → Prop} (htwice : ∀ m n, store n (store m s) = store n s)
    (hpass : ∀ n, parseSize size = .bytes n → next n (store n s))
    (hfail : (∀ n, parseSize size ≠ .bytes n) → ∀ s', s' = s ∨ s' = store 0 s →
      ∀ format args, (reject format args : Load Nat).Meets s' next returned throws) :
    (sizeParse size fun n => modify (store n)).Meets s next returned throws := by
  unfold sizeParse
  cases hmatch : sizeMatch size with
  | none =>
      have hno : ∀ n, parseSize size ≠ .bytes n := by simp [parseSize, hmatch]
      exact hfail hno s (.inl rfl) _ _
  | some found =>
      obtain ⟨digits, suffix⟩ := found
      dsimp only
      rw [meets_bind, meets_modify]
      refine meets_ite (fun hzero => ?_) fun hne => ?_
      · have hno : ∀ n, parseSize size ≠ .bytes n := by simp [parseSize, hmatch, hzero]
        exact hfail hno _ (.inr (by rw [hzero])) _ _
      · have hbytes : parseSize size = .bytes (atoiUnsigned digits * unitOf suffix % 2 ^ 64) := by
          simp only [parseSize, hmatch, if_neg hne]
        have hnext := hpass _ hbytes
        cases suffix with
        | none =>
            have hmod := Nat.mod_eq_of_lt (atoiUnsigned_lt digits)
            simp only [unitOf, mul_one, hmod] at hnext
            exact hnext
        | some c =>
            rcases sizeMatch_suffix hmatch with hk | hm
            · simp only [unitOf, if_pos hk] at hnext
              simp only [if_pos hk]
              rw [meets_bind, meets_modify, htwice]
              exact hnext
            · have hk : ¬ (c = 'k' ∨ c = 'K') := by
                rcases hm with rfl | rfl <;> decide
              simp only [unitOf, if_neg hk] at hnext
              simp only [if_neg hk, if_pos hm]
              rw [meets_bind, meets_modify, htwice]
              exact hnext

/-- The walk, with what is to be shown where a check fails and once the checks have passed. -/
theorem meets_daemonLoadConfigOf {next : Unit → Loader → Prop}
    (hlog : s.logToFile = true → s.log = none → throws)
    (hsection : ∀ settings, env.readFile filename = .root settings →
      settings.member "Daemon" = none → throws)
    (hearly : (∀ settings v lev, ¬ Levelled env slaves.length filename s settings v lev) →
      throws = True ∧ ∀ code threadCount, code ≠ 0 →
        returned code { s with threadCount := threadCount })
    (hlevelled : ∀ settings v lev, Levelled env slaves.length filename s settings v lev →
      ((∀ n, logSize env v ≠ .bytes n) ∨ ∀ n, ramUse env v ≠ .bytes n) →
        throws = True ∧ ∀ code threadCount ramsize, code ≠ 0 →
          returned code { s with threadCount := threadCount, lev := lev, ramsize := ramsize })
    (hfinish : ∀ settings v lev logsize ram sizeS loglevel,
      Levelled env slaves.length filename s settings v lev → logSize env v = .bytes logsize →
        ramUse env v = .bytes ram →
          (finishLoadOf env slaves configFile settings (logName env v) logsize sizeS loglevel).Meets
            { s with threadCount := (threads env v s.threadCount).toNat, lev := lev, ramsize := ram }
            next returned throws) :
    (daemonLoadConfigOf env slaves configFile filename).Meets s next returned throws := by
  have hunread (hno : ∀ settings, env.readFile filename ≠ .root settings) (format : String)
      (args : List String) (next : Value → Loader → Prop) :
      (reject format args : Load Value).Meets s next returned throws := by
    obtain ⟨rfl, hreturned⟩ := hearly fun settings v lev h => hno settings h.read
    exact meets_reject (fun code hcode => hreturned code s.threadCount hcode) _ _
  rw [daemonLoadConfigOf, meets_bind]
  cases hread : env.readFile filename with
  | fileIOException =>
      simp only [readConfig, hread]
      exact hunread (by simp [hread]) _ _ _
  | parseException file line error =>
      simp only [readConfig, hread]
      exact hunread (by simp [hread]) _ _ _
  | root settings =>
      simp only [readConfig, hread]
      rw [meets_pure, meets_bind]
      refine meets_setting (fun v hv => ?_) (hsection settings hread)
      -- the section that was found is the only one the conditions speak of
      have hfound {settings' v' : Value} {lev : Level}
          (h : Levelled env slaves.length filename s settings' v' lev) : v' = v := by
        have hsettings := h.read
        rw [hread] at hsettings
        cases hsettings
        exact (Option.some.inj (hv.symm.trans h.daemonSection)).symm
      rw [meets_bind]
      refine meets_loadThreadCountOf (fun hthreads => ?_) fun hno format args => ?_
      swap
      · obtain ⟨rfl, hreturned⟩ := hearly fun settings' v' lev h => hno (hfound h ▸ h.threads)
        exact meets_reject (fun code hcode => hreturned code s.threadCount hcode) _ _
      rw [meets_bind]
      refine meets_loadLogName (fun hname => ?_) fun hno format args => ?_
      swap
      · obtain ⟨rfl, hreturned⟩ := hearly fun settings' v' lev h => hno (hfound h ▸ h.name)
        exact meets_reject (fun code hcode => hreturned code _ hcode) _ _
      rw [meets_bind]
      refine meets_loadLogLevel hlog (fun loglevel lev hlevel => ?_) fun hnone format args => ?_
      swap
      · obtain ⟨rfl, hreturned⟩ := hearly fun settings' v' lev h => by
          have hsome := h.level
          rw [hfound h] at hsome
          exact absurd (hnone.symm.trans hsome) (by simp)
        exact meets_reject (fun code hcode => hreturned code _ hcode) _ _
      have hlevelled' : Levelled env slaves.length filename s settings v lev :=
        ⟨hread, hv, hthreads, hname, hlevel⟩
      rw [meets_bind]
      have hlocal : (fun _ => pure () : Nat → Load Unit) =
          fun n => modify ((fun _ s => s : Nat → Loader → Loader) n) := rfl
      rw [hlocal]
      refine meets_sizeParse (fun _ _ => rfl) (fun logsize hsize => ?_) fun hno s' hs' format args => ?_
      swap
      · obtain ⟨rfl, hreturned⟩ := hlevelled settings v lev hlevelled' (.inl hno)
        obtain rfl := hs'.elim id id
        exact meets_reject (fun code hcode => hreturned code _ s.ramsize hcode) _ _
      dsimp only
      rw [meets_bind]
      refine meets_sizeParse (fun _ _ => rfl) (fun ram hram => ?_) fun hno s' hs' format args => ?_
      swap
      · obtain ⟨rfl, hreturned⟩ := hlevelled settings v lev hlevelled' (.inr hno)
        rcases hs' with rfl | rfl
        · exact meets_reject (fun code hcode => hreturned code _ s.ramsize hcode) _ _
        · exact meets_reject (fun code hcode => hreturned code _ 0 hcode) _ _
      exact hfinish settings v lev logsize ram _ loglevel hlevelled' hsize hram

/-- The list of options changes nothing. -/
theorem meets_logOptions {logger : Logger} {logname sizeS loglevel : String}
    {next : Unit → Loader → Prop} (hlog : s.log = some logger) (h : next () s) :
    (logOptions configFile logname sizeS loglevel).Meets s next returned throws := by
  rw [logOptions, meets_bind]
  refine meets_logMessage_fits hlog (Nat.le_of_ble_eq_true rfl) ?_
  rw [meets_bind, meets_get]
  refine meets_ite (fun _ => ?_) fun _ => h
  iterate 3
    rw [meets_bind]
    refine meets_logMessage_fits hlog (Nat.le_of_ble_eq_true rfl) ?_
  rw [meets_bind, meets_get, meets_bind]
  refine meets_logMessage_fits hlog (Nat.le_of_ble_eq_true rfl) ?_
  iterate 3
    rw [meets_bind]
    refine meets_logMessage_fits hlog (Nat.le_of_ble_eq_true rfl) ?_
  rw [meets_bind, meets_get]
  exact meets_logMessage_fits hlog (Nat.le_of_ble_eq_true rfl) h

/-- The new log is opened, then the slaves are loaded, and what they return is returned. -/
theorem meets_finishLoadOf {settings : Value} {logname sizeS loglevel : String} {logsize : Nat}
    {next : Unit → Loader → Prop} (hsink : env.opensSink (logname ++ ".log") ≠ true → throws)
    (hslaves : env.opensSink (logname ++ ".log") = true →
      (loadSlaveConfigs slaves settings).Meets (s.reopen logname logsize)
        (fun code s' => s'.log = (s.reopen logname logsize).log ∧
          returned code { s' with logToFile := true }) returned throws) :
    (finishLoadOf env slaves configFile settings logname logsize sizeS loglevel).Meets s next
      returned throws := by
  rw [finishLoadOf, meets_bind]
  refine meets_ite (fun hopens => ?_) hsink
  rw [meets_modify, meets_bind]
  refine meets_logOptions rfl ?_
  rw [meets_bind]
  refine (hslaves hopens).mono (fun code s' hreturned => ?_) fun _ _ => id
  obtain ⟨hlog, hreturned⟩ := hreturned
  rw [meets_bind, meets_get]
  refine meets_ite (fun hfile => ?_) fun _ => ?_
  · rw [meets_bind]
    exact meets_logMessage_fits hlog (Nat.le_of_ble_eq_true rfl) hreturned
  · exact hreturned

/-- No slave has anything to do with the log. -/
theorem meets_loadSlaveConfigs (slaves : List SlaveClass) (settings : Value) (s : Loader) :
    (loadSlaveConfigs slaves settings).Meets s (fun _ => s.SameLog) returned True := by
  have hcall (T : SlaveClass) (s : Loader) :
      (call (T.loadConfig settings)).Meets s (fun _ => s.SameLog) returned True :=
    (meets_call _).mpr (T.frame settings s)
  induction slaves generalizing s with
  | nil => exact ⟨rfl, rfl, rfl, rfl, le_rfl⟩
  | cons T rest ih =>
      cases rest with
      | nil => exact hcall T s
      | cons T' rest =>
          rw [loadSlaveConfigs, meets_bind]
          · refine (hcall T s).mono (fun code s' hsame => ?_) fun _ _ => id
            refine meets_ite (fun _ => hsame) fun _ => ?_
            exact (ih s').mono (fun _ _ => hsame.trans) fun _ _ => id
          · simp

end Stages

end Robotd
