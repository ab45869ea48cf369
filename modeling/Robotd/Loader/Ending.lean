import Robotd.Loader.Meaning

/-!
# How a reload can end

`Ending` lists the places where `daemon_load_config` returns, each with what it has written by
then. `EndsAt` says what the file must hold for the load to end there, and `Ending.leaves` the
loader it leaves; `loadMeaning_returned_iff` connects both with the code. Since `EndsAt` only
looks at the statics and the level of the log, a load can be compared with one in another
process.
-/

namespace Robotd

open Lib Lib.CLib

/-- The places where a load returns. What was written before is carried along. -/
inductive Ending where
  | unread
  | badThreads
  | badName (threads : Nat)
  | badLevel (threads : Nat)
  | badSize (threads : Nat) (lev : Level)
  | badRam (threads : Nat) (lev : Level)
  | zeroRam (threads : Nat) (lev : Level)
  | badPort (threads : Nat) (lev : Level) (ram : Nat) (logname : String) (logsize : Nat)
      (address : String)
  | loaded (threads : Nat) (lev : Level) (ram : Nat) (logname : String) (logsize : Nat)
      (address : String) (port : Nat)

namespace Ending

/-- The return value. -/
def code : Ending → Int
  | loaded .. => 0
  | _ => childNeedWork

/-- The loader that is left behind. -/
def leaves (s : Loader) : Ending → Loader
  | unread | badThreads => s
  | badName t | badLevel t => { s with threadCount := t }
  | badSize t lev | badRam t lev => { s with threadCount := t, lev := lev }
  | zeroRam t lev => { s with threadCount := t, lev := lev, ramsize := 0 }
  | badPort t lev ram logname logsize address =>
      { ({ s with threadCount := t, lev := lev, ramsize := ram } : Loader).reopen logname logsize
        with address := address }
  | loaded t lev ram logname logsize address port =>
      { ({ s with threadCount := t, lev := lev, ramsize := ram } : Loader).reopen logname logsize
        with address := address, port := port }

/-- The level of the log afterwards. -/
def level (current : Level) : Ending → Level
  | badPort _ lev .. | loaded _ lev .. => lev
  | _ => current

end Ending

/-- The file has a section `Daemon` whose number of threads and log name pass. -/
structure Named (env : Environment) (filename : Path) (s : Loader) (settings v : Value) :
    Prop where
  read : env.readFile filename = .root settings
  daemonSection : settings.member "Daemon" = some v
  threads : ThreadsPass env v s.threadCount
  name : NamePasses env v

/-- All checks of the section `Daemon` pass, and the new log can be opened. -/
structure Accepted (env : Environment) (filename : Path) (s : Loader) (current : Level)
    (settings v : Value) (lev : Level) (logsize ram : Nat) : Prop where
  named : Named env filename s settings v
  level : requestedLevel env v current = some lev
  size : logSize env v = .bytes logsize
  ram : ramUse env v = .bytes ram
  sink : env.opensSink (logName env v ++ ".log") = true

/-- What the file must hold for the load to end at a place. -/
inductive EndsAt (env : Environment) (filename : Path) (s : Loader) (current : Level) :
    Ending → Prop where
  | unread (hread : ∀ settings, env.readFile filename ≠ .root settings) :
      EndsAt env filename s current .unread
  | badThreads {settings v : Value} (hread : env.readFile filename = .root settings)
      (hsection : settings.member "Daemon" = some v) (hthreads : ¬ ThreadsPass env v s.threadCount) :
      EndsAt env filename s current .badThreads
  | badName {settings v : Value} (hread : env.readFile filename = .root settings)
      (hsection : settings.member "Daemon" = some v) (hthreads : ThreadsPass env v s.threadCount)
      (hname : ¬ NamePasses env v) :
      EndsAt env filename s current (.badName (threads env v s.threadCount).toNat)
  | badLevel {settings v : Value} (hnamed : Named env filename s settings v)
      (hlevel : requestedLevel env v current = none) :
      EndsAt env filename s current (.badLevel (threads env v s.threadCount).toNat)
  | badSize {settings v : Value} {lev : Level} (hnamed : Named env filename s settings v)
      (hlevel : requestedLevel env v current = some lev)
      (hsize : ∀ logsize, logSize env v ≠ .bytes logsize) :
      EndsAt env filename s current (.badSize (threads env v s.threadCount).toNat lev)
  | badRam {settings v : Value} {lev : Level} {logsize : Nat}
      (hnamed : Named env filename s settings v)
      (hlevel : requestedLevel env v current = some lev)
      (hsize : logSize env v = .bytes logsize) (hram : ramUse env v = .invalid) :
      EndsAt env filename s current (.badRam (threads env v s.threadCount).toNat lev)
  | zeroRam {settings v : Value} {lev : Level} {logsize : Nat}
      (hnamed : Named env filename s settings v)
      (hlevel : requestedLevel env v current = some lev)
      (hsize : logSize env v = .bytes logsize) (hram : ramUse env v = .zero) :
      EndsAt env filename s current (.zeroRam (threads env v s.threadCount).toNat lev)
  | badPort {settings v server : Value} {lev : Level} {logsize ram : Nat}
      (haccepted : Accepted env filename s current settings v lev logsize ram)
      (hserver : settings.member "TCPServer" = some server)
      (hport : requestedPort env server s.port = 0 ∨
        65535 < requestedPort env server s.port ∧ Level.warn.rank < lev.rank) :
      EndsAt env filename s current (.badPort (threads env v s.threadCount).toNat lev ram (logName env v)
        logsize (requestedAddress env server s.address))
  | loaded {settings v server : Value} {lev : Level} {logsize ram : Nat}
      (haccepted : Accepted env filename s current settings v lev logsize ram)
      (hserver : settings.member "TCPServer" = some server)
      (hzero : requestedPort env server s.port ≠ 0) (hhigh : requestedPort env server s.port ≤ 65535) :
      EndsAt env filename s current (.loaded (threads env v s.threadCount).toNat lev ram (logName env v)
        logsize (requestedAddress env server s.address) (requestedPort env server s.port))

/-- The file can be loaded or rejected without an exception. When it can be read it has a section
`Daemon`; if all options of that section are accepted, the new log can be opened and the slave has
a section too, with a port that is not too high to be complained about in the new log. -/
def Survivable (env : Environment) (filename : Path) (s : Loader) (current : Level) : Prop :=
  ∀ settings, env.readFile filename = .root settings →
    ∃ v, settings.member "Daemon" = some v ∧
      ∀ lev logsize ram, ThreadsPass env v s.threadCount → NamePasses env v →
        requestedLevel env v current = some lev → logSize env v = .bytes logsize →
        ramUse env v = .bytes ram →
        env.opensSink (logName env v ++ ".log") = true ∧
          ∃ server, settings.member "TCPServer" = some server ∧
            (requestedPort env server s.port ≤ 65535 ∨ Level.warn.rank < lev.rank)

variable {env : Environment} {filename : Path} {s : Loader} {current : Level}

/-- A load that gets past the log name goes on with the level. -/
theorem loadMeaning_of_named {settings v : Value} (h : Named env filename s settings v) :
    loadMeaning env filename s current = levelMeaning env settings v
      { s with threadCount := (threads env v s.threadCount).toNat } current := by
  simp only [loadMeaning, h.read, h.daemonSection, if_pos h.threads, if_pos h.name]

/-- A load whose checks have all passed goes on with the slave. -/
theorem loadMeaning_of_accepted {settings v : Value} {lev : Level} {logsize ram : Nat}
    (h : Accepted env filename s current settings v lev logsize ram) :
    loadMeaning env filename s current = (slaveMeaning env settings
      (({ s with threadCount := (threads env v s.threadCount).toNat, lev := lev, ramsize := ram } :
        Loader).reopen (logName env v) logsize) lev).passOn := by
  rw [loadMeaning_of_named h.named]
  simp only [levelMeaning, h.level, h.size, h.ram, finishMeaning, if_pos h.sink]

/-- With the section of the slave it goes on with the port. -/
theorem loadMeaning_of_server {settings v server : Value} {lev : Level} {logsize ram : Nat}
    (h : Accepted env filename s current settings v lev logsize ram)
    (hserver : settings.member "TCPServer" = some server) :
    loadMeaning env filename s current = (portMeaning (requestedPort env server s.port)
      { (({ s with threadCount := (threads env v s.threadCount).toNat, lev := lev, ramsize := ram } :
        Loader).reopen (logName env v) logsize) with
          address := requestedAddress env server s.address } lev).passOn := by
  rw [loadMeaning_of_accepted h, slaveMeaning, hserver]
  rfl

/-- A load that ends at a place returns its code and leaves its loader. -/
theorem loadMeaning_of_endsAt {ending : Ending} (h : EndsAt env filename s current ending) :
    loadMeaning env filename s current = .returned ending.code (ending.leaves s) := by
  cases h with
  | unread hread =>
      unfold loadMeaning
      cases hfile : env.readFile filename with
      | fileIOException => rfl
      | parseException file line error => rfl
      | root settings => exact absurd hfile (hread settings)
  | badThreads hread hsection hthreads =>
      simp only [loadMeaning, hread, hsection, if_neg hthreads]
      rfl
  | badName hread hsection hthreads hname =>
      simp only [loadMeaning, hread, hsection, if_pos hthreads, if_neg hname]
      rfl
  | badLevel hnamed hlevel =>
      rw [loadMeaning_of_named hnamed, levelMeaning, hlevel]
      rfl
  | badSize hnamed hlevel hsize =>
      rename_i settings v lev
      rw [loadMeaning_of_named hnamed, levelMeaning, hlevel]
      dsimp only
      cases hlogsize : logSize env v with
      | invalid => rfl
      | zero => rfl
      | bytes n => exact absurd hlogsize (hsize n)
  | badRam hnamed hlevel hsize hram =>
      rw [loadMeaning_of_named hnamed, levelMeaning, hlevel, hsize, hram]
      rfl
  | zeroRam hnamed hlevel hsize hram =>
      rw [loadMeaning_of_named hnamed, levelMeaning, hlevel, hsize, hram]
      rfl
  | badPort haccepted hserver hport =>
      rename_i settings v server lev logsize ram
      rw [loadMeaning_of_server haccepted hserver, portMeaning]
      by_cases hzero : requestedPort env server s.port = 0
      · rw [if_pos hzero]
        rfl
      · obtain ⟨hhigh, hlevel⟩ := hport.resolve_left hzero
        rw [if_neg hzero, if_pos hhigh, if_neg (not_le.mpr hlevel)]
        rfl
  | loaded haccepted hserver hzero hhigh =>
      rw [loadMeaning_of_server haccepted hserver, portMeaning, if_neg hzero,
        if_neg (not_lt.mpr hhigh)]
      rfl

/-- A file that can be survived makes the load end somewhere. -/
theorem endsAt_of_survivable (h : Survivable env filename s current) :
    ∃ ending, EndsAt env filename s current ending := by
  by_cases hread : ∀ settings, env.readFile filename ≠ .root settings
  · exact ⟨_, .unread hread⟩
  obtain ⟨settings, hread⟩ := not_forall.mp hread
  rw [not_not] at hread
  obtain ⟨v, hsection, hrest⟩ := h settings hread
  by_cases hthreads : ThreadsPass env v s.threadCount
  swap
  · exact ⟨_, .badThreads hread hsection hthreads⟩
  by_cases hname : NamePasses env v
  swap
  · exact ⟨_, .badName hread hsection hthreads hname⟩
  have hnamed : Named env filename s settings v := ⟨hread, hsection, hthreads, hname⟩
  cases hlevel : requestedLevel env v current with
  | none => exact ⟨_, .badLevel hnamed hlevel⟩
  | some lev =>
      cases hsize : logSize env v with
      | invalid => exact ⟨_, .badSize hnamed hlevel (by simp [hsize])⟩
      | zero => exact ⟨_, .badSize hnamed hlevel (by simp [hsize])⟩
      | bytes logsize =>
          cases hram : ramUse env v with
          | invalid => exact ⟨_, .badRam hnamed hlevel hsize hram⟩
          | zero => exact ⟨_, .zeroRam hnamed hlevel hsize hram⟩
          | bytes ram =>
              obtain ⟨hsink, server, hserver, hport⟩ :=
                hrest lev logsize ram hthreads hname hlevel hsize hram
              have haccepted : Accepted env filename s current settings v lev logsize ram :=
                ⟨hnamed, hlevel, hsize, hram, hsink⟩
              by_cases hzero : requestedPort env server s.port = 0
              · exact ⟨_, .badPort haccepted hserver (.inl hzero)⟩
              by_cases hhigh : requestedPort env server s.port ≤ 65535
              · exact ⟨_, .loaded haccepted hserver hzero hhigh⟩
              · refine ⟨_, .badPort haccepted hserver (.inr ⟨not_le.mp hhigh, ?_⟩)⟩
                exact hport.resolve_left hhigh

/-- Where a load returns, nothing is missing that it has looked for. -/
theorem survivable_of_loadMeaning {code : Int} {s' : Loader}
    (h : loadMeaning env filename s current = .returned code s') :
    Survivable env filename s current := by
  intro settings hread
  cases hsection : settings.member "Daemon" with
  | none =>
      simp only [loadMeaning, hread, hsection] at h
      cases h
  | some v =>
      refine ⟨v, rfl, ?_⟩
      intro lev logsize ram hthreads hname hlevel hsize hram
      have hnamed : Named env filename s settings v := ⟨hread, hsection, hthreads, hname⟩
      by_cases hsink : env.opensSink (logName env v ++ ".log") = true
      swap
      · rw [loadMeaning_of_named hnamed] at h
        simp only [levelMeaning, hlevel, hsize, hram, finishMeaning, if_neg hsink] at h
        cases h
      have haccepted : Accepted env filename s current settings v lev logsize ram :=
        ⟨hnamed, hlevel, hsize, hram, hsink⟩
      refine ⟨hsink, ?_⟩
      cases hserver : settings.member "TCPServer" with
      | none =>
          rw [loadMeaning_of_accepted haccepted, slaveMeaning, hserver] at h
          cases h
      | some server =>
          refine ⟨server, rfl, ?_⟩
          by_contra hport
          obtain ⟨hhigh, hlow⟩ := not_or.mp hport
          have hzero : requestedPort env server s.port ≠ 0 := by omega
          rw [loadMeaning_of_server haccepted hserver, portMeaning, if_neg hzero,
            if_pos (not_le.mp hhigh), if_pos (not_lt.mp hlow)] at h
          cases h

/-- A load returns exactly when it ends at one of the places, with that place's code and loader. -/
theorem loadMeaning_returned_iff {code : Int} {s' : Loader} :
    loadMeaning env filename s current = .returned code s' ↔
      ∃ ending, EndsAt env filename s current ending ∧ code = ending.code ∧
        s' = ending.leaves s := by
  constructor
  · intro h
    obtain ⟨ending, hends⟩ := endsAt_of_survivable (survivable_of_loadMeaning h)
    rw [loadMeaning_of_endsAt hends] at h
    cases h
    exact ⟨ending, hends, rfl, rfl⟩
  · intro h
    obtain ⟨ending, hends, rfl, rfl⟩ := h
    exact loadMeaning_of_endsAt hends

/-- No load falls off the end of the function. -/
theorem loadMeaning_ne_next {s' : Loader} : loadMeaning env filename s current ≠ .next () s' := by
  have hpass : ∀ outcome : Outcome Int, outcome.passOn ≠ .next () s' := by
    intro outcome
    cases outcome <;> exact fun hnext => by cases hnext
  unfold loadMeaning levelMeaning finishMeaning
  intro hnext
  repeat' split at hnext
  all_goals first | cases hnext | exact hpass _ hnext

/-- The same of the code, in a running loader. -/
theorem daemonLoadConfig_returned_iff {logger : Logger} (h : Running s logger) {configFile : Path}
    {code : Int} {s' : Loader} :
    (daemonLoadConfig env configFile filename).run s = .returned code s' ↔
      ∃ ending, EndsAt env filename s logger.level ending ∧ code = ending.code ∧
        s' = ending.leaves s := by
  rw [daemonLoadConfig_eq h]
  exact loadMeaning_returned_iff

end Robotd
