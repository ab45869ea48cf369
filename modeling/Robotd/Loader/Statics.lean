import Robotd.Loader.Ending

/-!
# The statics a load leaves

Two processes that load one file are compared by their statics: `endsAt_of_statics` takes the end
of a load to a process with the same statics, and `EndsAt.again` says that loading the file again
ends at the same place. Only the default of `LogLevel` depends on more than the statics.
-/

namespace Robotd

open Lib Lib.CLib

/-- The configuration a process has in its statics. Of the sink it is the parameters that count,
since each process has an object of its own. -/
structure Statics where
  threadCount : Nat
  lev : Level
  ramsize : Nat
  sink : Option (Path × Nat)
  address : String
  port : Nat
  deriving DecidableEq, Repr

def Loader.statics (s : Loader) : Statics where
  threadCount := s.threadCount
  lev := s.lev
  ramsize := s.ramsize
  sink := s.sink.map fun sink => (sink.filename, sink.maxSize)
  address := s.address
  port := s.port

/-- The level of the object's logger. -/
def Loader.level (s : Loader) : Option Level := s.log.map Logger.level

namespace Ending

/-- The statics after a load depend on its end and the statics before. -/
theorem statics_leaves {s s' : Loader} (h : s.statics = s'.statics) (ending : Ending) :
    (ending.leaves s).statics = (ending.leaves s').statics := by
  simp only [Loader.statics, Statics.mk.injEq] at h
  obtain ⟨hthreads, hlev, hram, hsink, haddress, hport⟩ := h
  cases ending <;> simp [leaves, Loader.statics, Loader.reopen, *]

/-- The same end again leaves the same statics. -/
theorem statics_leaves_leaves (s : Loader) (ending : Ending) :
    (ending.leaves (ending.leaves s)).statics = (ending.leaves s).statics := by
  cases ending <;> rfl

/-- A loader that logs to a file does so afterwards, at the level of the end. -/
theorem running_leaves {s : Loader} {logger : Logger} (h : Running s logger) (ending : Ending) :
    ∃ logger', Running (ending.leaves s) logger' ∧ logger'.level = ending.level logger.level := by
  have hreopen : ∀ (s : Loader) (logname : String) (logsize : Nat), s.logToFile = true → 
      ∃ logger', Running (s.reopen logname logsize) logger' ∧ logger'.level = s.lev :=
    fun s logname logsize hfile => ⟨_, running_reopen hfile, rfl⟩
  cases ending with
  | badPort t lev ram logname logsize address =>
      obtain ⟨logger', hrunning, hlevel⟩ := hreopen
        { s with threadCount := t, lev := lev, ramsize := ram } logname logsize h.logToFile
      exact ⟨logger', ⟨hrunning.logToFile, hrunning.log, hrunning.made⟩, hlevel⟩
  | loaded t lev ram logname logsize address port =>
      obtain ⟨logger', hrunning, hlevel⟩ := hreopen
        { s with threadCount := t, lev := lev, ramsize := ram } logname logsize h.logToFile
      exact ⟨logger', ⟨hrunning.logToFile, hrunning.log, hrunning.made⟩, hlevel⟩
  | _ => exact ⟨logger, ⟨h.logToFile, h.log, h.made⟩, rfl⟩

end Ending

variable {env : Environment} {filename : Path} {s s' : Loader} {current current' : Level}
  {ending : Ending}

/-! ## Another process -/

theorem Named.of_threadCount {settings v : Value} (h : Named env filename s settings v)
    (heq : s.threadCount = s'.threadCount) : Named env filename s' settings v :=
  ⟨h.read, h.daemonSection, heq ▸ h.threads, h.name⟩

/-- The end of a load depends on the statics and the level of the log. -/
theorem endsAt_of_statics (h : EndsAt env filename s current ending) (hstatics : s.statics = s'.statics) :
    EndsAt env filename s' current ending := by
  obtain ⟨logToFile, threadCount, lev, sink, log, ramsize, address, port, made⟩ := s
  obtain ⟨logToFile', threadCount', lev', sink', log', ramsize', address', port', made'⟩ := s'
  simp only [Loader.statics, Statics.mk.injEq] at hstatics
  obtain ⟨rfl, -, -, -, rfl, rfl⟩ := hstatics
  cases h with
  | unread hread => exact .unread hread
  | badThreads hread hsection hthreads => exact .badThreads hread hsection hthreads
  | badName hread hsection hthreads hname => exact .badName hread hsection hthreads hname
  | badLevel hn hlevel => exact .badLevel (hn.of_threadCount rfl) hlevel
  | badSize hn hlevel hsize => exact .badSize (hn.of_threadCount rfl) hlevel hsize
  | badRam hn hlevel hsize hram => exact .badRam (hn.of_threadCount rfl) hlevel hsize hram
  | zeroRam hn hlevel hsize hram => exact .zeroRam (hn.of_threadCount rfl) hlevel hsize hram
  | badPort ha hserver hport =>
      exact .badPort ⟨ha.named.of_threadCount rfl, ha.level, ha.size, ha.ram, ha.sink⟩ hserver hport
  | loaded ha hserver hzero hhigh =>
      exact .loaded ⟨ha.named.of_threadCount rfl, ha.level, ha.size, ha.ram, ha.sink⟩ hserver hzero hhigh

/-- The file is read as far as the level and names none, so that the log in use decides. -/
def LeavesLevelOpen (env : Environment) (filename : Path) (s : Loader) : Prop :=
  ∃ settings v, Named env filename s settings v ∧ (v.member "LogLevel").bind env.asString = none

/-- A file that names a level asks for it whatever the log in use is. -/
theorem requestedLevel_named {v : Value} (h : (v.member "LogLevel").bind env.asString ≠ none) :
    requestedLevel env v current = requestedLevel env v current' := by
  obtain ⟨text, htext⟩ := Option.ne_none_iff_exists'.mp h
  simp only [requestedLevel, Environment.lookupString, htext, Option.getD_some]

/-- Unless the file leaves the level open, the end does not depend on the log in use. -/
theorem endsAt_of_level (h : EndsAt env filename s current ending)
    (hlevel : LeavesLevelOpen env filename s → current = current') :
    EndsAt env filename s current' ending := by
  by_cases hopen : LeavesLevelOpen env filename s
  · rw [← hlevel hopen]
    exact h
  have hsame : ∀ settings v, Named env filename s settings v →
      requestedLevel env v current' = requestedLevel env v current := by
    intro settings v hnamed
    refine requestedLevel_named fun hnone => hopen ⟨settings, v, hnamed, hnone⟩
  cases h with
  | unread hread => exact .unread hread
  | badThreads hread hsection hthreads => exact .badThreads hread hsection hthreads
  | badName hread hsection hthreads hname => exact .badName hread hsection hthreads hname
  | badLevel hn hlevel => exact .badLevel hn ((hsame _ _ hn).trans hlevel)
  | badSize hn hlevel hsize => exact .badSize hn ((hsame _ _ hn).trans hlevel) hsize
  | badRam hn hlevel hsize hram => exact .badRam hn ((hsame _ _ hn).trans hlevel) hsize hram
  | zeroRam hn hlevel hsize hram => exact .zeroRam hn ((hsame _ _ hn).trans hlevel) hsize hram
  | badPort ha hserver hport =>
      have hlevel := (hsame _ _ ha.named).trans ha.level
      exact .badPort ⟨ha.named, hlevel, ha.size, ha.ram, ha.sink⟩ hserver hport
  | loaded ha hserver hzero hhigh =>
      have hlevel := (hsame _ _ ha.named).trans ha.level
      exact .loaded ⟨ha.named, hlevel, ha.size, ha.ram, ha.sink⟩ hserver hzero hhigh

/-! ## The same file again -/

theorem threads_threads {v : Value} {threadCount : Nat} :
    threads env v (threads env v threadCount).toNat = threads env v threadCount := by
  unfold threads Environment.lookupInt
  cases (v.member "ThreadCount").bind env.asInt with
  | none => rfl
  | some n => rfl

theorem requestedAddress_requestedAddress {server : Value} {address : String} :
    requestedAddress env server (requestedAddress env server address) =
      requestedAddress env server address := by
  unfold requestedAddress Environment.lookupString
  cases (server.member "Address").bind env.asString with
  | none => rfl
  | some text => rfl

theorem requestedPort_requestedPort (env : Environment) (server : Value) (port : Nat) :
    requestedPort env server (requestedPort env server port) = requestedPort env server port := by
  unfold requestedPort Environment.lookupUnsigned
  cases (server.member "Port").bind env.asUnsigned with
  | none => rfl
  | some n => rfl

/-- A level that is asked for is asked for again when the log has it. -/
theorem requestedLevel_requested {v : Value} {lev : Level}
    (h : requestedLevel env v current = some lev) : requestedLevel env v lev = some lev := by
  by_cases hnone : (v.member "LogLevel").bind env.asString = none
  · have hoff := Level.fromStr_ne_off h
    rw [requestedLevel, Environment.lookupString, hnone, Option.getD_none]
    have hlower : lev.toStr.toLower = lev.toStr := by cases lev <;> decide +kernel
    rw [hlower, Level.fromStr_toStr lev hoff]
  · rw [← h]
    exact requestedLevel_named hnone

theorem threads_again {v : Value}
    (hthreads : s'.threadCount = (threads env v s.threadCount).toNat) :
    threads env v s'.threadCount = threads env v s.threadCount := by
  rw [hthreads, threads_threads]

theorem threadsPass_again {v : Value} (h : ThreadsPass env v s.threadCount)
    (hthreads : s'.threadCount = (threads env v s.threadCount).toNat) :
    ThreadsPass env v s'.threadCount := by
  rw [ThreadsPass, threads_again hthreads]
  exact h

theorem named_again {settings v : Value} (h : Named env filename s settings v)
    (hthreads : s'.threadCount = (threads env v s.threadCount).toNat) :
    Named env filename s' settings v :=
  ⟨h.read, h.daemonSection, threadsPass_again h.threads hthreads, h.name⟩

theorem EndsAt.of_eq {ending' : Ending} (h : EndsAt env filename s current ending)
    (heq : ending = ending') : EndsAt env filename s current ending' :=
  heq ▸ h

/-- A load that is repeated ends at the same place. -/
theorem EndsAt.again (h : EndsAt env filename s current ending) :
    EndsAt env filename (ending.leaves s) (ending.level current) ending := by
  cases h with
  | unread hread => exact .unread hread
  | badThreads hread hsection hthreads => exact .badThreads hread hsection hthreads
  | badName hread hsection hthreads hname =>
      refine EndsAt.of_eq (EndsAt.badName hread hsection (threadsPass_again hthreads rfl) hname) ?_
      rw [threads_again rfl]
  | badLevel hn hlevel =>
      refine EndsAt.of_eq (EndsAt.badLevel (named_again hn rfl) hlevel) ?_
      rw [threads_again rfl]
  | badSize hn hlevel hsize =>
      refine EndsAt.of_eq (EndsAt.badSize (named_again hn rfl) hlevel hsize) ?_
      rw [threads_again rfl]
  | badRam hn hlevel hsize hram =>
      refine EndsAt.of_eq (EndsAt.badRam (named_again hn rfl) hlevel hsize hram) ?_
      rw [threads_again rfl]
  | zeroRam hn hlevel hsize hram =>
      refine EndsAt.of_eq (EndsAt.zeroRam (named_again hn rfl) hlevel hsize hram) ?_
      rw [threads_again rfl]
  | badPort ha hserver hport =>
      refine EndsAt.of_eq (EndsAt.badPort ⟨named_again ha.named rfl,
        requestedLevel_requested ha.level, ha.size, ha.ram, ha.sink⟩ hserver hport) ?_
      rw [threads_again rfl]
      exact congrArg _ requestedAddress_requestedAddress
  | loaded ha hserver hzero hhigh =>
      rename_i settings v server lev logsize ram
      have hport := requestedPort_requestedPort env server s.port
      refine EndsAt.of_eq (EndsAt.loaded ⟨named_again ha.named rfl,
        requestedLevel_requested ha.level, ha.size, ha.ram, ha.sink⟩ hserver ?_ ?_) ?_
      · exact hport.trans_ne hzero
      · exact hport.trans_le hhigh
      · rw [threads_again rfl]
        exact congrArg₂ _ requestedAddress_requestedAddress hport

end Robotd
