import Robotd.Daemon.Hangup
import Robotd.Lib.Machine
import Robotd.Loader.Statics

/-!
# The monitor and its master reload

Two processes handle a SIGHUP one after the other: the monitor loads the file and forwards the
signal, the master loads the file as well. A master that has died is replaced by a fork of the
monitor. `Duo` is the machine of both with the file system they read; a file is only changed
while no SIGHUP is pending or being handled, and a load that throws is not a step.
-/

namespace Robotd

open Lib Lib.CLib

/-- How far the handling of a SIGHUP is: none is handled, it has been taken, or the file has been
loaded and the rest is to be done. -/
inductive Stage where
  | waiting
  | taken
  | loaded
  deriving DecidableEq, Repr

/-- One of the processes. Pending SIGHUPs are one. -/
structure Reloader where
  loader : Loader
  pending : Bool
  stage : Stage
  deriving DecidableEq, Repr

namespace Reloader

/-- `sigwaitinfo` returns the SIGHUP. -/
def take (p : Reloader) : Option Reloader :=
  if p.pending = true ∧ p.stage = .waiting then
    some { p with pending := false, stage := .taken }
  else none

/-- `daemon_load_config`. -/
def load (env : Environment) (configFile path : Path) (p : Reloader) : Option Reloader :=
  if p.stage = .taken then
    match (daemonLoadConfig env configFile path).run p.loader with
    | .returned _ s => some { p with loader := s, stage := .loaded }
    | _ => none
  else none

/-- The rest of the handling, up to the next wait. -/
def finish (p : Reloader) : Option Reloader :=
  if p.stage = .loaded then some { p with stage := .waiting } else none

/-- The whole handling of a SIGHUP. -/
def round (env : Environment) (configFile path : Path) (p : Reloader) : Option Reloader :=
  p.take >>= load env configFile path >>= finish

/-- No SIGHUP is pending or being handled. -/
def Quiet (p : Reloader) : Prop := p.pending = false ∧ p.stage = .waiting

instance (p : Reloader) : Decidable p.Quiet := inferInstanceAs (Decidable (_ ∧ _))

end Reloader

/-- The loader of a new master: the statics are copied by `fork`, and the constructor makes a
logger of its own. -/
def Loader.forked (s : Loader) : Loader :=
  { s with log := s.sink.map fun sink => ⟨s.made, sink, s.lev⟩, made := s.made + 1 }

/-- The monitor, its master as long as it lives, and what both find in the system: the files, and
the path that is recorded in `CONFIG_LOAD`. -/
structure Duo where
  env : Environment
  configFile : Path
  path : Path
  monitor : Reloader
  master : Option Reloader

namespace Duo

inductive Action where
  | configure (env : Environment) (path : Path)
  | hangup
  | take
  | load
  | forward
  | fork
  | masterTake
  | masterLoad
  | masterFinish
  | die

/-- The monitor's load. -/
def Action.loads : Action → Bool
  | load => true
  | _ => false

def Quiet (d : Duo) : Prop := d.monitor.Quiet ∧ ∀ x ∈ d.master, x.Quiet

instance (d : Duo) : Decidable d.Quiet := inferInstanceAs (Decidable (_ ∧ ∀ x ∈ _, _))

/-- The monitor makes a step of its own. -/
def monitorStep (d : Duo) (f : Reloader → Option Reloader) : Option Duo :=
  (f d.monitor).map fun p => { d with monitor := p }

/-- The master makes a step of its own. -/
def masterStep (d : Duo) (f : Reloader → Option Reloader) : Option Duo :=
  (d.master.bind f).map fun x => { d with master := some x }

def step (d : Duo) : Action → Option Duo
  | .configure env path => if d.Quiet then some { d with env := env, path := path } else none
  | .hangup => some { d with monitor := { d.monitor with pending := true } }
  | .take => d.monitorStep Reloader.take
  | .load => d.monitorStep (Reloader.load d.env d.configFile d.path)
  | .forward => d.monitorStep Reloader.finish |>.map fun d =>
      { d with master := d.master.map fun x => { x with pending := true } }
  | .fork =>
      if d.master = none ∧ d.monitor.stage = .waiting then
        some { d with master := some ⟨d.monitor.loader.forked, false, .waiting⟩ }
      else none
  | .masterTake => d.masterStep Reloader.take
  | .masterLoad => d.masterStep (Reloader.load d.env d.configFile d.path)
  | .masterFinish => d.masterStep Reloader.finish
  | .die => d.master.map fun _ => { d with master := none }

/-- A monitor that has not forked yet. -/
def Started (d : Duo) : Prop :=
  (∃ logger, Running d.monitor.loader logger) ∧ d.monitor.loader.sink ≠ none ∧
    d.monitor.stage = .waiting ∧ d.master = none

/-- The live master has the configuration of the monitor. -/
def Agrees (d : Duo) : Prop := ∀ x ∈ d.master, x.loader.statics = d.monitor.loader.statics

instance (d : Duo) : Decidable d.Agrees := inferInstanceAs (Decidable (∀ x ∈ _, _))

/-- Whenever the monitor loads a file that leaves the level open, the loggers of both processes
have the same level. -/
def LevelsSettled (d : Duo) (a : Action) : Prop :=
  a = .load → LeavesLevelOpen d.env d.path d.monitor.loader →
    ∀ x ∈ d.master, x.loader.level = d.monitor.loader.level

end Duo

/-! ## What a load does in either process -/

section Loads

variable {env : Environment} {configFile path : Path} {m x : Loader} {ending : Ending}
  {logger : Logger} {code : Int}

/-- Loading the file in this loader ends at this place. -/
def LoadsTo (env : Environment) (path : Path) (s : Loader) (ending : Ending) : Prop :=
  ∃ logger, Running s logger ∧ EndsAt env path s logger.level ending

theorem loadsTo_of_returned (h : Running m logger)
    (hrun : (daemonLoadConfig env configFile path).run m = .returned code x) :
    ∃ ending, LoadsTo env path m ending ∧ x = ending.leaves m := by
  obtain ⟨ending, hends, -, hleaves⟩ := (daemonLoadConfig_returned_iff h).mp hrun
  exact ⟨ending, ⟨logger, h, hends⟩, hleaves⟩

theorem LoadsTo.leaves (h : LoadsTo env path m ending)
    (hrun : (daemonLoadConfig env configFile path).run m = .returned code x) :
    x = ending.leaves m := by
  obtain ⟨logger, hrunning, hends⟩ := h
  rw [daemonLoadConfig_eq hrunning, loadMeaning_of_endsAt hends] at hrun
  cases hrun
  rfl

theorem LoadsTo.again (h : LoadsTo env path m ending) :
    LoadsTo env path (ending.leaves m) ending := by
  obtain ⟨logger, hrunning, hends⟩ := h
  obtain ⟨logger', hrunning', hlevel⟩ := ending.running_leaves hrunning
  exact ⟨logger', hrunning', hlevel ▸ hends.again⟩

/-- A process with the same statics loads the file to the same place, if the level is settled. -/
theorem LoadsTo.other (h : LoadsTo env path m ending) (hx : Running x logger)
    (hstatics : x.statics = m.statics) (hlevel : LeavesLevelOpen env path m → x.level = m.level) :
    LoadsTo env path x ending := by
  obtain ⟨logger', hrunning, hends⟩ := h
  refine ⟨logger, hx, endsAt_of_statics (endsAt_of_level hends ?_) hstatics.symm⟩
  intro hopen
  have hsame := hlevel hopen
  rw [Loader.level, Loader.level, hx.log, hrunning.log] at hsame
  exact (Option.some.inj hsame).symm

theorem sink_leaves (h : m.sink ≠ none) (ending : Ending) : (ending.leaves m).sink ≠ none := by
  cases ending with
  | badPort | loaded => exact Option.some_ne_none _
  | _ => exact h

theorem running_forked (h : Running m logger) (hsink : m.sink ≠ none) :
    ∃ logger', Running m.forked logger' := by
  obtain ⟨sink, hsink⟩ := Option.ne_none_iff_exists'.mp hsink
  refine ⟨⟨m.made, sink, m.lev⟩, h.logToFile, ?_, Nat.lt_succ_self _⟩
  simp only [Loader.forked, hsink, Option.map_some]

end Loads

namespace Reloader

variable {p p' : Reloader} {env : Environment} {configFile path : Path}

theorem take_eq_some (h : p.take = some p') : (p.pending = true ∧ p.stage = .waiting) ∧
    p' = { p with pending := false, stage := .taken } := by
  rw [take, Option.ite_none_right_eq_some] at h
  exact ⟨h.1, (Option.some.inj h.2).symm⟩

theorem finish_eq_some (h : p.finish = some p') :
    p.stage = .loaded ∧ p' = { p with stage := .waiting } := by
  rw [finish, Option.ite_none_right_eq_some] at h
  exact ⟨h.1, (Option.some.inj h.2).symm⟩

theorem load_eq_some (h : p.load env configFile path = some p') :
    p.stage = .taken ∧ ∃ code s, (daemonLoadConfig env configFile path).run p.loader =
      .returned code s ∧ p' = { p with loader := s, stage := .loaded } := by
  rw [load, Option.ite_none_right_eq_some] at h
  obtain ⟨hstage, h⟩ := h
  split at h
  · cases h
    exact ⟨hstage, _, _, by assumption, rfl⟩
  · cases h

/-- A pending SIGHUP is handled by loading the file. -/
theorem round_eq_some_iff {hup : Hangup} {logger : Logger} (h : Running p.loader logger)
    (hpending : p.pending = true) (hwaiting : p.stage = .waiting) :
    p.round hup.env hup.configFile hup.path = some p' ↔
      ∃ out, hup.load hup.path p.loader = some out ∧ p' = ⟨out.2, false, .waiting⟩ := by
  have htake : p.take = some { p with pending := false, stage := .taken } :=
    if_pos ⟨hpending, hwaiting⟩
  rw [round, htake, Option.bind_eq_bind, Option.bind_some, load, if_pos rfl, Hangup.load]
  cases hrun : (daemonLoadConfig hup.env hup.configFile hup.path).run p.loader with
  | next a s =>
      rw [daemonLoadConfig_eq h] at hrun
      exact absurd hrun loadMeaning_ne_next
  | returned code s => simp [finish, eq_comm]
  | thrown e => simp

/-- What the monitor's code does with a SIGHUP is a round of the machine. -/
theorem monitorLoop_round {hup : Hangup} {logger : Logger} {pid : Nat} {status : Int}
    {siginfo : Option Signal} (hpid : 0 < pid) (h : Running p.loader logger)
    (hpending : p.pending = true) (hwaiting : p.stage = .waiting) {s' : Loader} :
    Program.wp hup.respond (monitorLoop ⟨false, pid, status, siginfo⟩).program p.loader
        (fun next s _ => next = .monitor ⟨false, pid, status, some .sighup⟩ ∧ s = s') False ↔
      p.round hup.env hup.configFile hup.path = some ⟨s', false, .waiting⟩ := by
  rw [wp_monitorLoop hpid, round_eq_some_iff h hpending hwaiting]
  refine exists_congr fun out => and_congr_right fun _ => ?_
  simp [eq_comm]

/-- So is what the master's code does with it. -/
theorem workLoop_round {hup : Hangup} {logger : Logger} (h : Running p.loader logger)
    (hpending : p.pending = true) (hwaiting : p.stage = .waiting) {s' : Loader} :
    Program.wp hup.respond workLoop.program p.loader (fun next s _ => next = .work ∧ s = s') False ↔
      p.round hup.env hup.configFile hup.path = some ⟨s', false, .waiting⟩ := by
  rw [wp_workLoop, round_eq_some_iff h hpending hwaiting]
  refine exists_congr fun out => and_congr_right fun _ => ?_
  simp [eq_comm]

end Reloader

namespace Duo

variable {d d' : Duo} {x : Reloader}

theorem monitorStep_eq_some {f : Reloader → Option Reloader} (h : d.monitorStep f = some d') :
    ∃ p, f d.monitor = some p ∧ d' = { d with monitor := p } := by
  obtain ⟨p, hp, hd⟩ := Option.map_eq_some_iff.mp h
  exact ⟨p, hp, hd.symm⟩

theorem masterStep_eq_some {f : Reloader → Option Reloader} (h : d.masterStep f = some d') :
    ∃ x x', d.master = some x ∧ f x = some x' ∧ d' = { d with master := some x' } := by
  obtain ⟨x', hbind, hd⟩ := Option.map_eq_some_iff.mp h
  obtain ⟨x, hx, hf⟩ := Option.bind_eq_some_iff.mp hbind
  exact ⟨x, x', hx, hf, hd.symm⟩

/-! ## The invariant -/

/-- The master has a load to do: its SIGHUP is pending, taken or about to be sent. -/
def MustLoad (d : Duo) (x : Reloader) : Prop :=
  x.pending = true ∨ x.stage = .taken ∨ d.monitor.stage = .loaded

/-- The file takes the monitor nowhere new, and the master to where the monitor is. -/
def Owes (d : Duo) (x : Reloader) : Prop :=
  ∃ ending : Ending, LoadsTo d.env d.path d.monitor.loader ending ∧
    (ending.leaves d.monitor.loader).statics = d.monitor.loader.statics ∧
    LoadsTo d.env d.path x.loader ending ∧
    (ending.leaves x.loader).statics = d.monitor.loader.statics

/-- The invariant of all runs: a master without a load to do agrees with the monitor. -/
structure Together (d : Duo) : Prop where
  monitor : ∃ logger, Running d.monitor.loader logger
  sink : d.monitor.loader.sink ≠ none
  master : ∀ x ∈ d.master, ∃ logger, Running x.loader logger
  owes : ∀ x ∈ d.master, d.MustLoad x → d.Owes x
  agrees : ∀ x ∈ d.master, ¬ d.MustLoad x → x.loader.statics = d.monitor.loader.statics

theorem together_of_started (h : d.Started) : d.Together := by
  obtain ⟨hmonitor, hsink, -, hmaster⟩ := h
  refine ⟨hmonitor, hsink, ?_, ?_, ?_⟩ <;> simp [hmaster]

/-- A step of the monitor that keeps its loader and the loads to be done keeps the invariant. -/
theorem Together.of_monitor {p : Reloader} (h : d.Together) (hloader : p.loader = d.monitor.loader)
    (hstage : p.stage = .loaded ↔ d.monitor.stage = .loaded) :
    Together { d with monitor := p } := by
  have hmust : ∀ x, MustLoad { d with monitor := p } x ↔ d.MustLoad x := by
    intro x
    simp only [MustLoad, hstage]
  refine ⟨?_, ?_, h.master, ?_, ?_⟩
  · show ∃ logger, Running p.loader logger
    rw [hloader]
    exact h.monitor
  · show p.loader.sink ≠ none
    rw [hloader]
    exact h.sink
  · intro x hx hload
    have howes := h.owes x hx ((hmust x).mp hload)
    unfold Owes at howes ⊢
    rw [show ({ d with monitor := p } : Duo).monitor.loader = d.monitor.loader from hloader]
    exact howes
  · intro x hx hload
    show x.loader.statics = p.loader.statics
    rw [hloader]
    exact h.agrees x hx fun hmustload => hload ((hmust x).mpr hmustload)

/-- The load of the monitor leaves it where the file takes the master. -/
theorem together_load {p : Reloader} (h : d.Together) (hsettled : d.LevelsSettled .load)
    (hload : d.monitor.load d.env d.configFile d.path = some p) :
    Together { d with monitor := p } := by
  obtain ⟨-, code, s, hrun, rfl⟩ := Reloader.load_eq_some hload
  obtain ⟨logger, hrunning⟩ := h.monitor
  obtain ⟨ending, hends, rfl⟩ := loadsTo_of_returned hrunning hrun
  have hagain := Ending.statics_leaves_leaves d.monitor.loader ending
  obtain ⟨logger', hrunning', -⟩ := ending.running_leaves hrunning
  refine ⟨⟨logger', hrunning'⟩, sink_leaves h.sink ending, h.master, ?_, ?_⟩
  · intro x hx _
    by_cases hmust : d.MustLoad x
    · -- The file has been loaded before: it takes the monitor nowhere.
      obtain ⟨ending', hends', hsame, hother, htarget⟩ := h.owes x hx hmust
      have hleaves := hends'.leaves hrun
      refine ⟨ending', ?_, ?_, hother, ?_⟩
      · show LoadsTo d.env d.path (ending.leaves d.monitor.loader) ending'
        rw [hleaves]
        exact hends'.again
      · show (ending'.leaves (ending.leaves d.monitor.loader)).statics = _
        rw [hleaves]
        exact Ending.statics_leaves_leaves d.monitor.loader ending'
      · show _ = (ending.leaves d.monitor.loader).statics
        rw [hleaves, hsame]
        exact htarget
    · obtain ⟨xlogger, hx'⟩ := h.master x hx
      have hstatics := h.agrees x hx hmust
      refine ⟨ending, hends.again, hagain, ?_, Ending.statics_leaves hstatics ending⟩
      exact hends.other hx' hstatics fun hopen => hsettled rfl hopen x hx
  · intro x _ hmust
    exact absurd (.inr (.inr rfl)) hmust

/-- A master that takes its SIGHUP, or is through with it, keeps the invariant. -/
theorem Together.of_master {x x' : Reloader} (h : d.Together) (hx : d.master = some x)
    (hloader : x'.loader = x.loader) (hmust : d.MustLoad x' ↔ d.MustLoad x) :
    Together { d with master := some x' } := by
  refine ⟨h.monitor, h.sink, ?_, ?_, ?_⟩
  · intro y hy
    cases hy
    rw [hloader]
    exact h.master x hx
  · intro y hy hload
    cases hy
    have howes := h.owes x hx (hmust.mp hload)
    unfold Owes at howes ⊢
    rw [hloader]
    exact howes
  · intro y hy hload
    cases hy
    rw [hloader]
    exact h.agrees x hx fun hmustload => hload (hmust.mpr hmustload)

/-- The load of the master takes it to where the monitor is. -/
theorem together_masterLoad {x x' : Reloader} (h : d.Together) (hx : d.master = some x)
    (hload : x.load d.env d.configFile d.path = some x') :
    Together { d with master := some x' } := by
  obtain ⟨hstage, code, s, hrun, rfl⟩ := Reloader.load_eq_some hload
  obtain ⟨ending, hmonitor, hsame, hmaster, htarget⟩ := h.owes x hx (.inr (.inl hstage))
  obtain rfl := hmaster.leaves hrun
  refine ⟨h.monitor, h.sink, ?_, ?_, ?_⟩
  · intro y hy
    cases hy
    obtain ⟨logger, hrunning⟩ := h.master x hx
    obtain ⟨logger', hrunning', -⟩ := ending.running_leaves hrunning
    exact ⟨logger', hrunning'⟩
  · intro y hy _
    cases hy
    exact ⟨ending, hmonitor, hsame, hmaster.again, (Ending.statics_leaves_leaves _ _).trans htarget⟩
  · intro y hy _
    cases hy
    exact htarget

theorem together_step {a : Action} (h : d.Together) (hsettled : d.LevelsSettled a)
    (hstep : d.step a = some d') : d'.Together := by
  cases a with
  | configure env path =>
      simp only [step, Option.ite_none_right_eq_some] at hstep
      obtain ⟨⟨hmonitor, hmaster⟩, hd⟩ := hstep
      cases hd
      have hmust : ∀ x ∈ d.master, ¬ d.MustLoad x := by
        intro x hx hmust
        obtain ⟨hpending, hwaiting⟩ := hmaster x hx
        unfold MustLoad at hmust
        rw [hpending, hwaiting, hmonitor.2] at hmust
        exact absurd hmust (by decide)
      refine ⟨h.monitor, h.sink, h.master, ?_, fun x hx _ => h.agrees x hx (hmust x hx)⟩
      intro x hx hload
      exact absurd hload (hmust x hx)
  | hangup =>
      cases hstep
      exact h.of_monitor rfl Iff.rfl
  | take =>
      obtain ⟨p, htake, rfl⟩ := monitorStep_eq_some hstep
      obtain ⟨⟨-, hwaiting⟩, rfl⟩ := Reloader.take_eq_some htake
      exact h.of_monitor rfl (by simp [hwaiting])
  | load =>
      obtain ⟨p, hload, rfl⟩ := monitorStep_eq_some hstep
      exact together_load h hsettled hload
  | forward =>
      obtain ⟨_, hmonitor, rfl⟩ := Option.map_eq_some_iff.mp hstep
      obtain ⟨p, hfinish, rfl⟩ := monitorStep_eq_some hmonitor
      obtain ⟨hstage, rfl⟩ := Reloader.finish_eq_some hfinish
      refine ⟨h.monitor, h.sink, ?_, ?_, ?_⟩
      · intro y hy
        obtain ⟨x, hx, rfl⟩ := Option.map_eq_some_iff.mp hy
        exact h.master x hx
      · intro y hy _
        obtain ⟨x, hx, rfl⟩ := Option.map_eq_some_iff.mp hy
        exact h.owes x hx (.inr (.inr hstage))
      · intro y hy hmust
        obtain ⟨x, hx, rfl⟩ := Option.map_eq_some_iff.mp hy
        exact absurd (.inl rfl) hmust
  | fork =>
      simp only [step, Option.ite_none_right_eq_some] at hstep
      obtain ⟨⟨-, hwaiting⟩, hd⟩ := hstep
      cases hd
      obtain ⟨logger, hrunning⟩ := h.monitor
      refine ⟨h.monitor, h.sink, ?_, ?_, ?_⟩
      · intro x hx
        cases hx
        exact running_forked hrunning h.sink
      · intro x hx hmust
        cases hx
        simp [MustLoad, hwaiting] at hmust
      · intro x hx _
        cases hx
        rfl
  | masterTake =>
      obtain ⟨x, x', hx, htake, rfl⟩ := masterStep_eq_some hstep
      obtain ⟨⟨hpending, -⟩, rfl⟩ := Reloader.take_eq_some htake
      exact h.of_master hx rfl (iff_of_true (.inr (.inl rfl)) (.inl hpending))
  | masterLoad =>
      obtain ⟨x, x', hx, hload, rfl⟩ := masterStep_eq_some hstep
      exact together_masterLoad h hx hload
  | masterFinish =>
      obtain ⟨x, x', hx, hfinish, rfl⟩ := masterStep_eq_some hstep
      obtain ⟨hstage, rfl⟩ := Reloader.finish_eq_some hfinish
      exact h.of_master hx rfl (by simp [MustLoad, hstage])
  | die =>
      obtain ⟨x, hx, rfl⟩ := Option.map_eq_some_iff.mp hstep
      refine ⟨h.monitor, h.sink, ?_, ?_, ?_⟩ <;> simp

/-- Along runs in which the levels are settled, the master agrees with the monitor whenever no
SIGHUP is pending or being handled. -/
theorem agrees_when_quiet (h : Machine.Reached step LevelsSettled Started d) (hquiet : d.Quiet) :
    d.Agrees := by
  have htogether : d.Together := h.invariant (fun _ => together_of_started) fun _ _ _ => together_step
  obtain ⟨hmonitor, hmaster⟩ := hquiet
  intro x hx
  refine htogether.agrees x hx fun hmust => ?_
  obtain ⟨hpending, hwaiting⟩ := hmaster x hx
  unfold MustLoad at hmust
  rw [hpending, hwaiting, hmonitor.2] at hmust
  exact absurd hmust (by decide)

/-- A monitor that runs with the shipped file. -/
def cfgDuo : Duo where
  env := .holding (sections daemonCfg tcpServerCfg)
  configFile := "/etc/robotd/daemon.cfg"
  path := "/etc/robotd/daemon.cfg"
  monitor := ⟨cfgLoader .info, false, .waiting⟩
  master := none

theorem started_cfgDuo : cfgDuo.Started :=
  ⟨⟨_, running_cfgLoader .info⟩, by decide, rfl, rfl⟩

/-- A SIGHUP is sent and handled by both processes. -/
def reloaded : List Action :=
  [.hangup, .take, .load, .forward, .masterTake, .masterLoad, .masterFinish]

/-- After a reload of the shipped file both have the configuration it gives. -/
theorem shipped_file_agrees :
    ∃ d, Machine.run step cfgDuo (.fork :: reloaded) = some d ∧ d.Agrees := by
  -- The monitor loads while both loggers have the level `info`.
  have halong : Machine.Along step (fun d a => a.loads = true →
      ∀ x ∈ d.master, x.loader.level = d.monitor.loader.level) cfgDuo (.fork :: reloaded) := by
    decide +kernel
  have hrun : ∃ d, Machine.run step cfgDuo (.fork :: reloaded) = some d ∧ d.Quiet :=
    Machine.exists_run (by decide +kernel)
  obtain ⟨d, hrun, hquiet⟩ := hrun
  have hreached := (Machine.Reached.start started_cfgDuo).run halong hrun
  have hsettled : ∀ d a, (a.loads = true →
      ∀ x ∈ d.master, x.loader.level = d.monitor.loader.level) → LevelsSettled d a :=
    fun d a hlevels hload _ => hlevels (hload ▸ rfl)
  exact ⟨d, hrun, agrees_when_quiet (hreached.mono hsettled) hquiet⟩

/-- A file that asks for another level and is rejected for its size. -/
def badSizeDebugCfg : Value :=
  sections [("LogName", .string "/var/log/robot"), ("LogLevel", .string "debug"),
    ("Size", .string "40g")] []

/-- A file without a level. -/
def noLevelCfg : Value :=
  sections [("LogName", .string "/var/log/robot"), ("Size", .string "40k"),
    ("MaxRamUse", .string "16m")] tcpServerCfg

/-- A rejected level, a new master, and a file without a level. -/
def levelLost : List Action :=
  .fork :: .configure (.holding badSizeDebugCfg) "/etc/robotd/daemon.cfg" :: reloaded ++
    .die :: .fork :: .configure (.holding noLevelCfg) "/etc/robotd/daemon.cfg" :: reloaded

/-- The rejected file leaves `lev` behind, the new master takes its logger's level from it, and
the last file makes the monitor keep the level of its old logger. -/
theorem level_lost_disagrees :
    ¬ ∀ d, Machine.Reached step (fun _ _ => True) Started d → d.Quiet → d.Agrees := by
  intro hagrees
  have hrun : ∃ d, Machine.run step cfgDuo levelLost = some d ∧ d.Quiet ∧ ¬ d.Agrees :=
    Machine.exists_run (by decide +kernel)
  obtain ⟨d, hrun, hquiet, hdisagree⟩ := hrun
  have halong : Machine.Along step (fun _ _ => True) cfgDuo levelLost := by decide +kernel
  exact hdisagree (hagrees d ((Machine.Reached.start started_cfgDuo).run halong hrun) hquiet)

end Duo

end Robotd
