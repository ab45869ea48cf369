import Robotd.Daemon.Worker

/-!
# The loggers of a running master

The level and the sink of the log are held by the statics, by the master's logger and by the
logger of each slave, and a reload updates them in different places. `always_coherent_iff` says
for which runs of reloads they stay the same, for any list of slave classes.
-/

namespace Robotd

open Lib Lib.CLib Load

namespace Worker

/-- The loggers of the master and of the slaves have the static level and the static sink. -/
structure Coherent (w : Worker) : Prop where
  own : ∃ logger, w.loader.log = some logger ∧ logger.level = w.loader.lev ∧
    w.loader.sink = some logger.sink
  services : ∀ service ∈ w.services,
    service.log.level = w.loader.lev ∧ w.loader.sink = some service.log.sink

/-- The reload gets nowhere near a new log: it is rejected before its log level, or it asks for
the level in force and is rejected for a size. -/
def Steady (classes : List (Environment → SlaveClass)) (w : Worker) (c : LoadCommand) : Prop :=
  ∀ settings v lev, Levelled c.env classes.length c.filename w.loader settings v lev →
    lev = w.loader.lev ∧
      ¬ ((∃ n, logSize c.env v = .bytes n) ∧ ∃ n, ramUse c.env v = .bytes n)

variable {classes : List (Environment → SlaveClass)} {T : Environment → SlaveClass}
  {rest : List (Environment → SlaveClass)} {c : LoadCommand} {monitor s : Loader} {w w' : Worker}

/-- With the log kept, only the level counts. -/
theorem coherent_kept_iff (h : w.Coherent) (hlog : s.log = w.loader.log)
    (hsink : s.sink = w.loader.sink) :
    (updateAllLoggers { w with loader := s }).Coherent ↔ s.lev = w.loader.lev := by
  obtain ⟨logger, hown, hlevel, hownSink⟩ := h.own
  constructor
  · rintro ⟨⟨logger', hown', hlevel', -⟩, -⟩
    have hsame : logger' = logger := by
      change s.log = some logger' at hown'
      rw [hlog, hown] at hown'
      exact (Option.some.inj hown').symm
    rw [hsame] at hlevel'
    exact hlevel'.symm.trans hlevel
  · intro hlev
    refine ⟨⟨logger, hlog.trans hown, hlevel.trans hlev.symm, hsink.trans hownSink⟩, ?_⟩
    intro service hmem
    obtain ⟨before, hbefore, rfl⟩ := List.mem_map.mp hmem
    exact ⟨rfl, hsink.trans (h.services before hbefore).2⟩

/-- With a new sink the slaves still write to the old one. -/
theorem not_coherent_reopened {sink : Sink} (h : w.Coherent) (hservices : w.services ≠ [])
    (hlevels : w.loader.Levels) (hsink : s.sink = some sink) (hnew : w.loader.made ≤ sink.id) :
    ¬ (updateAllLoggers { w with loader := s }).Coherent := by
  rintro ⟨-, hall⟩
  obtain ⟨service, others, hcons⟩ := List.exists_cons_of_ne_nil hservices
  have hmem : service ∈ w.services := by simp [hcons]
  have hold := hlevels.sink _ (h.services service hmem).2
  have hkept := (hall _ (List.mem_map_of_mem hmem)).2
  change s.sink = some service.log.sink at hkept
  rw [hsink] at hkept
  cases hkept
  omega

/-- A reload keeps the loggers together exactly when it is steady. -/
theorem coherent_reload_iff (h : w.Coherent) (hservices : w.services ≠ [])
    (hlevels : w.loader.Levels) (hstep : step classes w c = some w') :
    w'.Coherent ↔ Steady classes w c := by
  obtain ⟨⟨code, _⟩, hreload, rfl⟩ := Option.map_eq_some_iff.mp hstep
  obtain ⟨s, hrun, rfl⟩ := reloadConfig_eq_some hreload
  have hmeets : (daemonLoadConfigOf c.env (classes.map fun T => T c.env) c.configFile
      c.filename).Meets w.loader (fun _ _ => False) (fun _ s =>
        (updateAllLoggers { w with loader := s }).Coherent ↔ Steady classes w c) True := by
    refine meets_daemonLoadConfigOf (fun _ _ => trivial) (fun _ _ _ => trivial) ?_ ?_ ?_
    · rw [List.length_map]
      intro hno
      refine ⟨rfl, fun code threadCount _ => iff_of_true ?_ fun _ _ _ hlevelled =>
        absurd hlevelled (hno _ _ _)⟩
      exact (coherent_kept_iff (s := { w.loader with threadCount := threadCount }) h rfl rfl).mpr rfl
    · rw [List.length_map]
      intro settings v lev hlevelled hno
      refine ⟨rfl, fun code threadCount ramsize _ => (coherent_kept_iff (s := { w.loader with
        threadCount := threadCount, lev := lev, ramsize := ramsize }) h rfl rfl).trans ?_⟩
      constructor
      · intro hlev settings' v' lev' hlevelled'
        obtain ⟨rfl, rfl, rfl⟩ := hlevelled.unique hlevelled'
        refine ⟨hlev, ?_⟩
        rintro ⟨⟨n, hsize⟩, m, hram⟩
        exact hno.elim (fun hno => hno n hsize) fun hno => hno m hram
      · intro hsteady
        exact (hsteady settings v lev hlevelled).1
    · rw [List.length_map]
      intro settings v lev logsize ram sizeS loglevel hlevelled hsize hram
      have hunsteady : ¬ Steady classes w c := fun hsteady =>
        (hsteady settings v lev hlevelled).2 ⟨⟨_, hsize⟩, _, hram⟩
      refine meets_finishLoadOf (fun _ => trivial) fun _ => ?_
      refine (meets_loadSlaveConfigs _ _ _).mono (fun code s hsame => ⟨hsame.log, ?_⟩) fun _ _ => id
      exact iff_of_false (not_coherent_reopened h hservices hlevels hsame.sink le_rfl) hunsteady
  exact hmeets.of_returned hrun

/-! ## Runs -/

theorem mem_registerServices (count : Nat) {s : Loader} {sink : Sink} (hsink : s.sink = some sink) :
    ∀ service ∈ (registerServices count s).1, service.log.level = s.lev ∧ service.log.sink = sink := by
  induction count generalizing s with
  | zero => simp [registerServices]
  | succ count ih =>
      have hrest := ih (s := { s with made := s.made + 1 }) hsink
      intro service hmem
      rw [registerServices] at hmem
      split at hmem
      · cases hmem
      · rename_i sink' hsink'
        cases hsink.symm.trans hsink'
        rcases List.mem_cons.mp hmem with rfl | hmem
        · exact ⟨rfl, rfl⟩
        · exact hrest service hmem

/-- A new master is coherent, and has a slave. -/
theorem coherent_start {sink : Sink} (hsink : monitor.sink = some sink) :
    (start (T :: rest) monitor).Coherent ∧ (start (T :: rest) monitor).services ≠ [] := by
  obtain ⟨hloader, -⟩ := start_loader (T :: rest) monitor
  have hforked : monitor.forked.sink = some sink := hsink
  refine ⟨⟨⟨⟨monitor.made, sink, monitor.lev⟩, ?_, ?_, ?_⟩, fun service hmem => ?_⟩, ?_⟩
  · rw [hloader]
    simp only [Loader.forked, hsink, Option.map_some]
  · rw [hloader]
    rfl
  · rw [hloader]
    exact hsink
  · change service ∈ (registerServices (T :: rest).length monitor.forked).1 at hmem
    obtain ⟨hlevel, hservice⟩ := mem_registerServices _ hforked service hmem
    rw [hloader, hservice]
    exact ⟨hlevel, hsink⟩
  · simp [start, registerServices, hforked]

/-- The loggers stay together in a run of reloads exactly when every reload of it that comes to
an end is steady. -/
theorem always_coherent_iff (hmonitor : monitor.Reachable) (hfile : monitor.logToFile = true)
    (commands : List LoadCommand) :
    Machine.Always (step (T :: rest)) Coherent (start (T :: rest) monitor) commands ↔
      Machine.Along (step (T :: rest)) (fun w c => (step (T :: rest) w c).isSome = true →
        Steady (T :: rest) w c) (start (T :: rest) monitor) commands := by
  have hlevels := hmonitor.levels
  obtain ⟨sink, hsink⟩ := Option.ne_none_iff_exists'.mp (hlevels.log hfile).2
  obtain ⟨hcoherent, hservices⟩ : (start (T :: rest) monitor).Coherent ∧
      (start (T :: rest) monitor).services ≠ [] := coherent_start hsink
  refine Machine.always_iff_along (I := fun w => w.services ≠ [] ∧ w.loader.Levels) ?_ ?_
    ⟨hservices, levels_start hlevels⟩ hcoherent
  · rintro w c w' ⟨hservices, hlevels⟩ - hstep -
    obtain ⟨⟨code, _⟩, hreload, rfl⟩ := Option.map_eq_some_iff.mp hstep
    obtain ⟨s, hrun, rfl⟩ := reloadConfig_eq_some hreload
    exact ⟨by simpa [updateAllLoggers] using hservices, hlevels.load hrun⟩
  · rintro w c w' ⟨hservices, hlevels⟩ hcoherent hstep
    exact coherent_reload_iff hcoherent hservices hlevels hstep

theorem bad_size_coherent :
    Machine.Always (step [tcpServer]) Coherent (start [tcpServer] (cfgLoader .trace))
        [configured [("LogName", .string "/var/log/robot"), ("Size", .string "40g")] []] ↔
      Machine.Along (step [tcpServer]) (fun w c => (step [tcpServer] w c).isSome = true →
        Steady [tcpServer] w c) (start [tcpServer] (cfgLoader .trace))
        [configured [("LogName", .string "/var/log/robot"), ("Size", .string "40g")] []] :=
  always_coherent_iff cfg_reachable rfl _

/-- After a reload of the shipped file the slave writes to the old sink. -/
theorem reloaded_cfg_incoherent : ¬ ∀ T rest monitor commands, monitor.Reachable →
    monitor.logToFile = true →
      Machine.Always (step (T :: rest)) Coherent (start (T :: rest) monitor) commands := by
  intro hall
  have halways := hall tcpServer [] (cfgLoader .trace) [configured daemonCfg tcpServerCfg]
    cfg_reachable rfl
  have hsteady := ((always_coherent_iff cfg_reachable rfl _).mp halways).1 (by decide +kernel)
  have hlevelled : Levelled (configured daemonCfg tcpServerCfg).env 1 "daemon.cfg"
      (start [tcpServer] (cfgLoader .trace)).loader (sections daemonCfg tcpServerCfg)
      (.group daemonCfg) .trace :=
    ⟨rfl, rfl, by decide +kernel, by decide +kernel, by decide +kernel⟩
  exact (hsteady _ _ _ hlevelled).2 ⟨⟨40 * 1024, by decide +kernel⟩, 16 * 1024 * 1024, by decide +kernel⟩

end Worker

end Robotd
