import Robotd.Daemon.Worker

/-!
# The same file loaded again

The options that a file leaves out are read from state that the load itself writes, and a load
that fails leaves behind what it had written by then. `reload_again` says that a second load of
the file nevertheless changes nothing more, in any state that a daemon or a master comes to. So a
SIGHUP that is merged with a pending one is not missed.
-/

namespace Robotd

open Lib Lib.CLib Load

/-- What is in force after a load: the statics, and the level of the log in use. -/
def Loader.inForce (s : Loader) : Statics × Option Level := (s.statics, s.level)

/-- The loaders of a daemon and of its masters: one of a new process, one after a load of any file,
whatever the load returned, and one of a master that has been forked and has registered its
slaves. -/
inductive Loader.Comes : Loader → Prop where
  | initial : Comes Loader.initial
  | load {s s' : Loader} {c : LoadCommand} (h : Comes s) (hafter : s.after c = some s') : Comes s'
  | forked {s : Loader} (h : Comes s) (hfile : s.logToFile = true) : Comes s.forked
  | registered {s : Loader} (count : Nat) (h : Comes s) :
      Comes (Worker.registerServices count s).2

/-- Messages go to a log that was made before, and there is a sink for the logs of others. -/
def Loader.Logs (s : Loader) : Prop :=
  s.logToFile = true → (∃ logger, Running s logger) ∧ s.sink ≠ none

variable {env : Environment} {configFile filename : Path} {s s' : Loader} {code : Int}

/-- A load keeps this, whatever it returns, and in a new process it sets the log up. -/
theorem Loader.Logs.load (h : s.Logs)
    (hrun : (daemonLoadConfig env configFile filename).run s = .returned code s') : s'.Logs := by
  have hkeep {threadCount : Nat} {lev : Level} {ramsize : Nat} :
      ({ s with threadCount := threadCount, lev := lev, ramsize := ramsize } : Loader).Logs := by
    intro hfile
    obtain ⟨⟨logger, hrunning⟩, hsink⟩ := h hfile
    exact ⟨⟨logger, hrunning.logToFile, hrunning.log, hrunning.made⟩, hsink⟩
  have hmeets : (daemonLoadConfigOf env [tcpServer env] configFile filename).Meets s
      (fun _ _ => True) (fun _ => Loader.Logs) True := by
    refine meets_daemonLoadConfigOf (fun _ _ => trivial) (fun _ _ _ => trivial)
      (fun _ => ⟨rfl, fun _ _ _ => hkeep⟩) (fun _ _ _ _ _ => ⟨rfl, fun _ _ _ _ => hkeep⟩) ?_
    intro settings v lev logsize ram sizeS loglevel _ _ _
    refine meets_finishLoadOf (fun _ => trivial) fun _ => ?_
    refine (meets_loadSlaveConfigs _ _ _).mono (fun code s' hsame => ⟨hsame.log, ?_⟩)
      fun _ _ hlogs => hlogs
    intro _
    refine ⟨⟨_, rfl, hsame.log, ?_⟩, ?_⟩
    · show s.made + 1 < s'.made
      have hmade : s.made + 2 ≤ s'.made := hsame.made
      omega
    · show s'.sink ≠ none
      rw [hsame.sink]
      exact Option.some_ne_none _
  rw [← daemonLoadConfigOf_tcpServer] at hrun
  exact hmeets.of_returned hrun

theorem Loader.Comes.logs (h : s.Comes) : s.Logs := by
  induction h with
  | initial => exact fun hfile => absurd hfile (by decide)
  | load h hafter ih =>
      unfold Loader.after at hafter
      split at hafter
      · rename_i hrun
        cases hafter
        exact ih.load hrun
      · cases hafter
  | forked h hfile ih =>
      intro _
      obtain ⟨⟨logger, hrunning⟩, hsink⟩ := ih hfile
      exact ⟨running_forked hrunning hsink, hsink⟩
  | registered count h ih =>
      rename_i s
      obtain ⟨heq, hmade⟩ := Worker.registerServices_loader count s
      rw [heq]
      intro hfile
      obtain ⟨⟨logger, hrunning⟩, hsink⟩ := ih hfile
      exact ⟨⟨logger, hrunning.logToFile, hrunning.log, lt_of_lt_of_le hrunning.made hmade⟩, hsink⟩

/-- In a running loader the second load ends at the place of the first one, with the same statics
and the same level. -/
theorem inForce_again {logger : Logger} {ending : Ending} (h : Running s logger)
    (hends : EndsAt env filename s logger.level ending) :
    ∃ s'', (daemonLoadConfig env configFile filename).run (ending.leaves s) =
        .returned ending.code s'' ∧ s''.inForce = (ending.leaves s).inForce := by
  obtain ⟨logger', hrunning, hlevel⟩ := ending.running_leaves h
  obtain ⟨logger'', hrunning', hlevel'⟩ := ending.running_leaves hrunning
  have hagain : EndsAt env filename (ending.leaves s) logger'.level ending := by
    rw [hlevel]
    exact hends.again
  have hsame : (ending.leaves (ending.leaves s)).level = (ending.leaves s).level := by
    -- the level of an end that opens a log is its own, and the others keep the level
    have hfixed : ending.level (ending.level logger.level) = ending.level logger.level := by
      cases ending <;> rfl
    rw [Loader.level, Loader.level, hrunning'.log, hrunning.log]
    show some logger''.level = some logger'.level
    rw [hlevel', hlevel, hfixed]
  refine ⟨ending.leaves (ending.leaves s),
    (daemonLoadConfig_returned_iff hrunning).mpr ⟨ending, hagain, rfl, rfl⟩, ?_⟩
  exact Prod.ext (ending.statics_leaves_leaves s) hsame

/-- A load that has returned is repeated with the same return value, and nothing that is in force
changes. -/
theorem reload_again (hcomes : s.Comes) (hfile : s.logToFile = true)
    (hload : (daemonLoadConfig env configFile filename).run s = .returned code s') :
    ∃ s'', (daemonLoadConfig env configFile filename).run s' = .returned code s'' ∧
      s''.statics = s'.statics ∧ s''.level = s'.level := by
  obtain ⟨⟨logger, hrunning⟩, -⟩ := hcomes.logs hfile
  obtain ⟨ending, hends, rfl, rfl⟩ := (daemonLoadConfig_returned_iff hrunning).mp hload
  obtain ⟨s'', hrun, hforce⟩ := inForce_again hrunning hends
  exact ⟨s'', hrun, congrArg Prod.fst hforce, congrArg Prod.snd hforce⟩

/-- The shipped file, loaded again by a running daemon. -/
theorem cfg_reload_again : ∃ s'', (daemonLoadConfig (.holding (sections daemonCfg tcpServerCfg))
      "daemon.cfg" "daemon.cfg").run { cfgLoader .trace with
        sink := some { cfgSink with id := 2 }
        log := some ⟨3, { cfgSink with id := 2 }, .trace⟩
        made := 4 } = .returned 0 s'' ∧
    s''.statics = (cfgLoader .trace).statics ∧ s''.level = some .trace := by
  have hcomes : (cfgLoader .trace).Comes := by
    refine .load (c := ⟨.holding (sections daemonCfg tcpServerCfg), "daemon.cfg", "daemon.cfg"⟩)
      .initial ?_
    rw [Loader.after, cfg_loads]
  have hload : (daemonLoadConfig (.holding (sections daemonCfg tcpServerCfg)) "daemon.cfg"
      "daemon.cfg").run (cfgLoader .trace) = .returned 0 { cfgLoader .trace with
        sink := some { cfgSink with id := 2 }
        log := some ⟨3, { cfgSink with id := 2 }, .trace⟩
        made := 4 } := by
    decide +kernel
  exact reload_again hcomes rfl hload

end Robotd
