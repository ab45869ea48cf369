import Robotd.Host.Ownership

/-!
# The PID file of a running daemon

`names_of_serves`: in every run in which no process removes or truncates the PID file of another,
the PID file names every daemon that has finished `set_pid_file` and has not begun to exit. With
commands one after another this fails: after `restart` the old daemon removes the PID file of the
new one (`restarted_daemon_unnamed`).
-/

namespace Robotd

open Lib Lib.CLib

/-- The daemon has finished `set_pid_file` and has not begun to exit. -/
def Life.Serves : Life → Prop
  | registered => True
  | monitoring watch => watch.Loops
  | _ => False

/-- The process is a command line, not in the background. -/
def Life.Foreground : Life → Prop
  | registering | created _ | signed _ _ | registered | monitoring _ => False
  | _ => True

instance (φ : Life) : Decidable φ.Serves := by
  cases φ <;> unfold Life.Serves <;> infer_instance

instance (φ : Life) : Decidable φ.Foreground := by
  cases φ <;> unfold Life.Foreground <;> infer_instance

instance (φ : Life) (serves : Watch → Prop) [DecidablePred serves] : Decidable (φ.Owns serves) := by
  cases φ <;> unfold Life.Owns <;> infer_instance

namespace Host

/-- The commands come one after another, and only masters are killed. -/
def Sequential (s : Host) : Action → Prop
  | .spawn pid _ argv => pid < 65536 ∧ argument argv 1 ∈ [key 0, key 1, key 2, key 3] ∧
      ∀ q ∈ s.pids, ∀ p ∈ s.process q, ¬p.phase.Foreground
  | .other _ => False
  | .run _ (.child pid) => pid < 65536
  | .crash pid _ => ∀ p ∈ s.process pid, p.phase = .monitoring .master
  | _ => True

instance (s : Host) (a : Action) : Decidable (s.Sequential a) := by
  unfold Sequential
  split <;> infer_instance

instance (s : Host) (a : Action) (serves : Watch → Prop) [DecidablePred serves] :
    Decidable (s.Undisturbed serves a) := by
  unfold Undisturbed
  split <;> infer_instance

theorem marked_of_reached {serves : Watch → Prop} (hserving : Serving serves) {s : Host}
    (h : Machine.Reached step (Undisturbed serves) Idle s) : s.Lawful ∧ s.Marked serves := by
  refine Machine.Reached.invariant (I := fun s => s.Lawful ∧ s.Marked serves) h ?_ ?_
  · exact fun s hidle => ⟨lawful_idle hidle, marked_idle hidle⟩
  · intro s a s' hinv hundisturbed hstep
    exact ⟨lawful_step hinv.1 hstep, marked_step hserving hinv.1 hinv.2 hundisturbed hstep⟩

/-- As long as no process removes or truncates the PID file of another, it names every daemon that
has finished `set_pid_file` and has not begun to exit. -/
theorem names_of_serves {s : Host} (h : Machine.Reached step (Undisturbed Watch.Loops) Idle s)
    {pid : Nat} {p : Process} (hp : s.process pid = some p) (hserves : p.phase.Serves) :
    (s.fs.file pidFile).content = some (decimal pid ++ ['\n']) := by
  have hmarks := (marked_of_reached serving_loops h).2.marks pid p hp
  cases hphase : p.phase with
  | registered =>
      rw [hphase] at hmarks
      exact hmarks
  | monitoring watch =>
      rw [hphase] at hmarks hserves
      exact hmarks hserves
  | _ =>
      rw [hphase] at hserves
      exact absurd hserves id

/-! ## Runs -/

/-- A host with these files and no processes. -/
def ofFiles (files : List (Path × List Char)) : Host :=
  ⟨.ofFiles files, fun _ => none, fun _ => none, []⟩

theorem idle_ofFiles (files : List (Path × List Char)) : (ofFiles files).Idle := fun _ => rfl

/-- A host that has been set up: a configuration, and its record. -/
def installed : Host :=
  ofFiles [("/etc/robotd/daemon.cfg", []), (configLoad, "/etc/robotd/daemon.cfg\n".toList)]

/-- The process makes `n` calls that leave nothing open. -/
def calls (pid n : Nat) : List Action := List.replicate n (.run pid .none)

/-- The start of a daemon, from its load to the wait for a signal: `child` is the monitor and
`master` its master. -/
def launch (pid child : Nat) : List Action :=
  [.run pid (.load (.returned 0 true)), .run pid (.child child), .exit pid] ++
    List.replicate 5 (.run child (.setup (.ok ())))

/-- `load` up to the decision that there is no daemon, with the configuration recorded. -/
def deciding (pid : Nat) : List Action :=
  .spawn pid "/etc/robotd" ["robotd", "load", "daemon.cfg"] :: calls pid 4

/-- `load` without a daemon, up to the loop of the monitor. -/
def loading (pid child master : Nat) : List Action :=
  deciding pid ++ launch pid child ++ calls child 6 ++ [.run child (.child master)]

/-- `restart` up to the end of `set_pid_file`. -/
def restarting (pid child : Nat) : List Action :=
  [.spawn pid "/" ["robotd", "restart"]] ++ calls pid 2 ++ [.run pid (.listing [])] ++ calls pid 4 ++
    launch pid child ++ calls child 5

/-- The first daemon is named. -/
theorem loaded_daemon_named : ∃ s p,
    Machine.run step installed (loading 100 101 102) = some s ∧ s.process 101 = some p ∧
      (s.fs.file pidFile).content = some (decimal 101 ++ ['\n']) := by
  have hrun : ∃ s, Machine.run step installed (loading 100 101 102) = some s ∧
      (s.process 101).any (fun p => decide p.phase.Serves) = true :=
    Machine.exists_run (by decide +kernel)
  obtain ⟨s, hrun, hserves⟩ := hrun
  obtain ⟨p, hp, hserves⟩ := (Option.any_eq_true _ _).mp hserves
  have halong : Machine.Along step (Undisturbed Watch.Loops) installed (loading 100 101 102) := by
    decide +kernel
  have hreached := Machine.Reached.run (.start (idle_ofFiles _)) halong hrun
  exact ⟨s, p, hrun, hp, names_of_serves hreached hp (of_decide_eq_true hserves)⟩

/-- After `restart` the old daemon removes the PID file of the new one. -/
theorem restarted_daemon_unnamed : ¬ ∀ s, Machine.Reached step Sequential Idle s →
    ∀ pid p, s.process pid = some p → p.phase.Serves →
      (∀ q p', s.process q = some p' → p'.phase.Serves → q = pid) →
      (s.fs.file pidFile).content = some (decimal pid ++ ['\n']) := by
  intro hall
  have hrun : ∃ s, Machine.run step installed
      (loading 100 101 102 ++ restarting 200 201 ++ .run 101 (.signal .sigterm) :: calls 101 5) =
        some s ∧
      ((s.process 201).any (fun p => decide p.phase.Serves) = true ∧
        (∀ q ∈ s.pids, ∀ p ∈ s.process q, p.phase.Serves → q = 201) ∧
        (s.fs.file pidFile).current = none) :=
    Machine.exists_run (by decide +kernel)
  obtain ⟨s, hrun, hserves, honly, habsent⟩ := hrun
  obtain ⟨p, hp, hserves⟩ := (Option.any_eq_true _ _).mp hserves
  have halong : Machine.Along step Sequential installed
      (loading 100 101 102 ++ restarting 200 201 ++ .run 101 (.signal .sigterm) :: calls 101 5) := by
    decide +kernel
  have hreached := Machine.Reached.run (.start (idle_ofFiles _)) halong hrun
  have hlawful : s.Lawful :=
    hreached.invariant (fun _ => lawful_idle) fun _ _ _ hlawful _ => lawful_step hlawful
  have hcontent := hall s hreached 201 p hp (of_decide_eq_true hserves)
    fun q p' hp' => honly q (hlawful.listed q p' hp') p' hp'
  rw [File.content, habsent] at hcontent
  cases hcontent

end Host

end Robotd
