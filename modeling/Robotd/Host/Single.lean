import Robotd.Cli.Verdict
import Robotd.Host.Restart

/-!
# One daemon at a time

The check of the PID file and of `/proc` and the act it decides, `daemon_load_config` up to
`set_pid_file`, are many steps apart. `Apart` keeps them apart: no command is between its check and
its decision while another starts a daemon. `alone_step` shows that the check is then enough, and
`monitors_eq` that no two monitors live at once. Two `load`s that check before either has written
its PID file break it (`two_loads_two_monitors`).
-/

namespace Robotd

open Lib Lib.CLib Cli

namespace Life

/-- The command has begun to look for a daemon, and has not found one. -/
def Checking : Life → Prop
  | found _ | numbered _ | stale | vacant => True
  | _ => False

/-- A daemon that is being started, or that has removed its PID file. -/
def Busy : Life → Prop
  | starting | registering | created _ | signed _ _ | monitoring (.unlinked _) => True
  | _ => False

/-- A daemon with its PID file. -/
def Running : Life → Prop
  | registered => True
  | monitoring watch => watch.Present
  | _ => False

/-- A monitor: it has returned from `set_pid_file`. -/
def Monitor : Life → Prop
  | registered => True
  | monitoring watch => watch ≠ .master
  | _ => False

def Daemon (φ : Life) : Prop := φ.Busy ∨ φ.Running

/-- What a command knows is what there is to know of the running daemon `pid`. -/
def Informed (fs : FileSystem) (pid : Nat) : Life → Prop
  | found h => h.path = pidFile ∧ (fs.file pidFile).current = some h.ino
  | numbered text => text = decimal pid ++ ['\n']
  | stale | vacant => False
  | _ => True

instance (φ : Life) : Decidable φ.Checking := match φ with
  | found _ | numbered _ | stale | vacant => isTrue trivial
  | arriving | addressed _ | wordless | told | starting | parted | registering | created _
    | signed _ _ | registered | monitoring _ => isFalse id

instance (φ : Life) : Decidable φ.Busy := match φ with
  | starting | registering | created _ | signed _ _ | monitoring (.unlinked _) => isTrue trivial
  | arriving | found _ | numbered _ | stale | vacant | addressed _ | wordless | told | parted
    | registered | monitoring .forking | monitoring (.waiting _) | monitoring (.got _ _)
    | monitoring .ending | monitoring .master => isFalse id

theorem daemon_monitoring {watch : Watch} : (monitoring watch).Daemon ↔ watch ≠ .master := by
  cases watch with
  | unlinked children => exact iff_of_true (.inl trivial) nofun
  | master =>
      refine iff_of_false (fun h => ?_) fun h => h rfl
      rcases h with h | h <;> exact h
  | _ => exact iff_of_true (.inr trivial) nofun

theorem Monitor.daemon {φ : Life} (h : φ.Monitor) : φ.Daemon := by
  cases φ with
  | registered => exact .inr trivial
  | monitoring watch => exact daemon_monitoring.mpr h
  | _ => exact absurd h id

theorem Running.owns {φ : Life} (h : φ.Running) : φ.Owns Watch.Present := by
  cases φ with
  | registered => trivial
  | monitoring watch => exact h
  | _ => exact absurd h id

theorem daemon_of_owns {φ : Life} (h : φ.Owns Watch.Present) : φ.Daemon := by
  cases φ with
  | created | signed => exact .inl trivial
  | registered => exact .inr trivial
  | monitoring watch => exact .inr h
  | _ => exact absurd h id

theorem informed_of_not_checking {φ : Life} {fs : FileSystem} {pid : Nat} (h : ¬φ.Checking) :
    φ.Informed fs pid := by
  cases φ with
  | found | numbered | stale | vacant => exact absurd trivial h
  | _ => trivial

theorem informed_congr {φ : Life} {fs fs' : FileSystem} {pid : Nat} (h : φ.Informed fs pid)
    (hfile : fs'.file pidFile = fs.file pidFile) : φ.Informed fs' pid := by
  cases φ with
  | found f => exact ⟨h.1, by rw [hfile, h.2]⟩
  | numbered | stale | vacant => exact h
  | _ => trivial

/-! ## One call -/

variable {option : String} {φ φ' : Life} {e : Event}

theorem moves_master {watch watch' : Watch} (h : Robotd.Moves watch e watch')
    (hmaster : watch = .master) : watch' = .master := by
  cases h with
  | background hcalm hc r => exact hmaster
  | masterSignal signal => rfl
  | signal hwatch signal => rcases hwatch with rfl | rfl <;> cases hmaster
  | unlink hleaving r =>
      rw [hmaster] at hleaving
      exact absurd hleaving id
  | _ => cases hmaster

/-- A daemon has been one, or has been started from a phase that allows it. -/
theorem daemon_of_moves (h : Moves option φ e φ') (hdaemon : φ'.Daemon) : φ.Daemon ∨ φ.Opens := by
  cases h with
  | rest | fails => exact .inl hdaemon
  | start hopens r => exact .inr hopens
  | child | create | sign | register => exact .inl (.inl trivial)
  | watch r => exact .inl (.inr trivial)
  | monitor hmoves =>
      refine .inl (daemon_monitoring.mpr fun hmaster => ?_)
      exact daemon_monitoring.mp hdaemon (moves_master hmoves hmaster)
  | _ => rcases hdaemon with h | h <;> exact absurd h id

theorem running_of_moves (h : Moves option φ e φ') (hrunning : φ'.Running) :
    φ.Running ∨ ∃ h n, φ = signed h n := by
  cases h with
  | rest | fails => exact .inl hrunning
  | register r => exact .inr ⟨_, _, rfl⟩
  | watch r => exact .inl trivial
  | monitor hmoves => exact .inl (serving_present.back hmoves hrunning).1
  | _ => exact absurd hrunning id

/-- A daemon that keeps running leaves its PID file alone. -/
theorem file_of_running {fs : FileSystem} (h : Moves option φ e φ') (hrunning : φ.Running)
    (hrunning' : φ'.Running) : (e.1.effect fs).file pidFile = fs.file pidFile := by
  cases h with
  | rest hφ hc r => exact file_of_records hc
  | fails hφ hc r => rcases hφ with rfl | rfl <;> exact absurd hrunning id
  | watch r => rfl
  | monitor hmoves => exact file_of_monitor hmoves (serving_present.back hmoves hrunning').2
  | _ => first | exact absurd hrunning id | exact absurd hrunning' id

/-- A call that removes or truncates the PID file is that of a command that has found it stale, of
a daemon in `set_pid_file`, or of one on its way out. -/
theorem touches_of_allows {c : Call} (h : φ.allows option c) (htouches : c.touches = true) :
    φ = stale ∨ φ = registering ∨ ∃ watch, φ = monitoring watch ∧ watch.Leaving := by
  have htalks : c.talks ≠ true := by
    intro htalks
    cases c with
    | print | fault => cases htouches
    | _ => cases htalks
  have hrecords : ¬c.Records := by
    intro hrecords
    cases c with
    | fopen path mode => cases mode with
        | r => cases htouches
        | w =>
            obtain rfl : path = configLoad := hrecords
            exact absurd htouches (by decide)
    | unlink path => exact hrecords
    | _ => cases htouches
  cases φ with
  | stale => exact .inl rfl
  | registering => exact .inr (.inl rfl)
  | monitoring watch =>
      refine .inr (.inr ⟨watch, rfl, ?_⟩)
      cases c with
      | unlink path => exact h.1
      | fopen path mode => cases mode with
          | r => cases htouches
          | w => exact absurd h.2 Bool.false_ne_true
      | _ => cases htouches
  | arriving =>
      rcases h with h | rfl
      · exact absurd h htalks
      · cases htouches
  | found f =>
      obtain rfl : c = .fread f := h
      cases htouches
  | numbered text =>
      rcases h with h | rfl | ⟨⟨path, rfl⟩, -⟩
      · exact absurd h htalks
      · cases htouches
      · cases htouches
  | vacant | wordless | told =>
      rcases h with h | ⟨path, rfl⟩
      · exact absurd h hrecords
      · cases htouches
  | addressed pid =>
      rcases h with h | ⟨signal, rfl, -⟩
      · exact absurd h hrecords
      · cases htouches
  | starting =>
      rcases h with h | rfl
      · exact absurd h htalks
      · cases htouches
  | parted => exact absurd h id
  | created f =>
      obtain rfl : c = .getpid := h
      cases htouches
  | signed f n =>
      obtain rfl : c = .fwrite f (decimal n ++ ['\n']) := h
      cases htouches
  | registered =>
      rcases h with h | rfl
      · exact absurd h htalks
      · cases htouches

/-- A command whose number is that of the running daemon finds it. -/
theorem finds_running {pid : Nat} {names : List String} (hpid : pid < 65536)
    (hlisted : String.ofList (decimal pid) ∈ names) :
    (scanU16 (decimal pid ++ ['\n'])).wordsRead = 1 ∧
      names.any (entryNames (scanU16 (decimal pid ++ ['\n'])).value) = true := by
  have hmod : pid % 2 ^ 16 = pid := Nat.mod_eq_of_lt hpid
  rw [scanU16_decimal_line (by omega), hmod]
  have hsmall : pid < 2 ^ 31 := by omega
  exact ⟨rfl, any_entryNames.mpr (alive_of_listed hsmall hlisted)⟩

/-- No daemon is started by a command that knows of the running one. -/
theorem not_opens_of_informed {fs : FileSystem} {pid : Nat} (h : φ.Informed fs pid)
    (hpid : pid < 65536) (hwordless : φ ≠ wordless) (htold : φ ≠ told) : ¬φ.Opens := by
  intro hopens
  cases φ with
  | numbered text =>
      obtain rfl : text = decimal pid ++ ['\n'] := h
      have hlisted : String.ofList (decimal pid) ∈ [String.ofList (decimal pid)] :=
        List.mem_singleton.mpr rfl
      have hscan := (finds_running hpid hlisted).1
      rw [Opens, hscan] at hopens
      exact absurd hopens (by decide)
  | vacant => exact h
  | wordless => exact hwordless rfl
  | told => exact htold rfl
  | _ => exact hopens

/-- A call of a command keeps it informed of the running daemon `q`. -/
theorem informed_of_moves {s : Host} {pid q : Nat} {choice : Choice} (h : Moves option φ e φ')
    (hanswers : s.Answers pid choice e) (hinformed : φ.Informed s.fs q) (hnames : Names s.fs q)
    (hdenied : s.fs.denied pidFile .r = none) (hq : q < 65536)
    (hlisted : String.ofList (decimal q) ∈ s.listing)
    (hfile : (e.1.effect s.fs).file pidFile = s.fs.file pidFile) :
    φ'.Informed (e.1.effect s.fs) q := by
  obtain ⟨f, hopen, htext⟩ := FileSystem.openRead_of_content hdenied hnames
  cases h with
  | rest hφ hc r => exact informed_congr hinformed hfile
  | look =>
      rename_i h
      have hopened : s.fs.openRead pidFile = .ok h := Eq.symm hanswers
      exact FileSystem.openRead_ok hopened
  | missing =>
      rename_i e
      have hfailed : s.fs.openRead pidFile = .error e := Eq.symm hanswers
      rw [hopen] at hfailed
      cases hfailed
  | scan =>
      rename_i h text
      obtain ⟨hpath, hcurrent⟩ := hinformed
      obtain ⟨ino, hino, hdata⟩ := Option.map_eq_some_iff.mp hnames
      obtain rfl : h.ino = ino := Option.some.inj (hcurrent.symm.trans hino)
      have hread : text = s.fs.read h := hanswers
      rw [Informed, hread, FileSystem.read, hpath, hdata]
  | dead hnone =>
      rename_i text names
      obtain rfl : text = decimal q ++ ['\n'] := hinformed
      have hsubset : s.listing ⊆ names := hanswers
      rw [(finds_running hq (hsubset hlisted)).2] at hnone
      cases hnone
  | clear => exact hinformed
  | fails hφ hc r =>
      rcases hφ with rfl | rfl
      · exact hinformed
      · trivial
  | _ => trivial

/-- Only a SIGTERM makes a command go on as if the daemon were gone. -/
theorem told_of_moves (h : Moves option φ e φ') (htold : φ' = told) :
    φ = told ∨ signalOf option = some .sigterm := by
  cases h with
  | rest | fails => exact .inl htold
  | stop hsignal r => exact .inr hsignal
  | _ => cases htold

end Life

namespace Host

variable {s s' : Host}

/-- Only `load`s and other programs are started, with numbers below 65536. -/
def Numbered : Action → Prop
  | .spawn pid _ argv => pid < 65536 ∧ argument argv 1 = key 0
  | .other pid => pid < 65536
  | .run _ (.child pid) => pid < 65536
  | _ => True

/-- Only `load`s and other programs are started, and no command is between its check and its
decision while another starts a daemon or is one without its PID file. -/
structure Apart (s : Host) (a : Action) : Prop where
  action : Numbered a
  readable : s.fs.denied pidFile .r = none
  worded : ∀ pid ∈ s.pids, ∀ p ∈ s.process pid, p.phase ≠ .wordless
  apart : ∀ pid ∈ s.pids, ∀ p ∈ s.process pid, p.phase.Checking →
    ∀ q ∈ s.pids, q ≠ pid → ∀ p' ∈ s.process q, ¬p'.phase.Busy

/-- There is one daemon at most, and whoever checks is informed of it. -/
structure Alone (s : Host) : Prop where
  lawful : s.Lawful
  marked : s.Marked Watch.Present
  one : ∀ pid p pid' p', s.process pid = some p → p.phase.Daemon →
    s.process pid' = some p' → p'.phase.Daemon → pid = pid'
  informed : ∀ pid p q p', s.process pid = some p → s.process q = some p' → p'.phase.Running →
    p.phase.Informed s.fs q
  small : ∀ pid p, s.process pid = some p → pid < 65536
  loads : ∀ pid p, s.process pid = some p →
    signalOf p.option ≠ some .sigterm ∧ p.phase ≠ .told

variable {a : Action}

/-- The daemon has its PID file to itself. -/
theorem undisturbed_of_alone (h : s.Alone) (hapart : s.Apart a) :
    s.Undisturbed Watch.Present a := by
  unfold Undisturbed
  split
  · rename_i pid choice
    intro p hp htouches q hlisted hne p' hp' howns
    obtain ⟨c, hnext, htouches⟩ := (Option.any_eq_true _ _).mp htouches
    have hdaemon := Life.daemon_of_owns howns
    rcases Life.touches_of_allows (allows_of_next (h.lawful.process pid p hp) hnext) htouches with
      hφ | hφ | ⟨watch, hφ, hleaving⟩
    · rcases hdaemon with hbusy | hrunning
      · refine hapart.apart pid (h.lawful.listed pid p hp) p hp ?_ q hlisted hne p' hp' hbusy
        rw [hφ]
        trivial
      · have hinformed := h.informed pid p q p' hp hp' hrunning
        rw [hφ] at hinformed
        exact hinformed
    · exact hne (h.one q p' pid p hp' hdaemon hp (by rw [hφ]; exact .inl trivial))
    · refine hne (h.one q p' pid p hp' hdaemon hp ?_)
      rw [hφ, Life.daemon_monitoring]
      rintro rfl
      exact hleaving
  · trivial

/-- A running daemon that keeps running has its PID file as it was. -/
theorem file_of_alone (h : s.Alone) (hapart : s.Apart a) (hstep : s.step a = some s') {q : Nat}
    {r : Process} (hr : s.process q = some r) (hrunning : r.phase.Running)
    (hother : ∀ choice, a ≠ .run q choice) : s'.fs.file pidFile = s.fs.file pidFile := by
  rcases effect_of_step h.lawful hstep with
    hfs | ⟨pid, choice, p, e, φ, rfl, hp, hnext, hmoves, -, hfs⟩
  · rw [hfs]
  · have hne : q ≠ pid := fun heq => hother choice (by rw [heq])
    have htouches : e.1.touches = false := by
      by_contra htouches
      refine undisturbed_of_alone h hapart p hp ?_ q (h.lawful.listed q r hr) hne r hr hrunning.owns
      rw [hnext]
      exact Bool.eq_true_of_not_eq_false htouches
    have hnot : ¬p.phase.Owns Watch.Present :=
      fun howns => hne (h.marked.single q r pid p hr hrunning.owns hp howns)
    rw [hfs]
    exact file_of_moves hmoves htouches hnot

/-- The process that checks, when the daemon stays what it was. -/
theorem informed_of_file (h : s.Alone) (hapart : s.Apart a) (hstep : s.step a = some s')
    {pid q : Nat} {p' r : Process} (hp' : s'.process pid = some p') (hr : s.process q = some r)
    (hrunning : r.phase.Running) (hfile : s'.fs.file pidFile = s.fs.file pidFile) :
    p'.phase.Informed s'.fs q := by
  cases course_of_step h.lawful hstep hp' with
  | kept p hp hphase hoption hother =>
      rw [hphase]
      exact Life.informed_congr (h.informed pid p q r hp hr hrunning) hfile
  | spawned cwd argv ha hfree hphase hoption | other ha hfree hphase hoption =>
      rw [hphase]
      trivial
  | acted choice p e ha hp hnext hmoves hoption hanswers hfs =>
      have hnames : Names s.fs q := by
        have hmarks := h.marked.marks q r hr
        cases hphase : r.phase with
        | registered =>
            rw [hphase] at hmarks
            exact hmarks
        | monitoring watch =>
            rw [hphase] at hmarks hrunning
            exact hmarks hrunning
        | _ =>
            rw [hphase] at hrunning
            exact absurd hrunning id
      rw [hfs] at hfile ⊢
      exact Life.informed_of_moves hmoves hanswers (h.informed pid p q r hp hr hrunning) hnames
        hapart.readable (h.small q r hr) (listed_of_process h.lawful hr) hfile
  | born parent p ha hfree hp hnext hparent hoption hphases hfs =>
      rcases hphases with ⟨-, hborn⟩ | ⟨-, hborn⟩ <;> rw [hborn] <;> trivial

theorem informed_step (h : s.Alone) (hapart : s.Apart a) (hstep : s.step a = some s')
    {pid q : Nat} {p' r' : Process} (hp' : s'.process pid = some p') (hr' : s'.process q = some r')
    (hrunning : r'.phase.Running) : p'.phase.Informed s'.fs q := by
  by_cases hsame : pid = q
  · -- a daemon does not check
    subst hsame
    obtain rfl : p' = r' := Option.some.inj (hp'.symm.trans hr')
    refine Life.informed_of_not_checking fun hchecking => ?_
    cases hphase : p'.phase <;> rw [hphase] at hchecking hrunning <;>
      first | exact hchecking | exact hrunning
  cases course_of_step h.lawful hstep hr' with
  | kept r hr hphase hoption hother =>
      rw [hphase] at hrunning
      exact informed_of_file h hapart hstep hp' hr hrunning (file_of_alone h hapart hstep hr hrunning hother)
  | spawned cwd argv ha hfree hphase hoption | other ha hfree hphase hoption =>
      rw [hphase] at hrunning
      exact absurd hrunning id
  | born parent r ha hfree hr hnext hparent hoption hphases hfs =>
      rcases hphases with ⟨-, hborn⟩ | ⟨-, hborn⟩ <;> rw [hborn] at hrunning <;>
        exact absurd hrunning id
  | acted choice r e ha hr hnext hmoves hoption hanswers hfs =>
      rcases Life.running_of_moves hmoves hrunning with hbefore | ⟨f, n, hsigned⟩
      · refine informed_of_file h hapart hstep hp' hr hbefore ?_
        rw [hfs]
        exact Life.file_of_running hmoves hbefore hrunning
      · -- the number is being written: nobody checks
        refine Life.informed_of_not_checking fun hchecking => ?_
        cases course_of_step h.lawful hstep hp' with
        | kept p hp hphase hoption' hother =>
            rw [hphase] at hchecking
            refine hapart.apart pid (h.lawful.listed pid p hp) p hp hchecking q
              (h.lawful.listed q r hr) (Ne.symm hsame) r hr ?_
            rw [hsigned]
            trivial
        | spawned cwd argv ha' hfree hphase hoption' | other ha' hfree hphase hoption' =>
            rw [hphase] at hchecking
            exact hchecking
        | acted choice' p e' ha' hp hnext' hmoves' hoption' hanswers' hfs' =>
            rw [ha] at ha'
            cases ha'
            exact hsame rfl
        | born parent p ha' hfree hp hnext' hparent hoption' hphases hfs' =>
            rcases hphases with ⟨-, hborn⟩ | ⟨-, hborn⟩ <;> rw [hborn] at hchecking <;> exact hchecking

/-- A command goes on to the constructor of `daemon`. -/
def Starts (s : Host) (a : Action) (q : Nat) : Prop :=
  ∃ choice p, a = .run q choice ∧ s.process q = some p ∧ p.phase.Opens

/-- The constructor of `daemon` forks. -/
def Forks (s : Host) (a : Action) (q : Nat) : Prop :=
  ∃ parent p, a = .run parent (.child q) ∧ s.process parent = some p ∧ p.phase = .starting ∧
    p.next = some .fork ∧ s.Free q

/-- The daemons of the next state: one that was, one that a command starts, one that is forked. -/
theorem daemon_of_step (hlawful : s.Lawful) (hstep : s.step a = some s') {q : Nat} {p' : Process}
    (hp' : s'.process q = some p') (hdaemon : p'.phase.Daemon) :
    (∃ p, s.process q = some p ∧ p.phase.Daemon) ∨ s.Starts a q ∨ s.Forks a q := by
  cases course_of_step hlawful hstep hp' with
  | kept p hp hphase hoption hother => exact .inl ⟨p, hp, hphase ▸ hdaemon⟩
  | spawned cwd argv ha hfree hphase hoption | other ha hfree hphase hoption =>
      rw [hphase] at hdaemon
      rcases hdaemon with h | h <;> exact absurd h id
  | acted choice p e ha hp hnext hmoves hoption hanswers hfs =>
      rcases Life.daemon_of_moves hmoves hdaemon with hold | hopens
      · exact .inl ⟨p, hp, hold⟩
      · exact .inr (.inl ⟨choice, p, ha, hp, hopens⟩)
  | born parent p ha hfree hp hnext hparent hoption hphases hfs =>
      rcases hphases with ⟨hstarting, -⟩ | ⟨-, hborn⟩
      · exact .inr (.inr ⟨parent, p, ha, hp, hstarting, hnext, hfree⟩)
      · rw [hborn, Life.daemon_monitoring] at hdaemon
        exact absurd rfl hdaemon

/-- A command that may start a daemon is the only process that is one. -/
theorem no_daemon_of_opens (h : s.Alone) (hapart : s.Apart a) {pid q : Nat} {p r : Process}
    (hp : s.process pid = some p) (hopens : p.phase.Opens) (hr : s.process q = some r)
    (hdaemon : r.phase.Daemon) : False := by
  have hwordless := hapart.worded pid (h.lawful.listed pid p hp) p hp
  have htold := (h.loads pid p hp).2
  have hne : q ≠ pid := by
    rintro rfl
    obtain rfl : p = r := Option.some.inj (hp.symm.trans hr)
    cases hphase : p.phase <;> rw [hphase] at hopens hdaemon <;>
      first | exact hopens | (rcases hdaemon with hbusy | hrunning <;> assumption)
  rcases hdaemon with hbusy | hrunning
  · refine hapart.apart pid (h.lawful.listed pid p hp) p hp ?_ q (h.lawful.listed q r hr) hne r hr hbusy
    cases hphase : p.phase with
    | numbered | vacant => trivial
    | wordless => exact absurd hphase hwordless
    | told => exact absurd hphase htold
    | _ =>
        rw [hphase] at hopens
        exact absurd hopens id
  · exact Life.not_opens_of_informed (h.informed pid p q r hp hr hrunning) (h.small q r hr)
      hwordless htold hopens

/-- The parent that has started a daemon is none any more. -/
theorem not_daemon_of_fork (hlawful : s.Lawful) {parent child : Nat} {p p' : Process}
    (hstep : s.step (.run parent (.child child)) = some s') (hne : parent ≠ child)
    (hp : s.process parent = some p) (hstarting : p.phase = .starting) (hfork : p.next = some .fork)
    (hp' : s'.process parent = some p') : ¬p'.phase.Daemon := by
  cases course_of_step hlawful hstep hp' with
  | kept p₀ hp₀ hphase hoption hother => exact absurd rfl (hother (.child child))
  | spawned cwd argv ha => cases ha
  | other ha => cases ha
  | born parent' p₀ ha hfree hp₀ hnext hparent hoption hphases hfs =>
      cases ha
      exact absurd rfl hne
  | acted choice p₀ e ha hp₀ hnext hmoves hoption hanswers hfs =>
      obtain rfl : p = p₀ := Option.some.inj (hp.symm.trans hp₀)
      obtain ⟨c, r⟩ := e
      obtain rfl : Call.fork = c := Option.some.inj (hfork.symm.trans hnext)
      obtain ⟨n, -, rfl⟩ := hanswers
      rcases Life.moves_parent hmoves with ⟨-, hparted⟩ | ⟨hforking, -⟩
      · rw [hparted]
        intro hdaemon
        rcases hdaemon with h | h <;> exact h
      · rw [hstarting] at hforking
        cases hforking

/-- A command does not start a daemon and fork one in one step. -/
theorem not_starts_and_forks {q₁ q₂ : Nat} (hstarts : s.Starts a q₁) : ¬s.Forks a q₂ := by
  obtain ⟨choice, p, rfl, hp, hopens⟩ := hstarts
  intro hforks
  obtain ⟨parent, r, ha, hr, hstarting, -, -⟩ := hforks
  cases ha
  obtain rfl : p = r := Option.some.inj (hp.symm.trans hr)
  rw [hstarting] at hopens
  exact hopens

/-- A daemon that has just come to be is the only one. -/
theorem one_of_new (h : s.Alone) (hapart : s.Apart a) (hstep : s.step a = some s') {q₁ q₂ : Nat}
    {p₂ : Process} (hnew : s.Starts a q₁ ∨ s.Forks a q₁) (hp₂ : s'.process q₂ = some p₂)
    (hdaemon : p₂.phase.Daemon) : q₁ = q₂ := by
  rcases daemon_of_step h.lawful hstep hp₂ hdaemon with ⟨r, hr, hold⟩ | hstarts₂ | hforks₂
  · rcases hnew with ⟨choice, p, rfl, hp, hopens⟩ | ⟨parent, p, rfl, hp, hstarting, hfork, hfree⟩
    · exact (no_daemon_of_opens h hapart hp hopens hr hold).elim
    · -- the parent was the only one, and goes on as a command that only has to exit
      have hdaemon' : p.phase.Daemon := by
        rw [hstarting]
        exact .inl trivial
      obtain rfl := h.one parent p q₂ r hp hdaemon' hr hold
      have hne : parent ≠ q₁ := by
        rintro rfl
        rw [hfree.2.1] at hp
        cases hp
      exact absurd hdaemon (not_daemon_of_fork h.lawful hstep hne hp hstarting hfork hp₂)
  · rcases hnew with hstarts₁ | hforks₁
    · obtain ⟨choice, p, rfl, -, -⟩ := hstarts₁
      obtain ⟨choice', p', ha, -, -⟩ := hstarts₂
      cases ha
      rfl
    · exact absurd hforks₁ (not_starts_and_forks hstarts₂)
  · rcases hnew with hstarts₁ | hforks₁
    · exact absurd hforks₂ (not_starts_and_forks hstarts₁)
    · obtain ⟨parent, p, rfl, -, -⟩ := hforks₁
      obtain ⟨parent', p', ha, -, -⟩ := hforks₂
      cases ha
      rfl

/-- The step lemma. -/
theorem alone_step (h : s.Alone) (hapart : s.Apart a) (hstep : s.step a = some s') : s'.Alone := by
  refine ⟨lawful_step h.lawful hstep, ?_, ?_, ?_, ?_, ?_⟩
  · exact marked_step serving_present h.lawful h.marked (undisturbed_of_alone h hapart) hstep
  · intro q₁ p₁ q₂ p₂ hp₁ hdaemon₁ hp₂ hdaemon₂
    rcases daemon_of_step h.lawful hstep hp₁ hdaemon₁ with ⟨o₁, ho₁, hold₁⟩ | hnew
    · rcases daemon_of_step h.lawful hstep hp₂ hdaemon₂ with ⟨o₂, ho₂, hold₂⟩ | hnew
      · exact h.one q₁ o₁ q₂ o₂ ho₁ hold₁ ho₂ hold₂
      · exact (one_of_new h hapart hstep hnew hp₁ hdaemon₁).symm
    · exact one_of_new h hapart hstep hnew hp₂ hdaemon₂
  · exact fun pid p' q r' => informed_step h hapart hstep
  · intro pid p' hp'
    have haction := hapart.action
    cases course_of_step h.lawful hstep hp' with
    | kept p hp hphase hoption hother => exact h.small pid p hp
    | spawned cwd argv ha hfree hphase hoption =>
        subst ha
        exact haction.1
    | other ha hfree hphase hoption =>
        subst ha
        exact haction
    | acted choice p e ha hp hnext hmoves hoption hanswers hfs => exact h.small pid p hp
    | born parent p ha hfree hp hnext hparent hoption hphases hfs =>
        subst ha
        exact haction
  · intro pid p' hp'
    have haction := hapart.action
    cases course_of_step h.lawful hstep hp' with
    | kept p hp hphase hoption hother =>
        rw [hphase, hoption]
        exact h.loads pid p hp
    | spawned cwd argv ha hfree hphase hoption =>
        subst ha
        rw [hphase, hoption, haction.2]
        exact ⟨by decide, nofun⟩
    | other ha hfree hphase hoption =>
        rw [hphase, hoption]
        exact ⟨by decide, nofun⟩
    | acted choice p e ha hp hnext hmoves hoption hanswers hfs =>
        obtain ⟨hsignal, htold⟩ := h.loads pid p hp
        rw [hoption]
        exact ⟨hsignal, fun hphase => (Life.told_of_moves hmoves hphase).elim htold hsignal⟩
    | born parent p ha hfree hp hnext hparent hoption hphases hfs =>
        rw [hoption]
        refine ⟨(h.loads parent p hp).1, ?_⟩
        rcases hphases with ⟨-, hborn⟩ | ⟨-, hborn⟩ <;> rw [hborn] <;> nofun

theorem alone_idle (h : s.Idle) : s.Alone := by
  have hnone : ∀ {pid p}, s.process pid ≠ some p := by
    intro pid p hp
    rw [h pid] at hp
    cases hp
  exact ⟨lawful_idle h, marked_idle h, fun _ _ _ _ hp => absurd hp hnone,
    fun _ _ _ _ hp => absurd hp hnone, fun _ _ hp => absurd hp hnone, fun _ _ hp => absurd hp hnone⟩

/-- As long as no `load` is between its check and its decision while another starts a daemon, no two
monitors live at once. -/
theorem monitors_eq (h : Machine.Reached step Apart Idle s) {pid pid' : Nat} {p p' : Process}
    (hp : s.process pid = some p) (hmonitor : p.phase.Monitor) (hp' : s.process pid' = some p')
    (hmonitor' : p'.phase.Monitor) : pid = pid' := by
  have halone : s.Alone :=
    h.invariant (fun _ => alone_idle) fun _ _ _ halone hapart => alone_step halone hapart
  exact halone.one pid p pid' p' hp hmonitor.daemon hp' hmonitor'.daemon

/-! ## Runs -/

instance (a : Action) : Decidable (Numbered a) := match a with
  | .spawn pid _ argv => inferInstanceAs (Decidable (pid < 65536 ∧ argument argv 1 = key 0))
  | .other pid | .run _ (.child pid) => inferInstanceAs (Decidable (pid < 65536))
  | .run _ .none | .run _ (.listing _) | .run _ (.setup _) | .run _ (.signal _) | .run _ (.load _)
    | .run _ (.services _) | .exit _ | .abort _ | .crash _ _ => isTrue trivial

instance (s : Host) (a : Action) : Decidable (s.Apart a) :=
  decidable_of_iff (Numbered a ∧ s.fs.denied pidFile .r = none ∧
      (∀ pid ∈ s.pids, ∀ p ∈ s.process pid, p.phase ≠ .wordless) ∧
      ∀ pid ∈ s.pids, ∀ p ∈ s.process pid, p.phase.Checking →
        ∀ q ∈ s.pids, q ≠ pid → ∀ p' ∈ s.process q, ¬p'.phase.Busy)
    ⟨fun h => ⟨h.1, h.2.1, h.2.2.1, h.2.2.2⟩, fun h => ⟨h.action, h.readable, h.worded, h.apart⟩⟩

/-- Only `load` is started. -/
def Loads (_ : Host) : Action → Prop
  | .spawn pid _ argv => pid < 65536 ∧ argument argv 1 = key 0
  | .run _ (.child pid) => pid < 65536
  | .run _ _ | .exit _ | .abort _ => True
  | .other _ | .crash _ _ => False

instance (s : Host) (a : Action) : Decidable (s.Loads a) := match a with
  | .spawn pid _ argv => inferInstanceAs (Decidable (pid < 65536 ∧ argument argv 1 = key 0))
  | .run _ (.child pid) => inferInstanceAs (Decidable (pid < 65536))
  | .run _ .none | .run _ (.listing _) | .run _ (.setup _) | .run _ (.signal _) | .run _ (.load _)
    | .run _ (.services _) | .exit _ | .abort _ => isTrue trivial
  | .other _ | .crash _ _ => isFalse id

instance (φ : Life) : Decidable φ.Monitor := match φ with
  | .registered => isTrue trivial
  | .monitoring watch => inferInstanceAs (Decidable (watch ≠ .master))
  | .arriving | .found _ | .numbered _ | .stale | .vacant | .addressed _ | .wordless | .told
    | .starting | .parted | .registering | .created _ | .signed _ _ => isFalse id

/-- The only monitor after the first `load`. -/
theorem loaded_monitor_alone : ∃ s p,
    Machine.run step installed (loading 100 101 102) = some s ∧ s.process 101 = some p ∧
      p.phase.Monitor ∧ ∀ q p', s.process q = some p' → p'.phase.Monitor → q = 101 := by
  have hrun : ∃ s, Machine.run step installed (loading 100 101 102) = some s ∧
      (s.process 101).any (fun p => decide p.phase.Monitor) = true :=
    Machine.exists_run (by decide +kernel)
  obtain ⟨s, hrun, hmonitor⟩ := hrun
  obtain ⟨p, hp, hmonitor⟩ := (Option.any_eq_true _ _).mp hmonitor
  have halong : Machine.Along step Apart installed (loading 100 101 102) := by
    decide +kernel
  have hreached := Machine.Reached.run (.start (idle_ofFiles _)) halong hrun
  refine ⟨s, p, hrun, hp, of_decide_eq_true hmonitor, fun q p' hp' hmonitor' => ?_⟩
  exact monitors_eq hreached hp' hmonitor' hp (of_decide_eq_true hmonitor)

/-- Two `load`s, each of which has looked for the PID file before the other has written it. -/
def racing : List Action :=
  deciding 100 ++ deciding 200 ++ launch 100 101 ++ launch 200 201 ++ calls 101 5 ++ calls 201 5

/-- They end as two monitors. -/
theorem two_loads_two_monitors : ¬ ∀ s, Machine.Reached step Loads Idle s →
    ∀ pid p pid' p', s.process pid = some p → p.phase.Monitor → s.process pid' = some p' →
      p'.phase.Monitor → pid = pid' := by
  intro hall
  have hrun : ∃ s, Machine.run step installed racing = some s ∧
      (s.process 101).any (fun p => decide p.phase.Monitor) = true ∧
      (s.process 201).any (fun p => decide p.phase.Monitor) = true :=
    Machine.exists_run (by decide +kernel)
  obtain ⟨s, hrun, hfirst, hsecond⟩ := hrun
  obtain ⟨p, hp, hfirst⟩ := (Option.any_eq_true _ _).mp hfirst
  obtain ⟨p', hp', hsecond⟩ := (Option.any_eq_true _ _).mp hsecond
  have halong : Machine.Along step Loads installed racing := by decide +kernel
  have hreached := Machine.Reached.run (.start (idle_ofFiles _)) halong hrun
  have heq := hall s hreached 101 p 201 p' hp (of_decide_eq_true hfirst) hp' (of_decide_eq_true hsecond)
  cases heq

end Host

end Robotd
