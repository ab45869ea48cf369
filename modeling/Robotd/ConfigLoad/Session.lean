import Robotd.ConfigLoad.Started
import Robotd.Lib.Machine

/-!
# The configuration that a restart hands on

A daemon runs on the configuration it has accepted last, `restart` starts its successor on the
one that `CONFIG_LOAD` records. `Session` is the machine of a running daemon and the commands
`load` and `reload` it gets; `restarts_accepted_iff` says when the two are the same.

Commands are issued one after another. The daemon handles its pending SIGHUP between any two of
them, and accepts the file or not; files are edited at any time.
-/

namespace Robotd

open Lib Lib.CLib Cli

/-- A delivered SIGHUP. -/
def isHangup : Event → Bool
  | ⟨.kill _ .sighup, .ok _⟩ => true
  | _ => false

/-- A SIGHUP has been delivered. -/
def sent (events : List Event) : Bool := events.any isHangup

/-- The system of a running daemon, whether a SIGHUP is pending for it, and the configuration it
has accepted last. -/
structure Session where
  os : Os
  pending : Bool
  accepted : Path

namespace Session

/-- `load` and `reload` carry the answer that their signal gets, `load` also the path it finds. -/
inductive Action where
  | edit (path : Path) (text : List Char)
  | load (cwd file path : Path) (refused : Option Errno)
  | reload (refused : Option Errno)
  | handle (accepted : Bool)
  deriving DecidableEq

/-- The system in which every signal gets this answer. -/
def signalling (os : Os) (refused : Option Errno) : Os := { os with killError := fun _ _ => refused }

/-- Run a command. -/
def command (s : Session) (cwd : Path) (argv : List String) (refused : Option Errno) :
    Option Session :=
  match (parseOptions cwd argv).runs initialGlobals (signalling s.os refused) with
  | some (_, os, events) => some { s with os := os, pending := s.pending || sent events }
  | none => none

/-- A `load` is a step where it finds its file. -/
def step (s : Session) : Action → Option Session
  | .edit path text =>
      if path = configLoad ∨ path = pidFile then none
      else some { s with os := { s.os with fs := s.os.fs.setFile path (.holding text) } }
  | .load cwd file path refused =>
      if locateConfig s.os.fs cwd file = some path then
        s.command cwd [package, key 0, file] refused
      else none
  | .reload refused => s.command "/" [package, key 1] refused
  | .handle accepted =>
      if s.pending then
        some { s with pending := false,
                      accepted := if accepted then reloadLine s.os.fs else s.accepted }
      else none

/-- A path that both readers of `CONFIG_LOAD` recover. -/
def Plain (path : Path) : Prop :=
  path ≠ "" ∧ (∀ c ∈ path.toList, isSpace c = false) ∧ path.length < 256

/-- A daemon is running that can be found, and `CONFIG_LOAD` records this path. -/
structure Running (n : Bool × Nat) (recorded : Path) (os : Os) : Prop where
  found : Found os n
  readable : os.fs.denied configLoad .r = none
  content : (os.fs.file configLoad).content = some (recorded.toList ++ ['\n'])
  plain : Plain recorded

variable {n : Bool × Nat} {recorded path : Path} {os os' : Os} {g : Globals} {s s' : Session}

theorem Plain.getLine (h : Plain path) : getLine (path.toList ++ ['\n']) = path.toList :=
  getLine_line_eq_iff.mpr fun hmem => absurd (h.2.1 _ hmem) (by decide)

theorem Running.reloadLine (h : Running n recorded os) : reloadLine os.fs = recorded := by
  rw [reloadLine_of_content h.content, if_pos h.readable, h.plain.getLine, String.ofList_toList]

theorem Running.found_of_effect (h : Running n recorded os) (heffect : Effect os os') :
    Found os' n := by
  obtain ⟨f, hopen, hnumber, halive⟩ := h.found
  obtain ⟨hpath, hcurrent⟩ := FileSystem.openRead_ok hopen
  have hfile := heffect.file_other pidFile configLoad_ne_pidFile.symm
  refine ⟨f, ?_, ?_, ?_⟩
  · simpa [FileSystem.openRead, hfile, heffect.denied_eq] using hopen
  · simpa [FileSystem.read, hpath, hfile] using hnumber
  · rw [heffect.os_eq]
    exact halive

/-! ## What the commands do -/

/-- On a record that can be read the block of `parse_options` takes the path and changes nothing. -/
theorem restoreConfig_running (h : Running n recorded os) :
    wp restoreConfig g os (fun r g' os' _ => r = none ∧ os' = os ∧ g'.configFile = recorded)
      False := by
  obtain ⟨f, hopen, hread⟩ := FileSystem.openRead_of_content h.readable h.content
  have hword : scanWord (os.fs.read f) = recorded.toList := by
    rw [hread]
    exact scanWord_line_eq_iff.mpr h.plain.2.1
  have hne : scanWord (os.fs.read f) ≠ [] := by
    rw [hword]
    simpa using h.plain.1
  refine wp_mono (wp_and ((wp_restoreConfig_opened hopen).mpr ⟨hword, h.plain.1, h.plain.2.2⟩)
    restoreConfig_restored) fun r g' os' _ => ?_
  rintro ⟨⟨rfl, hconfig⟩, hrestored⟩
  exact ⟨rfl, ((hrestored (.inl rfl)).of_word hopen hne).1, hconfig⟩

/-- `parse_options` on a running daemon is its section for one. -/
theorem wp_parseOptions_running {cwd : Path} {argv : List String}
    {post : Int → Globals → Os → Prop} (h : Running n recorded os)
    (hargc : argv.length = 2 ∨ argv.length = 3) (hhelp : argument argv 1 ≠ key 5)
    (hpost : ∀ g, wp (daemonProcess cwd argv (pidExists n)) g os (fun ret g' os' _ =>
      post ret g' os') False) :
    wp (parseOptions cwd argv) g os (fun ret g' os' _ => post ret g' os') False := by
  obtain ⟨f, hopen, hnumber, halive⟩ := h.found
  rw [wp_parseOptions hargc hhelp]
  simp only [hopen, hnumber, if_pos halive]
  exact hpost _

/-- Sending a signal changes nothing but `errno`. -/
theorem signalDaemon_keeps {pid : Nat} {signal : Signal} {ret : Int} {format : String}
    {args : List String} :
    wp (signalDaemon pid signal ret format args) g os (fun _ _ os' _ => os' = os) False := by
  simp only [signalDaemon, wp_bind, wp_kill]
  cases os.killError pid signal with
  | none => simp
  | some e => simp

/-- `load` records its path where `CONFIG_LOAD` may be written, and else changes nothing that
matters. -/
theorem load_spec {cwd file : Path} (h : Running n recorded os)
    (hlocated : locateConfig os.fs cwd file = some path) :
    wp (parseOptions cwd [package, key 0, file]) g os (fun _ _ os' _ => Effect os os' ∧
      (os'.fs.file configLoad).content =
        some ((if os.fs.denied configLoad .w = none then path else recorded).toList ++ ['\n']))
      False := by
  refine wp_parseOptions_running h (.inr rfl) (by decide : key 0 ≠ key 5) fun g => ?_
  have hstatus : key 0 ≠ key 4 := by decide
  simp only [daemonProcess, argument, List.getD_cons_succ, List.getD_cons_zero, if_neg hstatus]
  rw [wp_bind]
  refine wp_mono (restoreConfig_running h) fun r g' os' _ => ?_
  rintro ⟨rfl, rfl, -⟩
  simp only [List.length_cons, List.length_nil, if_true, wp_bind, wp_setConfigFile]
  have hsignal {os'' : Os} {g'' : Globals} {post : Os → Prop} (hpost : post os'') :
      wp (signalDaemon (pidExists n) .sighup dontDoAnything "Can't load config: %m\n" []) g'' os''
        (fun _ _ final _ => post final) False := by
    refine wp_mono signalDaemon_keeps fun _ _ _ _ => ?_
    rintro rfl
    exact hpost
  cases hdenied : os'.fs.denied configLoad .w with
  | none =>
      have hcurrent : (os'.fs.file configLoad).current ≠ none := by
        obtain ⟨ino, hcurrent, -⟩ := Option.map_eq_some_iff.mp h.content
        simp [hcurrent]
      refine wp_mono (optionLoad_spec cwd) fun ret g'' os'' _ => ?_
      rintro ⟨hret, hrecorded, heffect⟩
      have hzero : ret = 0 := hret.mpr ⟨by simp [hlocated], hdenied, .inl hcurrent⟩
      obtain ⟨hconfig, hcontent, -⟩ := hrecorded hzero
      rw [hlocated, Option.some.injEq] at hconfig
      simp only [hzero, ne_eq, not_true_eq_false, if_false, if_true]
      exact hsignal ⟨heffect, hconfig ▸ hcontent⟩
  | some e =>
      refine wp_mono (wp_and (optionLoad_spec cwd) (optionLoad_denied cwd hdenied))
        fun ret g'' os'' _ => ?_
      rintro ⟨⟨hret, -, heffect⟩, hfile⟩
      have hne : ret ≠ 0 := by
        intro hzero
        have hdenied' := (hret.mp hzero).2.1
        rw [hdenied] at hdenied'
        cases hdenied'
      simp only [if_pos hne, wp_pure, reduceCtorEq, if_false]
      exact ⟨heffect, hfile ▸ h.content⟩

theorem reload_spec (h : Running n recorded os) :
    wp (parseOptions "/" [package, key 1]) g os (fun _ _ os' _ => os' = os) False := by
  refine wp_parseOptions_running h (.inl rfl) (by decide) fun g => ?_
  have hoption : key 1 ≠ key 4 ∧ key 1 ≠ key 0 := by decide
  simp only [daemonProcess, argument, List.getD_cons_succ, List.getD_cons_zero, if_neg hoption.1,
    if_neg hoption.2, if_true]
  rw [wp_bind]
  refine wp_mono (restoreConfig_running h) fun r g' os' _ => ?_
  rintro ⟨rfl, rfl, -⟩
  exact signalDaemon_keeps

/-- `restart` takes the recorded path and returns 0 when its signal is sent. -/
theorem restart_spec (cwd : Path) (h : Running n recorded os) :
    wp (parseOptions cwd [package, key 2]) g os (fun ret g' _ _ => g'.configFile = recorded ∧
      (os.killError (pidExists n) .sigterm = none → ret = 0)) False := by
  refine wp_parseOptions_running h (.inl rfl) (by decide) fun g => ?_
  have hoption : key 2 ≠ key 4 ∧ key 2 ≠ key 0 ∧ key 2 ≠ key 1 := by decide
  simp only [daemonProcess, argument, List.getD_cons_succ, List.getD_cons_zero, if_neg hoption.1,
    if_neg hoption.2.1, if_neg hoption.2.2, if_true]
  rw [wp_bind]
  refine wp_mono (restoreConfig_running h) fun r g' os' _ => ?_
  rintro ⟨rfl, rfl, hconfig⟩
  simp only [wp_bind, wp_get, wp_printf, signalDaemon, wp_kill]
  cases os'.killError (pidExists n) .sigterm with
  | none => simp [hconfig]
  | some e => simp [hconfig]

/-! ## Runs -/

/-- The path recorded after an action, when this one was recorded before it. -/
def Action.records (recorded : Path) : Action → Path
  | .load _ _ path _ => path
  | _ => recorded

/-- The path that the last `load` names; before the first one it is what the daemon started on. -/
def lastLoad (start : Path) (actions : List Action) : Path := actions.foldl Action.records start

@[simp] theorem lastLoad_concat (start : Path) (actions : List Action) (a : Action) :
    lastLoad start (actions ++ [a]) = a.records (lastLoad start actions) :=
  List.foldl_concat ..

/-- The actions up to the last one in which the daemon accepts a configuration. -/
def untilAccepted (actions : List Action) : List Action :=
  actions.rdropWhile (· ≠ .handle true)

/-- The paths that are recorded are read back as they are. -/
def Action.Plain : Action → Prop
  | .load _ _ path _ => Session.Plain path
  | _ => True

/-- A recorded path stays one when a file that is neither the PID file nor `CONFIG_LOAD` is
edited. -/
theorem Running.edit {text : List Char} (h : Running n recorded os) (hload : path ≠ configLoad)
    (hpid : path ≠ pidFile) :
    Running n recorded { os with fs := os.fs.setFile path (.holding text) } := by
  have hfile {other : Path} (hne : path ≠ other) :
      (os.fs.setFile path (.holding text)).file other = os.fs.file other :=
    os.fs.setFile_other _ (Ne.symm hne)
  obtain ⟨f, hopen, hnumber, halive⟩ := h.found
  obtain ⟨hpath, -⟩ := FileSystem.openRead_ok hopen
  refine ⟨⟨f, ?_, ?_, halive⟩, h.readable, ?_, h.plain⟩
  · simpa [FileSystem.openRead, hfile hpid] using hopen
  · simpa [FileSystem.read, hpath, hfile hpid] using hnumber
  · simpa [hfile hload] using h.content

theorem Running.signalling (h : Running n recorded os) (refused : Option Errno) :
    Running n recorded (signalling os refused) :=
  ⟨h.found, h.readable, h.content, h.plain⟩

/-- A command ends as its specification says. -/
theorem exists_of_command {cwd : Path} {argv : List String} {refused : Option Errno}
    {post : Int → Globals → Os → Prop} (hstep : s.command cwd argv refused = some s')
    (h : wp (parseOptions cwd argv) initialGlobals (Session.signalling s.os refused)
      (fun ret g' os' _ => post ret g' os') False) :
    ∃ ret g', post ret g' s'.os ∧ s'.accepted = s.accepted := by
  obtain ⟨ret, g', os', events, hrun, hpost⟩ := wp_false_iff.mp h
  simp only [command, hrun, Option.some.injEq] at hstep
  subst hstep
  exact ⟨ret, g', hpost, rfl⟩

/-- What a step records and what the daemon has then accepted. -/
theorem running_step {a : Action} (h : Running n recorded s.os) (hplain : a.Plain)
    (hstep : s.step a = some s') :
    s'.os.fs.denied configLoad .w = s.os.fs.denied configLoad .w ∧
      Running n (if s.os.fs.denied configLoad .w = none then a.records recorded else recorded)
        s'.os ∧
      s'.accepted = if a = .handle true then recorded else s.accepted := by
  cases a with
  | edit path text =>
      simp only [step] at hstep
      split at hstep
      · cases hstep
      · rename_i hne
        obtain ⟨hload, hpid⟩ := not_or.mp hne
        cases hstep
        simpa [Action.records] using h.edit hload hpid
  | load cwd file path refused =>
      simp only [step] at hstep
      split at hstep
      · rename_i hlocated
        obtain ⟨-, -, ⟨heffect, hcontent⟩, haccepted⟩ :=
          exists_of_command hstep (load_spec (h.signalling refused) hlocated)
        have hfound := (h.signalling refused).found_of_effect heffect
        have hdenied : s'.os.fs.denied = s.os.fs.denied := heffect.denied_eq
        refine ⟨by rw [hdenied], ⟨hfound, hdenied ▸ h.readable, hcontent, ?_⟩, haccepted⟩
        split
        · exact hplain
        · exact h.plain
      · cases hstep
  | reload refused =>
      obtain ⟨-, -, hos, haccepted⟩ :=
        exists_of_command hstep (reload_spec (h.signalling refused))
      rw [hos]
      exact ⟨rfl, by simpa [Action.records] using h.signalling refused, by simpa using haccepted⟩
  | handle accepted =>
      simp only [step] at hstep
      split at hstep
      · cases hstep
        refine ⟨rfl, by simpa [Action.records] using h, ?_⟩
        cases accepted with
        | true => simp [h.reloadLine]
        | false => simp
      · cases hstep

/-- What a run records and what the daemon has then accepted. -/
theorem running_run {start : Path} {actions : List Action} (h : Running n start s.os)
    (haccepted : s.accepted = start) (hplain : ∀ a ∈ actions, a.Plain)
    (hrun : Machine.run step s actions = some s') :
    s'.os.fs.denied configLoad .w = s.os.fs.denied configLoad .w ∧
      Running n (if s.os.fs.denied configLoad .w = none then lastLoad start actions else start)
        s'.os ∧
      s'.accepted = if s.os.fs.denied configLoad .w = none then
        lastLoad start (untilAccepted actions) else start := by
  induction actions using List.reverseRecOn generalizing s' with
  | nil =>
      cases hrun
      simpa [lastLoad, untilAccepted] using ⟨h, haccepted⟩
  | append_singleton actions a ih =>
      rw [Machine.run_concat] at hrun
      obtain ⟨s₁, hfirst, hlast⟩ := Option.bind_eq_some_iff.mp hrun
      obtain ⟨hdenied, hrunning, hbefore⟩ :=
        ih (fun b hb => hplain b (List.mem_append_left _ hb)) hfirst
      obtain ⟨hdenied', hrunning', hafter⟩ :=
        running_step hrunning (hplain a (by simp)) hlast
      rw [hdenied] at hdenied' hrunning'
      refine ⟨hdenied', ?_, ?_⟩
      · rw [lastLoad_concat]
        split at hrunning' <;> rename_i hcan <;> simpa [hcan] using hrunning'
      · rw [hafter, untilAccepted, List.rdropWhile_concat]
        by_cases ha : a = .handle true
        · subst ha
          simp [Action.records]
        · simp [ha, hbefore, untilAccepted]

/-- Every `restart` that returns 0 starts the new daemon on the configuration that the running
one has accepted last. -/
def RestartsAccepted (s : Session) : Prop :=
  ∀ cwd refused ret g' os' events,
    (parseOptions cwd [package, key 2]).runs initialGlobals (Session.signalling s.os refused) =
      some ((ret, g'), os', events) → ret = 0 → g'.configFile = s.accepted

theorem restartsAccepted_iff_recorded (h : Running n recorded s.os) :
    RestartsAccepted s ↔ recorded = s.accepted := by
  constructor
  · intro hall
    obtain ⟨ret, g', os', events, hrun, hconfig, hzero⟩ :=
      wp_false_iff.mp (restart_spec "/" (h.signalling none))
    rw [← hconfig]
    exact hall _ _ ret g' os' events hrun (hzero rfl)
  · intro heq cwd refused ret g' os' events hrun _
    obtain ⟨ret', g'', os'', events', hrun', hconfig, -⟩ :=
      wp_false_iff.mp (restart_spec cwd (h.signalling refused))
    rw [hrun] at hrun'
    cases hrun'
    exact hconfig.trans heq

/-- A restart hands on the configuration accepted last exactly when the last `load` names the
path that was recorded when the daemon accepted one, or nothing can be recorded at all. -/
theorem restarts_accepted_iff {start : Path} {actions : List Action} (h : Running n start s.os)
    (haccepted : s.accepted = start) (hplain : ∀ a ∈ actions, a.Plain)
    (hrun : Machine.run step s actions = some s') :
    RestartsAccepted s' ↔ (s.os.fs.denied configLoad .w = none →
      lastLoad start actions = lastLoad start (untilAccepted actions)) := by
  obtain ⟨-, hrunning, haccepted'⟩ := running_run h haccepted hplain hrun
  rw [restartsAccepted_iff_recorded hrunning, haccepted']
  by_cases hdenied : s.os.fs.denied configLoad .w = none
  · simp [hdenied]
  · simp [hdenied]

/-- A daemon on one of two configuration files. -/
def onFirst : Session where
  os :=
    { fs := .ofFiles [(pidFile, decimal 4321 ++ ['\n']),
        (configLoad, "/srv/a.cfg".toList ++ ['\n']), ("/srv/a.cfg", []), ("/srv/b.cfg", [])]
      proc := ["1", "4321"]
      killError := fun _ _ => none
      self := 4400 }
  pending := false
  accepted := "/srv/a.cfg"

theorem plain_first : Plain "/srv/a.cfg" := ⟨by decide, by simp [isSpace], by decide⟩

theorem plain_second : Plain "/srv/b.cfg" := ⟨by decide, by simp [isSpace], by decide⟩

theorem running_onFirst : Running (false, 4321) "/srv/a.cfg" onFirst.os where
  found := ⟨⟨pidFile, 0⟩, by rfl, by decide, by decide⟩
  readable := rfl
  content := by rfl
  plain := plain_first

/-- Load the second file; the daemon accepts it or not. -/
def loadSecond (accepted : Bool) : List Action :=
  [.load "/srv" "b.cfg" "/srv/b.cfg" none, .handle accepted]

theorem plain_loadSecond (accepted : Bool) : ∀ a ∈ loadSecond accepted, a.Plain := by
  simp [loadSecond, Action.Plain, plain_second]

theorem loadSecond_runs (accepted : Bool) :
    ∃ s, Machine.run step onFirst (loadSecond accepted) = some s := by
  cases accepted with
  | true => exact Option.isSome_iff_exists.mp (by decide +kernel)
  | false => exact Option.isSome_iff_exists.mp (by decide +kernel)

theorem accepted_second_restarts :
    ∃ s, Machine.run step onFirst (loadSecond true) = some s ∧ (RestartsAccepted s ↔
      (onFirst.os.fs.denied configLoad .w = none → lastLoad "/srv/a.cfg" (loadSecond true) =
        lastLoad "/srv/a.cfg" (untilAccepted (loadSecond true)))) := by
  obtain ⟨s, hrun⟩ := loadSecond_runs true
  exact ⟨s, hrun, restarts_accepted_iff running_onFirst rfl (plain_loadSecond true) hrun⟩

/-- A restart after a rejected `load` hands on the rejected file. -/
theorem rejected_second_restarts : ¬ ∀ n start s actions s', Running n start s.os →
    s.accepted = start → (∀ a ∈ actions, a.Plain) → Machine.run step s actions = some s' →
      RestartsAccepted s' := by
  intro hall
  obtain ⟨s, hrun⟩ := loadSecond_runs false
  have hrestarts := hall _ _ _ _ _ running_onFirst rfl (plain_loadSecond false) hrun
  rw [restarts_accepted_iff running_onFirst rfl (plain_loadSecond false) hrun] at hrestarts
  exact absurd (hrestarts rfl) (by decide)

end Session

end Robotd
