import Robotd.Cli.Signals

/-!
# The three fates of the block on `CONFIG_LOAD`

With a daemon alive every option but `status` first goes through the block that reads, repairs or
recreates `CONFIG_LOAD`. It goes on where `CONFIG_LOAD` is `Restorable`, returns a value at once
where it is `Broken`, and runs into undefined behaviour otherwise. What it leaves behind and what
it says to the user is part of each rule.
-/

namespace Robotd

open Lib Lib.CLib Cli

/-- The short help that `false_parameters` prints. -/
def shortHelp : String :=
  "%s\nUsage: %s  <option>\n\nOptions:\n" ++ String.join (options.map fun option =>
    "\t" ++ option.1 ++ if option.2 then " [filename.cfg]\n" else " \r\n")

/-- The messages on how the options are used. -/
def usages : List String :=
  [shortHelp, "Usage: %s load [filename.cfg]\r\n", "Usage: %s load [filename.cfg]\n"]

/-- The call tells the user of an error: a message on `stderr`, or how the options are used. -/
def Complaint : Call → Prop
  | .print .stderr _ _ => True
  | .print .stdout format _ => format ∈ usages
  | _ => False

/-- The calls of a run report an error. -/
def Reported (events : List Event) : Prop := ∃ e ∈ events, Complaint e.1

@[simp] theorem reported_nil : Reported [] ↔ False := by simp [Reported]

@[simp] theorem reported_cons (e : Event) (events : List Event) :
    Reported (e :: events) ↔ Complaint e.1 ∨ Reported events := by
  simp [Reported]

@[simp] theorem reported_append (first rest : List Event) :
    Reported (first ++ rest) ↔ Reported first ∨ Reported rest := by
  simp [Reported, or_and_right, exists_or]

section Complaints

variable (path : Path) (mode : Mode) (h : Handle) (text : List Char) (format : String)
  (args : List String) (pid : Int) (signal : Signal)

@[simp] theorem complaint_fopen : Complaint (.fopen path mode) ↔ False := Iff.rfl

@[simp] theorem complaint_fread : Complaint (.fread h) ↔ False := Iff.rfl

@[simp] theorem complaint_fwrite : Complaint (.fwrite h text) ↔ False := Iff.rfl

@[simp] theorem complaint_unlink : Complaint (.unlink path) ↔ False := Iff.rfl

@[simp] theorem complaint_stat : Complaint (.stat path) ↔ False := Iff.rfl

@[simp] theorem complaint_mkdir : Complaint (.mkdir path) ↔ False := Iff.rfl

@[simp] theorem complaint_kill : Complaint (.kill pid signal) ↔ False := Iff.rfl

@[simp] theorem complaint_readdirProc : Complaint .readdirProc ↔ False := Iff.rfl

@[simp] theorem complaint_stderr : Complaint (.print .stderr format args) ↔ True := Iff.rfl

end Complaints

/-- The block returns at once: `CONFIG_LOAD` holds no word and can be written, or it can neither
be read nor created. -/
def Broken (fs : FileSystem) : Prop :=
  Wordless fs ∧ fs.denied configLoad .w = none ∨
    (∃ e, fs.openRead configLoad = .error e) ∧ ¬ Restorable fs

/-- The file system with the run directory. -/
def withRunConfDir (fs : FileSystem) : FileSystem :=
  if fs.dir runConfDir = true then fs else (fs.mkdir runConfDir).2

/-- What the block makes of a `CONFIG_LOAD` that it can restore. -/
def restored (fs : FileSystem) : FileSystem :=
  match fs.openRead configLoad with
  | .ok _ => fs
  | .error _ =>
    match (withRunConfDir fs).openWrite configLoad with
    | (.ok h, fs) => fs.write h missingConfigLine
    | (.error _, fs) => fs

variable {g : Globals} {os : Os}

/-- Making the run directory says nothing. -/
theorem makeRunConfDir_silent : Only (fun c => ¬ Complaint c) makeRunConfDir := by
  refine (only_stat (by simp)).bind fun found => ?_
  cases found with
  | true => exact only_pure _
  | false => exact only_mkdir (by simp)

/-- Where the directory is there or may be made, it is there afterwards. -/
theorem makeRunConfDir_eq (h : os.fs.dir runConfDir = true ∨ os.fs.sealed runConfDir = none) :
    wp makeRunConfDir g os (fun made _ os' events => made = true ∧ ¬ Reported events ∧
      os' = { os with fs := withRunConfDir os.fs }) False := by
  simp only [makeRunConfDir, wp_bind, wp_stat, FileSystem.statDir, withRunConfDir]
  by_cases hdir : os.fs.dir runConfDir = true
  · simp [hdir]
  · have hmkdir : os.fs.mkdir runConfDir =
        (.ok (), { os.fs with dir := fun q => q == runConfDir || os.fs.dir q }) := by
      simp [FileSystem.mkdir, h.resolve_left hdir, hdir]
    simp [hdir, hmkdir]

/-- A restorable `CONFIG_LOAD`: the block restores it and goes on without a word. -/
theorem restoreConfig_restorable (h : Restorable os.fs) :
    wp restoreConfig g os (fun r _ os' events => r = none ∧ ¬ Reported events ∧
      os' = { os with fs := restored os.fs }) False := by
  rcases h with ⟨h, hread, hword, hlength⟩ | ⟨hread, hdenied, hplace⟩
  · simp [restoreConfig, hread, hlength, hword, restored]
  · simp only [restoreConfig, wp_bind, wp_fopen_r, hread, wp_get, if_true, wp_ite]
    refine wp_mono (wp_and (makeRunConfDir_eq hplace) (wp_stuck makeRunConfDir_spec))
      fun made g' os' events => ?_
    rintro ⟨⟨rfl, hsilent, hos⟩, -, hdir, -, -, heffect⟩
    have hplace' : os'.fs.dir (dirname configLoad) = true := by simpa using hdir rfl
    obtain ⟨f, fs, hwrite⟩ :=
      FileSystem.openWrite_succeeds (heffect.denied_eq ▸ hdenied) (.inr hplace')
    simp only [if_true, wp_bind, wp_fopen_w, hwrite, wp_fwrite, wp_pure, true_and]
    refine ⟨by simp [hsilent], ?_⟩
    rw [hos] at hwrite ⊢
    simp only [restored, hread]
    dsimp only at hwrite
    rw [hwrite]
    rfl

/-- A broken `CONFIG_LOAD`: the block reports an error and returns. -/
theorem restoreConfig_broken (h : Broken os.fs) :
    wp restoreConfig g os (fun r _ _ events => (∃ ret, r = some ret ∧ 0 ≤ ret) ∧ Reported events)
      False := by
  rcases h with ⟨⟨h, hread, hword⟩, hdenied⟩ | ⟨⟨e, hread⟩, hno⟩
  · have hcurrent : (os.fs.file configLoad).current ≠ none := by
      simp [(FileSystem.openRead_ok hread).2]
    obtain ⟨f, fs, hwrite⟩ := FileSystem.openWrite_succeeds hdenied (.inl hcurrent)
    simp [restoreConfig, hread, hword, hwrite]
  · simp only [restoreConfig, wp_bind, wp_fopen_r, hread, wp_get, wp_ite]
    split
    · rename_i henoent
      refine wp_mono makeRunConfDir_spec fun made g' os' events => ?_
      rintro ⟨hmade, -, -, -, heffect⟩
      cases made with
      | false => simp
      | true =>
          simp only [if_true, wp_bind, wp_fopen_w]
          cases hwrite : os'.fs.openWrite configLoad with
          | mk answer fs =>
          cases answer with
          | error e' => simp
          | ok f =>
              obtain ⟨-, -, -, hdenied, -⟩ := FileSystem.openWrite_ok hwrite
              refine absurd (.inr ⟨?_, heffect.denied_eq ▸ hdenied, hmade.mp rfl⟩) hno
              rw [hread, Subtype.ext henoent]
    · simp

/-- In any other state the block does not come to an end. -/
theorem restoreConfig_lost (hrestorable : ¬ Restorable os.fs) (hbroken : ¬ Broken os.fs) :
    wp restoreConfig g os (fun _ _ _ _ => False) True := by
  simp only [restoreConfig, wp_bind, wp_fopen_r]
  cases hread : os.fs.openRead configLoad with
  | error e => exact absurd (.inr ⟨⟨e, hread⟩, hrestorable⟩) hbroken
  | ok h =>
      simp only [wp_bind, wp_fread, wp_ite, wp_fault, wp_get, wp_setConfigFile, wp_fopen_w]
      split
      · trivial
      · rename_i hlength
        split
        · rename_i hempty
          have hwordless : Wordless os.fs := ⟨h, hread, by simpa using hempty⟩
          cases hwrite : os.fs.openWrite configLoad with
          | mk answer fs =>
          cases answer with
          | error e => trivial
          | ok f => exact absurd (.inl ⟨hwordless, (FileSystem.openWrite_ok hwrite).2.2.2.1⟩) hbroken
        · rename_i hword
          exact absurd (.inl ⟨h, hread, by simpa using hword, not_le.mp hlength⟩) hrestorable

/-! ## The section for a running daemon -/

/-- What `parse_options` does for the options but `status` once `CONFIG_LOAD` is restored. -/
def runningOption (cwd : Path) (argv : List String) (pid : Nat) : Cli Int := do
  let option := argument argv 1
  if option = key 0 then
    if argv.length = 3 then
      setConfigFile (argument argv 2)
      let ret ← optionLoad cwd
      if ret ≠ 0 then return ret
      else signalDaemon pid .sighup dontDoAnything "Can't load config: %m\n" []
    else
      printf "Usage: %s load [filename.cfg]\n" [package]
      return wrongOptions
  else if option = key 1 then
    signalDaemon pid .sighup dontDoAnything "Can't reload %s: %m\n" [package]
  else if option = key 2 then
    printf "Current config: %s\n" [(← get).configFile]
    signalDaemon pid .sigterm 0 "Can't restart %s: %m\n" [package]
  else if option = key 3 then
    if ← kill pid .sigterm then
      printf "%s stopped: %i\n" [package, toString pid]
      return dontDoAnything
    else
      eprintf "Can't stop %s: %m\n" [package]
      errno
  else
    printf "Undefined option\n%s\n" [option]
    falseParameters
    return wrongOptions

variable {cwd : Path} {argv : List String} {pid : Nat}

theorem daemonProcess_eq (hstatus : argument argv 1 ≠ key 4) :
    daemonProcess cwd argv pid = (do
      match ← restoreConfig with
      | some ret => return ret
      | none => runningOption cwd argv pid) :=
  if_neg hstatus

/-- With a restorable `CONFIG_LOAD` the option is carried out. -/
theorem daemonProcess_restorable {post : Int → Globals → Os → List Event → Prop} {stuck : Prop}
    (hstatus : argument argv 1 ≠ key 4) (h : Restorable os.fs)
    (hrest : ∀ g' first, ¬ Reported first → (∀ e ∈ first, Quiet e.1) →
      wp (runningOption cwd argv pid) g' { os with fs := restored os.fs }
        (fun ret g'' os'' rest => post ret g'' os'' (first ++ rest)) stuck) :
    wp (daemonProcess cwd argv pid) g os post stuck := by
  rw [daemonProcess_eq hstatus, wp_bind]
  refine wp_mono (wp_stuck (wp_and_only restoreConfig_quiet (restoreConfig_restorable h)))
    fun r g' os' first => ?_
  rintro ⟨⟨rfl, hsilent, rfl⟩, hquiet⟩
  exact hrest g' first hsilent hquiet

/-- With a broken one an error is reported, and no signal is sent. -/
theorem daemonProcess_broken (hstatus : argument argv 1 ≠ key 4) (h : Broken os.fs) :
    wp (daemonProcess cwd argv pid) g os (fun ret _ _ events =>
      0 ≤ ret ∧ Reported events ∧ ∀ e ∈ events, Quiet e.1) False := by
  rw [daemonProcess_eq hstatus, wp_bind]
  refine wp_mono (wp_and_only restoreConfig_quiet (restoreConfig_broken h)) fun r g' os' first => ?_
  rintro ⟨⟨⟨ret, rfl, hret⟩, hreported⟩, hquiet⟩
  simp only [wp_pure, List.append_nil]
  exact ⟨hret, hreported, hquiet⟩

/-- In any other state there is no run. -/
theorem daemonProcess_lost (hstatus : argument argv 1 ≠ key 4) (hrestorable : ¬ Restorable os.fs)
    (hbroken : ¬ Broken os.fs) : wp (daemonProcess cwd argv pid) g os (fun _ _ _ _ => False) True := by
  rw [daemonProcess_eq hstatus, wp_bind]
  exact wp_mono (restoreConfig_lost hrestorable hbroken) fun _ _ _ _ hno => hno.elim

end Robotd
