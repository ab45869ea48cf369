import Mathlib

/-!
# Named files, open handles and refused operations

A name refers to at most one file at a time. Unlinking a name and creating it again makes a new
file, so a handle keeps the file it was opened on (`ino`) and not the name. Names never share a
file: nothing below renames or links. The permissions of the system are the maps `denied` and
`sealed`, which no operation changes.

The operations are total functions on `FileSystem`; each comes with the lemma that it leaves the
files of all other names alone.
-/

namespace Lib

/-- An absolute or relative file name. -/
abbrev Path := String

/-- The error number of a failed call. It is never zero. -/
abbrev Errno := { n : Nat // n ≠ 0 }

namespace Errno

def eperm : Errno := ⟨1, by decide⟩
def enoent : Errno := ⟨2, by decide⟩
def esrch : Errno := ⟨3, by decide⟩
def eacces : Errno := ⟨13, by decide⟩
def eexist : Errno := ⟨17, by decide⟩
def erange : Errno := ⟨34, by decide⟩

end Errno

/-- Opening for reading, or for writing with truncation (`"w"` and `"w+"`). -/
inductive Mode where
  | r
  | w
  deriving DecidableEq, Repr

/-- An open file: the name it was opened by and the file it refers to. -/
structure Handle where
  path : Path
  ino : Nat
  deriving DecidableEq, Repr

/-- The files a name has ever referred to: the present one, their contents, and the number the
next one gets. -/
structure File where
  current : Option Nat
  data : Nat → List Char
  fresh : Nat

namespace File

/-- A name that never referred to a file. -/
def absent : File := ⟨none, fun _ => [], 0⟩

/-- A name whose first file holds the text. -/
def holding (text : List Char) : File := ⟨some 0, fun _ => text, 1⟩

end File

structure FileSystem where
  file : Path → File
  dir : Path → Bool
  denied : Path → Mode → Option Errno
  sealed : Path → Option Errno

/-- The directory part of a file name. -/
def dirname (path : Path) : Path :=
  String.ofList ((path.toList.reverse.dropWhile (· ≠ '/')).drop 1).reverse

namespace File

/-- The contents of the file the name refers to at present. -/
def content (f : File) : Option (List Char) := f.current.map f.data

/-- Replace the contents of file `ino`. -/
def put (f : File) (ino : Nat) (text : List Char) : File :=
  { f with data := fun i => if i = ino then text else f.data i }

/-- Start a new, empty file under the name. -/
def create (f : File) : File :=
  { (f.put f.fresh []) with current := some f.fresh, fresh := f.fresh + 1 }

/-- The name refers to no file any more. -/
def remove (f : File) : File := { f with current := none }

@[simp] theorem put_current (f : File) (ino : Nat) (text : List Char) :
    (f.put ino text).current = f.current := rfl

@[simp] theorem put_data_self (f : File) (ino : Nat) (text : List Char) :
    (f.put ino text).data ino = text := by simp [put]

@[simp] theorem create_current (f : File) : f.create.current = some f.fresh := rfl

@[simp] theorem remove_current (f : File) : f.remove.current = none := rfl

@[simp] theorem remove_data (f : File) : f.remove.data = f.data := rfl

end File

namespace FileSystem

/-- Every directory exists, nothing is refused, and exactly the listed files exist. -/
def ofFiles (files : List (Path × List Char)) : FileSystem where
  file path := (files.lookup path).elim .absent .holding
  dir _ := true
  denied _ _ := none
  sealed _ := none

/-- Replace what is known of one name. -/
def setFile (fs : FileSystem) (path : Path) (f : File) : FileSystem :=
  { fs with file := fun q => if q = path then f else fs.file q }

@[simp] theorem setFile_self (fs : FileSystem) (path : Path) (f : File) :
    (fs.setFile path f).file path = f := by simp [setFile]

theorem setFile_other (fs : FileSystem) {path other : Path} (f : File) (h : other ≠ path) :
    (fs.setFile path f).file other = fs.file other := by simp [setFile, h]

@[simp] theorem setFile_denied (fs : FileSystem) (path : Path) (f : File) :
    (fs.setFile path f).denied = fs.denied := rfl

@[simp] theorem setFile_sealed (fs : FileSystem) (path : Path) (f : File) :
    (fs.setFile path f).sealed = fs.sealed := rfl

@[simp] theorem setFile_dir (fs : FileSystem) (path : Path) (f : File) :
    (fs.setFile path f).dir = fs.dir := rfl

/-- `fopen` for reading: it needs an existing file and permission. -/
def openRead (fs : FileSystem) (path : Path) : Except Errno Handle :=
  match fs.denied path .r, (fs.file path).current with
  | some e, _ => .error e
  | none, some ino => .ok ⟨path, ino⟩
  | none, none => .error .enoent

/-- `fopen` for writing: an existing file is truncated, an absent one is created in an existing
directory. -/
def openWrite (fs : FileSystem) (path : Path) : Except Errno Handle × FileSystem :=
  match fs.denied path .w, (fs.file path).current with
  | some e, _ => (.error e, fs)
  | none, some ino => (.ok ⟨path, ino⟩, fs.setFile path ((fs.file path).put ino []))
  | none, none =>
      if fs.dir (dirname path) then
        (.ok ⟨path, (fs.file path).fresh⟩, fs.setFile path (fs.file path).create)
      else (.error .enoent, fs)

/-- `fopen` in either mode. -/
def fopen (fs : FileSystem) (path : Path) : Mode → Except Errno Handle × FileSystem
  | .r => (fs.openRead path, fs)
  | .w => fs.openWrite path

/-- What a handle's file holds. -/
def read (fs : FileSystem) (h : Handle) : List Char := (fs.file h.path).data h.ino

/-- Write a text at the start of a handle's file. Text beyond it stays. -/
def write (fs : FileSystem) (h : Handle) (text : List Char) : FileSystem :=
  fs.setFile h.path ((fs.file h.path).put h.ino (text ++ (fs.read h).drop text.length))

/-- `unlink`. -/
def unlink (fs : FileSystem) (path : Path) : Except Errno Unit × FileSystem :=
  match fs.sealed path, (fs.file path).current with
  | some e, _ => (.error e, fs)
  | none, some _ => (.ok (), fs.setFile path (fs.file path).remove)
  | none, none => (.error .enoent, fs)

/-- `stat` on a directory, as far as its success goes. -/
def statDir (fs : FileSystem) (path : Path) : Except Errno Unit :=
  if fs.dir path then .ok () else .error .enoent

/-- `mkdir`. -/
def mkdir (fs : FileSystem) (path : Path) : Except Errno Unit × FileSystem :=
  match fs.sealed path with
  | some e => (.error e, fs)
  | none =>
      if fs.dir path then (.error .eexist, fs)
      else (.ok (), { fs with dir := fun q => q == path || fs.dir q })

/-! ## What an operation leaves alone -/

theorem fopen_file_other (fs : FileSystem) {path other : Path} (mode : Mode) (h : other ≠ path) :
    (fs.fopen path mode).2.file other = fs.file other := by
  cases mode with
  | r => rfl
  | w =>
      simp only [fopen, openWrite]
      split
      · rfl
      · exact fs.setFile_other _ h
      · split
        · exact fs.setFile_other _ h
        · rfl

theorem write_file_other (fs : FileSystem) {h : Handle} {other : Path} (text : List Char)
    (hne : other ≠ h.path) : (fs.write h text).file other = fs.file other :=
  fs.setFile_other _ hne

@[simp] theorem mkdir_file (fs : FileSystem) (path : Path) : (fs.mkdir path).2.file = fs.file := by
  simp only [mkdir]
  split
  · rfl
  · split <;> rfl

@[simp] theorem mkdir_denied (fs : FileSystem) (path : Path) :
    (fs.mkdir path).2.denied = fs.denied := by
  simp only [mkdir]
  split
  · rfl
  · split <;> rfl

@[simp] theorem fopen_denied (fs : FileSystem) (path : Path) (mode : Mode) :
    (fs.fopen path mode).2.denied = fs.denied := by
  cases mode with
  | r => rfl
  | w =>
      simp only [fopen, openWrite]
      split
      · rfl
      · rfl
      · split <;> rfl

@[simp] theorem unlink_denied (fs : FileSystem) (path : Path) :
    (fs.unlink path).2.denied = fs.denied := by
  simp only [unlink]
  split <;> rfl

@[simp] theorem write_denied (fs : FileSystem) (h : Handle) (text : List Char) :
    (fs.write h text).denied = fs.denied := rfl

/-- Writing a text into a file just opened for writing leaves exactly that text. -/
theorem content_write_opened {fs fs' : FileSystem} {path : Path} {h : Handle}
    (hopen : fs.openWrite path = (.ok h, fs')) (text : List Char) :
    ((fs'.write h text).file path).content = some text := by
  unfold openWrite at hopen
  split at hopen
  · cases hopen
  · rename_i ino hdenied hcurrent
    cases hopen
    simp [write, read, File.content, hcurrent]
  · split at hopen
    · cases hopen
      simp [write, read, File.content, File.create]
    · cases hopen

theorem mkdir_ok {fs fs' : FileSystem} {path : Path} {done : Unit}
    (hmkdir : fs.mkdir path = (.ok done, fs')) : fs.sealed path = none ∧ fs'.dir path = true := by
  unfold mkdir at hmkdir
  split at hmkdir
  · cases hmkdir
  · split at hmkdir
    · cases hmkdir
    · cases hmkdir
      exact ⟨by assumption, by simp⟩

theorem mkdir_error {fs fs' : FileSystem} {path : Path} {e : Errno}
    (hmkdir : fs.mkdir path = (.error e, fs')) : fs.dir path = true ∨ fs.sealed path ≠ none := by
  unfold mkdir at hmkdir
  split at hmkdir
  · rename_i hsealed
    exact .inr (by simp [hsealed])
  · split at hmkdir
    · exact .inl (by assumption)
    · cases hmkdir

/-- A successful open for reading names the file the name refers to. -/
theorem openRead_ok {fs : FileSystem} {path : Path} {h : Handle} (hopen : fs.openRead path = .ok h) :
    h.path = path ∧ (fs.file path).current = some h.ino := by
  unfold openRead at hopen
  split at hopen
  · cases hopen
  · cases hopen
    exact ⟨rfl, by assumption⟩
  · cases hopen

/-- A file with this text can be opened and read. -/
theorem openRead_of_content {fs : FileSystem} {path : Path} {text : List Char}
    (hdenied : fs.denied path .r = none) (h : (fs.file path).content = some text) :
    ∃ f, fs.openRead path = .ok f ∧ fs.read f = text := by
  obtain ⟨ino, hcurrent, htext⟩ := Option.map_eq_some_iff.mp h
  exact ⟨⟨path, ino⟩, by simp [openRead, hdenied, hcurrent], htext⟩

/-- A successful open for writing names a file that the name now refers to and that is empty. -/
theorem openWrite_ok {fs fs' : FileSystem} {path : Path} {h : Handle}
    (hopen : fs.openWrite path = (.ok h, fs')) :
    h.path = path ∧ (fs'.file path).current = some h.ino ∧ fs'.read h = [] ∧
      fs.denied path .w = none ∧
      ((fs.file path).current ≠ none ∨ fs.dir (dirname path) = true) := by
  unfold openWrite at hopen
  split at hopen
  · cases hopen
  · rename_i ino hdenied hcurrent
    cases hopen
    simp [hcurrent, hdenied, read]
  · rename_i hdenied hcurrent
    split at hopen
    · rename_i hdir
      cases hopen
      simp [read, File.create, hdenied, hdir]
    · cases hopen

/-- Opening for writing succeeds with permission and a file or its directory. -/
theorem openWrite_succeeds {fs : FileSystem} {path : Path} (hdenied : fs.denied path .w = none)
    (hplace : (fs.file path).current ≠ none ∨ fs.dir (dirname path) = true) :
    ∃ h fs', fs.openWrite path = (.ok h, fs') := by
  cases hcurrent : (fs.file path).current with
  | some ino => simp [openWrite, hdenied, hcurrent]
  | none =>
      have hdir := hplace.resolve_left fun h => h hcurrent
      simp [openWrite, hdenied, hcurrent, hdir]

/-- A failed open for writing changes nothing: permission is missing or the directory is. -/
theorem openWrite_error {fs fs' : FileSystem} {path : Path} {e : Errno}
    (hopen : fs.openWrite path = (.error e, fs')) :
    fs' = fs ∧ (fs.denied path .w = some e ∨ fs.denied path .w = none ∧
      (fs.file path).current = none ∧ fs.dir (dirname path) = false ∧ e = .enoent) := by
  unfold openWrite at hopen
  split at hopen
  · rename_i hdenied
    cases hopen
    exact ⟨rfl, .inl hdenied⟩
  · cases hopen
  · rename_i hdenied hcurrent
    split at hopen
    · cases hopen
    · rename_i hdir
      cases hopen
      exact ⟨rfl, .inr ⟨hdenied, hcurrent, by simpa using hdir, rfl⟩⟩

/-- After a write the handle's file starts with the text. -/
theorem read_write_self (fs : FileSystem) (h : Handle) (text : List Char) :
    (fs.write h text).read h = text ++ (fs.read h).drop text.length := by
  simp [write, read]

/-! ## Where a text comes from -/

/-- The texts under the name were there before, or have the property. -/
structure Refilled (P : List Char → Prop) (f f' : File) : Prop where
  data : ∀ ino, f'.data ino = f.data ino ∨ P (f'.data ino)
  current : ∀ ino, f'.current = some ino → f.current = some ino ∨ P (f'.data ino)

section Refilled

variable {P : List Char → Prop} (fs : FileSystem) (path : Path)

theorem Refilled.refl (f : File) : Refilled P f f := ⟨fun _ => .inl rfl, fun _ => .inl⟩

theorem Refilled.mono {Q : List Char → Prop} {f f' : File} (h : Refilled P f f')
    (himp : ∀ text, P text → Q text) : Refilled Q f f' :=
  ⟨fun ino => (h.data ino).imp id (himp _), fun ino hcurrent => (h.current ino hcurrent).imp id (himp _)⟩

theorem refilled_put (f : File) {ino : Nat} {text : List Char} (htext : P text) :
    Refilled P f (f.put ino text) := by
  refine ⟨fun i => ?_, fun _ => .inl⟩
  by_cases hi : i = ino
  · subst hi
    rw [File.put_data_self]
    exact .inr htext
  · exact .inl (if_neg hi)

theorem refilled_create (f : File) (hempty : P []) : Refilled P f f.create := by
  refine ⟨(refilled_put f hempty).data, fun ino hcurrent => .inr ?_⟩
  obtain rfl : f.fresh = ino := Option.some.inj hcurrent
  show P ((f.put f.fresh []).data f.fresh)
  rwa [File.put_data_self]

/-- Unlinking and opening a name leave old texts or none. -/
theorem refilled_unlink : Refilled P (fs.file path) ((fs.unlink path).2.file path) := by
  simp only [unlink]
  split
  · exact .refl _
  · rw [setFile_self]
    exact ⟨fun _ => .inl rfl, nofun⟩
  · exact .refl _

theorem refilled_fopen (mode : Mode) (hempty : P []) :
    Refilled P (fs.file path) ((fs.fopen path mode).2.file path) := by
  cases mode with
  | r => exact .refl _
  | w =>
      simp only [fopen, openWrite]
      split
      · exact .refl _
      · rw [setFile_self]
        exact refilled_put _ hempty
      · split
        · rw [setFile_self]
          exact refilled_create _ hempty
        · exact .refl _

theorem refilled_write (h : Handle) {text : List Char}
    (htext : P (text ++ (fs.read h).drop text.length)) :
    Refilled P (fs.file h.path) ((fs.write h text).file h.path) := by
  rw [write, setFile_self]
  exact refilled_put _ htext

end Refilled

end FileSystem

end Lib
