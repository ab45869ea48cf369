import Robotd.Cli.Options

/-!
# The system as one command line process meets it

`Os.respond` answers the calls of a process that runs alone: the file system, the listing of
`/proc`, and which signals can be sent. `runs` is a run of a command line function against it, and
`wp` what holds at its end. The lemmas `wp_fopen_r` and so on push this through one call each, so
that later proofs never unfold the wrappers.
-/

namespace Robotd

open Lib Lib.CLib

structure Os where
  fs : FileSystem
  proc : List String
  killError : Int → Signal → Option Errno
  self : Nat

/-- The answer of a call that may fail for the given reason. -/
def outcome : Option Errno → Except Errno Unit
  | some e => .error e
  | none => .ok ()

namespace Os

/-- Put the file system after an operation back. -/
def withFs {α : Type} (os : Os) (result : α × FileSystem) : Option (α × Os) :=
  some (result.1, { os with fs := result.2 })

/-- The answers to the calls of the command line; a process alone gets no answer to the others. -/
def respond : (c : Call) → Os → Option (Response c × Os)
  | .fopen path mode, os => os.withFs (os.fs.fopen path mode)
  | .fread h, os => some (os.fs.read h, os)
  | .fwrite h text, os => os.withFs ((), os.fs.write h text)
  | .unlink path, os => os.withFs (os.fs.unlink path)
  | .stat path, os => some (os.fs.statDir path, os)
  | .mkdir path, os => os.withFs (os.fs.mkdir path)
  | .readdirProc, os => some (os.proc, os)
  | .print _ _ _, os => some ((), os)
  | .getpid, os => some (os.self, os)
  | .kill pid signal, os => some (outcome (os.killError pid signal), os)
  | _, _ => none

end Os

namespace Cli

variable {α β : Type} {g : Globals} {os : Os} {stuck : Prop}

/-- The run of a command line function alone, from the given variables and system. -/
def runs (x : Cli α) (g : Globals) (os : Os) : Option ((α × Globals) × Os × List Event) :=
  (x.run g).exec Os.respond os

/-- The run of `x` satisfies `post`; `stuck` says whether undefined behaviour is tolerated. -/
def wp (x : Cli α) (g : Globals) (os : Os) (post : α → Globals → Os → List Event → Prop)
    (stuck : Prop) : Prop :=
  Program.wp Os.respond (x.run g) os (fun out os' events => post out.1 out.2 os' events) stuck

section Rules

variable {post : α → Globals → Os → List Event → Prop}

theorem wp_true_iff {x : Cli α} :
    wp x g os post True ↔
      ∀ a g' os' events, x.runs g os = some ((a, g'), os', events) → post a g' os' events := by
  rw [wp, Program.wp_true_iff]
  exact ⟨fun h a g' os' events => h (a, g') os' events, fun h out => h out.1 out.2⟩

theorem wp_mono {post' : α → Globals → Os → List Event → Prop} {x : Cli α}
    (h : wp x g os post stuck) (himp : ∀ a g' os' events, post a g' os' events →
      post' a g' os' events) : wp x g os post' stuck :=
  Program.wp_mono h fun _ _ _ => himp _ _ _ _

/-- The total rule speaks of the one run, which completes. -/
theorem wp_false_iff {x : Cli α} :
    wp x g os post False ↔
      ∃ a g' os' events, x.runs g os = some ((a, g'), os', events) ∧ post a g' os' events := by
  unfold wp Program.wp runs
  cases (x.run g).exec Os.respond os with
  | none => simp
  | some out =>
      obtain ⟨⟨a, g'⟩, os', events⟩ := out
      simp

/-- What a run that completes satisfies, whatever is known of it besides. -/
theorem wp_and {post' : α → Globals → Os → List Event → Prop} {x : Cli α}
    (h : wp x g os post stuck) (h' : wp x g os post' True) :
    wp x g os (fun a g' os' events => post a g' os' events ∧ post' a g' os' events) stuck := by
  unfold wp Program.wp at *
  split <;> simp_all

/-- Total correctness implies partial correctness. -/
theorem wp_stuck {x : Cli α} (h : wp x g os post False) : wp x g os post stuck := by
  unfold wp Program.wp at *
  split <;> simp_all

@[simp] theorem wp_pure (a : α) : wp (pure a) g os post stuck ↔ post a g os [] := Iff.rfl

@[simp] theorem wp_bind (x : Cli α) (f : α → Cli β) {post : β → Globals → Os → List Event → Prop} :
    wp (x >>= f) g os post stuck ↔
      wp x g os (fun a g' os' first =>
        wp (f a) g' os' (fun b g'' os'' rest => post b g'' os'' (first ++ rest)) stuck) stuck := by
  simp only [wp, StateT.run_bind, Program.wp_bind]

@[simp] theorem wp_map (f : α → β) (x : Cli α) {post : β → Globals → Os → List Event → Prop} :
    wp (f <$> x) g os post stuck ↔
      wp x g os (fun a g' os' events => post (f a) g' os' events) stuck := by
  rw [map_eq_pure_bind, wp_bind]
  simp only [wp_pure, List.append_nil]

@[simp] theorem wp_ite {c : Prop} [Decidable c] (x y : Cli α) :
    wp (if c then x else y) g os post stuck ↔
      if c then wp x g os post stuck else wp y g os post stuck := by
  split <;> exact Iff.rfl

@[simp] theorem wp_get {post : Globals → Globals → Os → List Event → Prop} :
    wp get g os post stuck ↔ post g g os [] := Iff.rfl

@[simp] theorem wp_modify (f : Globals → Globals) {post : Unit → Globals → Os → List Event → Prop} :
    wp (modify f) g os post stuck ↔ post () (f g) os [] := Iff.rfl

@[simp] theorem wp_setErrno (n : Nat) {post : Unit → Globals → Os → List Event → Prop} :
    wp (setErrno n) g os post stuck ↔ post () { g with errno := n } os [] := Iff.rfl

@[simp] theorem wp_setConfigFile (path : Path) {post : Unit → Globals → Os → List Event → Prop} :
    wp (setConfigFile path) g os post stuck ↔ post () { g with configFile := path } os [] := Iff.rfl

@[simp] theorem wp_errno {post : Int → Globals → Os → List Event → Prop} :
    wp errno g os post stuck ↔ post g.errno g os [] := Iff.rfl

@[simp] theorem wp_fault (reason : Fault) : wp (fault reason) g os post stuck ↔ stuck := Iff.rfl

/-- A call whose answer does not touch the variables. -/
theorem wp_make {c : Call} {r : Response c} {os' : Os}
    {post : Response c → Globals → Os → List Event → Prop} (h : Os.respond c os = some (r, os')) :
    wp (Sys.make c : Cli (Response c)) g os post stuck ↔ post r g os' [⟨c, r⟩] := by
  rw [wp, StateT.run_monadLift]
  exact (Program.wp_bind _ _ _).trans (Program.wp_request h)

/-! ### One rule for each wrapper -/

@[simp] theorem wp_fopen_r (path : Path) {post : Option Handle → Globals → Os → List Event → Prop} :
    wp (fopen path .r) g os post stuck ↔
      match os.fs.openRead path with
      | .ok h => post (some h) g os [⟨.fopen path .r, .ok h⟩]
      | .error e => post none { g with errno := e } os [⟨.fopen path .r, .error e⟩] := by
  have hcall : Os.respond (.fopen path .r) os = some (os.fs.openRead path, os) := rfl
  simp only [fopen, wp_bind, wp_make hcall]
  cases os.fs.openRead path <;> simp

@[simp] theorem wp_fopen_w (path : Path) {post : Option Handle → Globals → Os → List Event → Prop} :
    wp (fopen path .w) g os post stuck ↔
      match os.fs.openWrite path with
      | (.ok h, fs) => post (some h) g { os with fs := fs } [⟨.fopen path .w, .ok h⟩]
      | (.error e, fs) =>
          post none { g with errno := e } { os with fs := fs } [⟨.fopen path .w, .error e⟩] := by
  have hcall : Os.respond (.fopen path .w) os = some ((os.fs.openWrite path).1,
      { os with fs := (os.fs.openWrite path).2 }) := rfl
  simp only [fopen, wp_bind, wp_make hcall]
  obtain ⟨answer, fs⟩ := os.fs.openWrite path
  cases answer <;> simp

@[simp] theorem wp_fread (h : Handle) {post : List Char → Globals → Os → List Event → Prop} :
    wp (fread h) g os post stuck ↔ post (os.fs.read h) g os [⟨.fread h, os.fs.read h⟩] :=
  wp_make rfl

@[simp] theorem wp_fscanfU16 (h : Handle) {post : Scan → Globals → Os → List Event → Prop} :
    wp (fscanfU16 h) g os post stuck ↔
      post (scanU16 (os.fs.read h))
        (if (scanU16 (os.fs.read h)).outOfRange then { g with errno := Errno.erange } else g) os
        [⟨.fread h, os.fs.read h⟩] := by
  simp [fscanfU16]

@[simp] theorem wp_fwrite (h : Handle) (text : List Char)
    {post : Unit → Globals → Os → List Event → Prop} :
    wp (fwrite h text) g os post stuck ↔
      post () g { os with fs := os.fs.write h text } [⟨.fwrite h text, ()⟩] :=
  wp_make rfl

@[simp] theorem wp_unlink (path : Path) {post : Bool → Globals → Os → List Event → Prop} :
    wp (unlink path) g os post stuck ↔
      match os.fs.unlink path with
      | (.ok _, fs) => post true g { os with fs := fs } [⟨.unlink path, .ok ()⟩]
      | (.error e, fs) =>
          post false { g with errno := e } { os with fs := fs } [⟨.unlink path, .error e⟩] := by
  have hcall : Os.respond (.unlink path) os = some ((os.fs.unlink path).1,
      { os with fs := (os.fs.unlink path).2 }) := rfl
  simp only [unlink, report, wp_bind, wp_make hcall]
  obtain ⟨answer, fs⟩ := os.fs.unlink path
  cases answer <;> simp

@[simp] theorem wp_stat (path : Path) {post : Bool → Globals → Os → List Event → Prop} :
    wp (stat path) g os post stuck ↔
      match os.fs.statDir path with
      | .ok _ => post true g os [⟨.stat path, .ok ()⟩]
      | .error e => post false { g with errno := e } os [⟨.stat path, .error e⟩] := by
  have hcall : Os.respond (.stat path) os = some (os.fs.statDir path, os) := rfl
  simp only [stat, report, wp_bind, wp_make hcall]
  cases os.fs.statDir path <;> simp

@[simp] theorem wp_mkdir (path : Path) {post : Bool → Globals → Os → List Event → Prop} :
    wp (mkdir path) g os post stuck ↔
      match os.fs.mkdir path with
      | (.ok _, fs) => post true g { os with fs := fs } [⟨.mkdir path, .ok ()⟩]
      | (.error e, fs) =>
          post false { g with errno := e } { os with fs := fs } [⟨.mkdir path, .error e⟩] := by
  have hcall : Os.respond (.mkdir path) os = some ((os.fs.mkdir path).1,
      { os with fs := (os.fs.mkdir path).2 }) := rfl
  simp only [mkdir, report, wp_bind, wp_make hcall]
  obtain ⟨answer, fs⟩ := os.fs.mkdir path
  cases answer <;> simp

@[simp] theorem wp_kill (pid : Int) (signal : Signal)
    {post : Bool → Globals → Os → List Event → Prop} :
    wp (kill pid signal) g os post stuck ↔
      match os.killError pid signal with
      | none => post true g os [⟨.kill pid signal, .ok ()⟩]
      | some e => post false { g with errno := e } os [⟨.kill pid signal, .error e⟩] := by
  have hcall : Os.respond (.kill pid signal) os =
      some (outcome (os.killError pid signal), os) := rfl
  simp only [kill, report, wp_bind, wp_make hcall]
  cases os.killError pid signal <;> simp [outcome]

@[simp] theorem wp_readdirProc {post : List String → Globals → Os → List Event → Prop} :
    wp readdirProc g os post stuck ↔ post os.proc g os [⟨.readdirProc, os.proc⟩] :=
  wp_make rfl

@[simp] theorem wp_printf (format : String) (args : List String)
    {post : Unit → Globals → Os → List Event → Prop} :
    wp (printf format args) g os post stuck ↔
      post () g os [⟨.print .stdout format args, ()⟩] :=
  wp_make rfl

@[simp] theorem wp_eprintf (format : String) (args : List String)
    {post : Unit → Globals → Os → List Event → Prop} :
    wp (eprintf format args) g os post stuck ↔
      post () g os [⟨.print .stderr format args, ()⟩] :=
  wp_make rfl

end Rules

/-! ### Which calls a function makes -/

/-- The function makes no call but those satisfying `ok`. -/
def Only (ok : Call → Prop) (x : Cli α) : Prop := ∀ g, Program.Only ok (x.run g)

section Only

variable {ok : Call → Prop}

@[simp] theorem only_pure (a : α) : Only ok (pure a) := fun _ => trivial

@[simp] theorem only_get : Only ok get := fun _ => trivial

@[simp] theorem only_errno : Only ok errno := fun _ => trivial

@[simp] theorem only_modify (f : Globals → Globals) : Only ok (modify f) := fun _ => trivial

@[simp] theorem only_setErrno (n : Nat) : Only ok (setErrno n) := fun _ => trivial

@[simp] theorem only_setConfigFile (path : Path) : Only ok (setConfigFile path) :=
  fun _ => trivial

theorem Only.bind {x : Cli α} {f : α → Cli β} (hx : Only ok x) (hf : ∀ a, Only ok (f a)) :
    Only ok (x >>= f) :=
  fun g => (hx g).bind fun out => hf out.1 out.2

theorem Only.ite {c : Prop} [Decidable c] {x y : Cli α} (hx : Only ok x) (hy : Only ok y) :
    Only ok (if c then x else y) := by
  split <;> assumption

theorem Only.mono {ok' : Call → Prop} {x : Cli α} (h : Only ok x) (himp : ∀ c, ok c → ok' c) :
    Only ok' x :=
  fun g => (h g).mono himp

theorem only_make {c : Call} (h : ok c) : Only ok (Sys.make c : Cli (Response c)) := by
  intro g
  rw [StateT.run_monadLift]
  exact Program.Only.bind ((Program.only_call _ _).mpr ⟨h, fun _ => trivial⟩) fun _ => trivial

theorem only_fault {reason : Fault} (h : ok (.fault reason)) : Only ok (fault reason : Cli α) :=
  fun _ => (Program.only_call _ _).mpr ⟨h, fun r => r.elim⟩

theorem only_fopen {path : Path} {mode : Mode} (h : ok (.fopen path mode)) :
    Only ok (fopen path mode) := by
  refine (only_make h).bind fun answer => ?_
  cases answer with
  | ok f => simp
  | error e => exact (only_setErrno _).bind fun _ => only_pure _

theorem only_report (answer : Except Errno Unit) : Only ok (report answer) := by
  cases answer with
  | ok done => simp [report]
  | error e => exact (only_setErrno _).bind fun _ => only_pure _

theorem only_unlink {path : Path} (h : ok (.unlink path)) : Only ok (unlink path) :=
  (only_make h).bind only_report

theorem only_stat {path : Path} (h : ok (.stat path)) : Only ok (stat path) :=
  (only_make h).bind only_report

theorem only_mkdir {path : Path} (h : ok (.mkdir path)) : Only ok (mkdir path) :=
  (only_make h).bind only_report

theorem only_kill {pid : Int} {signal : Signal} (h : ok (.kill pid signal)) :
    Only ok (kill pid signal) :=
  (only_make h).bind only_report

theorem only_fscanfU16 {h : Handle} (hok : ok (.fread h)) : Only ok (fscanfU16 h) :=
  (only_make hok).bind fun _ => (only_modify _).bind fun _ => only_pure _

theorem wp_and_only {x : Cli α} {post : α → Globals → Os → List Event → Prop} (hx : Only ok x)
    (h : wp x g os post stuck) :
    wp x g os (fun a g' os' events => post a g' os' events ∧ ∀ e ∈ events, ok e.1) stuck :=
  Program.wp_and_only (hx g) h

end Only

end Cli

end Robotd
