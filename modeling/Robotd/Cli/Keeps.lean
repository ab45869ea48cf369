import Robotd.Cli.Os

/-!
# The command line against a protocol

`Keeps` is the conformance of a command line function to a protocol, with one rule for each
wrapper of a call, so that proofs about protocols never unfold the wrappers.
-/

namespace Robotd

open Lib Lib.CLib
open Lib.Program (Protocol Conforms)

namespace Cli

variable {P : Protocol Call Response} {α β : Type} {φ : P.Phase} {g : Globals}

/-- From phase `φ` and the variables `g`, the function keeps the protocol, and ends in a phase,
with a value and with variables that satisfy `post`. -/
def Keeps (P : Protocol Call Response) (x : Cli α) (g : Globals) (φ : P.Phase)
    (post : P.Phase → α → Globals → Prop) : Prop :=
  Conforms P (fun ψ out => post ψ out.1 out.2) φ (x.run g)

variable {post : P.Phase → α → Globals → Prop}

theorem Keeps.mono {post' : P.Phase → α → Globals → Prop} {x : Cli α} (h : Keeps P x g φ post)
    (himp : ∀ ψ a g', post ψ a g' → post' ψ a g') : Keeps P x g φ post' :=
  Program.Conforms.mono h fun ψ out => himp ψ out.1 out.2

@[simp] theorem keeps_pure (a : α) : Keeps P (pure a) g φ post ↔ post φ a g := Iff.rfl

@[simp] theorem keeps_bind (x : Cli α) (f : α → Cli β) {post : P.Phase → β → Globals → Prop} :
    Keeps P (x >>= f) g φ post ↔
      Keeps P x g φ fun ψ a g' => Keeps P (f a) g' ψ post := by
  simp only [Keeps, StateT.run_bind, Program.conforms_bind]

@[simp] theorem keeps_ite {c : Prop} [Decidable c] (x y : Cli α) :
    Keeps P (if c then x else y) g φ post ↔
      if c then Keeps P x g φ post else Keeps P y g φ post := by
  split <;> exact Iff.rfl

@[simp] theorem keeps_get {post : P.Phase → Globals → Globals → Prop} :
    Keeps P get g φ post ↔ post φ g g := Iff.rfl

@[simp] theorem keeps_errno {post : P.Phase → Int → Globals → Prop} :
    Keeps P errno g φ post ↔ post φ g.errno g := Iff.rfl

@[simp] theorem keeps_modify (f : Globals → Globals) {post : P.Phase → Unit → Globals → Prop} :
    Keeps P (modify f) g φ post ↔ post φ () (f g) := Iff.rfl

@[simp] theorem keeps_setConfigFile (path : Path) {post : P.Phase → Unit → Globals → Prop} :
    Keeps P (setConfigFile path) g φ post ↔ post φ () { g with configFile := path } := Iff.rfl

theorem keeps_make (c : Call) {post : P.Phase → Response c → Globals → Prop} :
    Keeps P (Sys.make c : Cli (Response c)) g φ post ↔
      P.allows φ c ∧ ∀ r, P.expects φ ⟨c, r⟩ → post (P.after φ ⟨c, r⟩) r g := by
  rw [Keeps, StateT.run_monadLift]
  exact Iff.rfl

theorem keeps_fault {reason : Fault} (h : P.allows φ (.fault reason)) :
    Keeps P (fault reason : Cli α) g φ post :=
  ⟨h, fun r => r.elim⟩

/-- A report sets `errno`, which is not zero then. -/
theorem keeps_report (answer : Except Errno Unit) {post : P.Phase → Bool → Globals → Prop}
    (hok : answer = .ok () → post φ true g)
    (herror : ∀ e, answer = .error e → post φ false { g with errno := e }) :
    Keeps P (report answer) g φ post := by
  cases answer with
  | ok done => exact hok rfl
  | error e => exact herror e rfl

theorem keeps_fopen {path : Path} {mode : Mode} {post : P.Phase → Option Handle → Globals → Prop}
    (hallows : P.allows φ (.fopen path mode))
    (hok : ∀ h, P.expects φ ⟨.fopen path mode, .ok h⟩ →
      post (P.after φ ⟨.fopen path mode, .ok h⟩) (some h) g)
    (herror : ∀ e, P.expects φ ⟨.fopen path mode, .error e⟩ →
      post (P.after φ ⟨.fopen path mode, .error e⟩) none { g with errno := e }) :
    Keeps P (fopen path mode) g φ post := by
  rw [fopen, keeps_bind]
  refine (keeps_make _).mpr ⟨hallows, fun r hr => ?_⟩
  cases r with
  | ok h => exact hok h hr
  | error e => exact herror e hr

end Cli

end Robotd
