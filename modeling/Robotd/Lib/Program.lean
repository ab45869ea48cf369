import Mathlib

/-!
# Programs as trees of calls

A `Program Call Res α` either has returned a value or makes a call `c` and continues with the
response `Res c`. Nothing is said here about what a call does: `exec` runs a program against a
responder with a state of its own, one program after another, and `Conforms` checks a program
against a protocol, whatever the responses are. A pool of programs interleaves by replacing
`call c next` with `next r`, so the remaining program of a process is again a program.

Read `wp_bind` and `conforms_bind` first: both meanings are compositional.
-/

namespace Lib

/-- A program has returned, or makes a call and continues with the response. -/
inductive Program (Call : Type) (Res : Call → Type) (α : Type) : Type where
  | ret (value : α)
  | call (c : Call) (next : Res c → Program Call Res α)

/-- A completed call together with its response. -/
abbrev Event (Call : Type) (Res : Call → Type) : Type := (c : Call) × Res c

namespace Program

variable {Call : Type} {Res : Call → Type} {α β σ : Type}

/-- Run `p` and continue with its value. -/
def bind : Program Call Res α → (α → Program Call Res β) → Program Call Res β
  | .ret a, f => f a
  | .call c next, f => .call c fun r => (next r).bind f

instance : Monad (Program Call Res) where
  pure := ret
  bind := bind

@[simp] theorem pure_eq (a : α) : (pure a : Program Call Res α) = .ret a := rfl

@[simp] theorem ret_bind (a : α) (f : α → Program Call Res β) :
    (Program.ret a : Program Call Res α) >>= f = f a := rfl

@[simp] theorem call_bind (c : Call) (next : Res c → Program Call Res α)
    (f : α → Program Call Res β) :
    (Program.call c next) >>= f = .call c fun r => next r >>= f := rfl

@[simp] theorem map_ret (f : α → β) (a : α) :
    f <$> (Program.ret a : Program Call Res α) = .ret (f a) := rfl

@[simp] theorem map_call (f : α → β) (c : Call) (next : Res c → Program Call Res α) :
    f <$> (Program.call c next) = .call c fun r => f <$> next r := rfl

theorem bind_ret (p : Program Call Res α) : p >>= Program.ret = p := by
  induction p with
  | ret a => rfl
  | call c next ih => exact congrArg (Program.call c) (funext ih)

theorem bind_assoc {γ : Type} (p : Program Call Res α) (f : α → Program Call Res β)
    (g : β → Program Call Res γ) : p >>= f >>= g = p >>= fun a => f a >>= g := by
  induction p with
  | ret a => rfl
  | call c next ih => exact congrArg (Program.call c) (funext ih)

instance : LawfulMonad (Program Call Res) :=
  LawfulMonad.mk' _ bind_ret (fun _ _ => rfl) (fun p f g => bind_assoc p f g)

/-- Make one call and return its response. -/
def request (c : Call) : Program Call Res (Res c) := .call c .ret

/-! ## Running one program alone -/

/-- Run a program against a responder with state `σ`. The result carries the value, the final
state and the calls made, in order; `none` means that some call got no response. -/
def exec (respond : (c : Call) → σ → Option (Res c × σ)) :
    Program Call Res α → σ → Option (α × σ × List (Event Call Res))
  | .ret a, s => some (a, s, [])
  | .call c next, s => do
      let (r, s') ← respond c s
      let (a, final, events) ← (next r).exec respond s'
      pure (a, final, ⟨c, r⟩ :: events)

variable {respond : (c : Call) → σ → Option (Res c × σ)}

/-- Running `p >>= f` is running `p` and then `f` on its value. -/
theorem exec_bind (p : Program Call Res α) (f : α → Program Call Res β) (s : σ) :
    (p >>= f).exec respond s = (do
      let (a, s', first) ← p.exec respond s
      let (b, final, rest) ← (f a).exec respond s'
      pure (b, final, first ++ rest)) := by
  induction p generalizing s with
  | ret a =>
      simp only [ret_bind, exec, Option.bind_eq_bind, Option.bind_some, List.nil_append]
      cases (f a).exec respond s <;> rfl
  | call c next ih =>
      simp only [call_bind, exec, Option.bind_eq_bind]
      cases respond c s with
      | none => rfl
      | some answer =>
          simp only [Option.bind_some, ih, Option.bind_eq_bind, Option.bind_assoc]
          rfl

/-- The run of `p` from `s` ends with a value, a state and calls that satisfy `post`; a run
that gets stuck is judged by `stuck`. With `stuck := False` this is total correctness, with
`stuck := True` partial correctness. -/
def wp (respond : (c : Call) → σ → Option (Res c × σ)) (p : Program Call Res α) (s : σ)
    (post : α → σ → List (Event Call Res) → Prop) (stuck : Prop) : Prop :=
  match p.exec respond s with
  | some (a, final, events) => post a final events
  | none => stuck

section Rules

variable {post : α → σ → List (Event Call Res) → Prop} {stuck : Prop}

@[simp] theorem wp_ret (a : α) (s : σ) : wp respond (.ret a) s post stuck ↔ post a s [] := Iff.rfl

theorem wp_bind (p : Program Call Res α) (f : α → Program Call Res β) (s : σ)
    {post : β → σ → List (Event Call Res) → Prop} :
    wp respond (p >>= f) s post stuck ↔
      wp respond p s (fun a s' first =>
        wp respond (f a) s' (fun b final rest => post b final (first ++ rest)) stuck) stuck := by
  simp only [wp, exec_bind, Option.bind_eq_bind]
  cases p.exec respond s with
  | none => exact Iff.rfl
  | some out =>
      simp only [Option.bind_some]
      cases (f out.1).exec respond out.2.1 <;> exact Iff.rfl

/-- One answered call. -/
theorem wp_request {c : Call} {s s' : σ} {r : Res c} {post : Res c → σ → List (Event Call Res) → Prop}
    (h : respond c s = some (r, s')) :
    wp respond (request c) s post stuck ↔ post r s' [⟨c, r⟩] := by
  simp [wp, request, exec, h]

/-- A call in front of a program: answered or stuck. -/
theorem wp_call (c : Call) (next : Res c → Program Call Res α) (s : σ) :
    wp respond (.call c next) s post stuck ↔
      match respond c s with
      | some (r, s') =>
          wp respond (next r) s' (fun a final events => post a final (⟨c, r⟩ :: events)) stuck
      | none => stuck := by
  simp only [wp, exec, Option.bind_eq_bind]
  cases respond c s with
  | none => exact Iff.rfl
  | some answer =>
      simp only [Option.bind_some]
      cases (next answer.1).exec respond answer.2 <;> exact Iff.rfl

theorem wp_mono {post' : α → σ → List (Event Call Res) → Prop} {p : Program Call Res α} {s : σ}
    (h : wp respond p s post stuck) (himp : ∀ a s' events, post a s' events → post' a s' events) :
    wp respond p s post' stuck := by
  unfold wp at *
  split <;> simp_all

/-- The partial rule speaks of every completed run. -/
theorem wp_true_iff {p : Program Call Res α} {s : σ} :
    wp respond p s post True ↔
      ∀ a final events, p.exec respond s = some (a, final, events) → post a final events := by
  unfold wp
  cases p.exec respond s with
  | none => simp
  | some out =>
      constructor
      · intro h a final events heq
        cases heq
        exact h
      · exact fun h => h _ _ _ rfl

end Rules

/-! ## Protocols -/

/-- A protocol: a phase that follows the calls a program makes, the calls it may make in each
phase, and the responses it relies on. -/
structure Protocol (Call : Type) (Res : Call → Type) where
  Phase : Type
  after : Phase → Event Call Res → Phase
  allows : Phase → Call → Prop
  expects : Phase → Event Call Res → Prop

/-- From phase `φ`, the program makes only allowed calls as long as it gets expected responses,
and returns only values that satisfy `post` in the phase it has reached. -/
def Conforms (P : Protocol Call Res) (post : P.Phase → α → Prop) :
    P.Phase → Program Call Res α → Prop
  | φ, .ret a => post φ a
  | φ, .call c next => P.allows φ c ∧
      ∀ r, P.expects φ ⟨c, r⟩ → Conforms P post (P.after φ ⟨c, r⟩) (next r)

variable {P : Protocol Call Res} {φ : P.Phase} {post : P.Phase → α → Prop}

@[simp] theorem conforms_ret (a : α) :
    Conforms P post φ (.ret a : Program Call Res α) ↔ post φ a := Iff.rfl

@[simp] theorem conforms_call (c : Call) (next : Res c → Program Call Res α) :
    Conforms P post φ (.call c next) ↔ P.allows φ c ∧
      ∀ r, P.expects φ ⟨c, r⟩ → Conforms P post (P.after φ ⟨c, r⟩) (next r) := Iff.rfl

/-- In this phase the protocol allows the call, and takes no notice of it. -/
def Protocol.Ignores (P : Protocol Call Res) (φ : P.Phase) (c : Call) : Prop :=
  P.allows φ c ∧ ∀ r, P.after φ ⟨c, r⟩ = φ

/-- A call of which the protocol takes no notice, in front of a program. -/
theorem Conforms.ignored {c : Call} {next : Res c → Program Call Res α} (hc : P.Ignores φ c)
    (h : ∀ r, Conforms P post φ (next r)) : Conforms P post φ (.call c next) := by
  refine ⟨hc.1, fun r _ => ?_⟩
  rw [hc.2]
  exact h r

/-- The postcondition of a conforming program may be weakened. -/
theorem Conforms.mono {post' : P.Phase → α → Prop} {p : Program Call Res α}
    (h : Conforms P post φ p) (himp : ∀ ψ a, post ψ a → post' ψ a) : Conforms P post' φ p := by
  induction p generalizing φ with
  | ret a => exact himp _ _ h
  | call c next ih => exact ⟨h.1, fun r hr => ih r (h.2 r hr)⟩

/-- A sequence conforms when its second part conforms from every phase the first one reaches. -/
theorem conforms_bind {p : Program Call Res α} {f : α → Program Call Res β}
    {post : P.Phase → β → Prop} :
    Conforms P post φ (p >>= f) ↔ Conforms P (fun ψ a => Conforms P post ψ (f a)) φ p := by
  induction p generalizing φ with
  | ret a => exact Iff.rfl
  | call c next ih =>
      simp only [call_bind, conforms_call]
      exact and_congr_right fun _ => forall_congr' fun r => imp_congr_right fun _ => ih r

/-- The rule of sequencing, from a specification of the first part. -/
theorem Conforms.seq {p : Program Call Res α} {f : α → Program Call Res β}
    {mid : P.Phase → α → Prop} {post : P.Phase → β → Prop} (hp : Conforms P mid φ p)
    (hf : ∀ ψ a, mid ψ a → Conforms P post ψ (f a)) : Conforms P post φ (p >>= f) :=
  conforms_bind.mpr (hp.mono hf)

/-! ## Programs that make only certain calls -/

/-- The protocol without phases that allows the calls satisfying `ok`. -/
def allowing (ok : Call → Prop) : Protocol Call Res where
  Phase := Unit
  after _ _ := ()
  allows _ c := ok c
  expects _ _ := True

/-- The program makes no call but those satisfying `ok`. -/
def Only (ok : Call → Prop) (p : Program Call Res α) : Prop :=
  Conforms (allowing ok) (fun _ _ => True) () p

variable {ok : Call → Prop}

@[simp] theorem only_ret (a : α) : Only ok (.ret a : Program Call Res α) := trivial

@[simp] theorem only_call (c : Call) (next : Res c → Program Call Res α) :
    Only ok (.call c next) ↔ ok c ∧ ∀ r, Only ok (next r) :=
  and_congr_right fun _ => forall_congr' fun _ => ⟨fun h => h trivial, fun h _ => h⟩

theorem Only.bind {p : Program Call Res α} {f : α → Program Call Res β} (hp : Only ok p)
    (hf : ∀ a, Only ok (f a)) : Only ok (p >>= f) :=
  Conforms.seq hp fun _ a _ => hf a

theorem Only.mono {ok' : Call → Prop} {p : Program Call Res α} (h : Only ok p)
    (himp : ∀ c, ok c → ok' c) : Only ok' p := by
  induction p with
  | ret a => trivial
  | call c next ih =>
      rw [only_call] at h ⊢
      exact ⟨himp c h.1, fun r => ih r (h.2 r)⟩

/-- The calls of a run are among those the program may make. -/
theorem Only.events {p : Program Call Res α} (h : Only ok p) {s final : σ} {a : α}
    {events : List (Event Call Res)} (hrun : p.exec respond s = some (a, final, events)) :
    ∀ e ∈ events, ok e.1 := by
  induction p generalizing s events with
  | ret b =>
      cases hrun
      simp
  | call c next ih =>
      rw [only_call] at h
      simp only [exec, Option.bind_eq_bind, Option.bind_eq_some_iff] at hrun
      obtain ⟨⟨r, s'⟩, -, ⟨b, final', rest⟩, hrest, hrun⟩ := hrun
      cases hrun
      simp only [List.mem_cons, forall_eq_or_imp]
      exact ⟨h.1, ih r (h.2 r) hrest⟩

theorem wp_and_only {p : Program Call Res α} {s : σ} {stuck : Prop}
    {post : α → σ → List (Event Call Res) → Prop} (hp : Only ok p)
    (h : wp respond p s post stuck) :
    wp respond p s (fun a final events => post a final events ∧ ∀ e ∈ events, ok e.1) stuck := by
  unfold wp at *
  split <;> rename_i hrun
  · rw [hrun] at h
    exact ⟨h, hp.events hrun⟩
  · rwa [hrun] at h

end Program

end Lib
