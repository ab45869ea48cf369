import Mathlib

/-!
# Values of code that may throw

`Yields P x` says that the value of `x` has the property `P` if nothing is thrown. The rules follow
the code: a sequence yields what its second part yields of the values of the first.
-/

namespace Lib

variable {ε α β : Type} {P Q : α → Prop} {R : β → Prop}

/-- The value has the property, if there is one. -/
def Yields (P : α → Prop) (x : Except ε α) : Prop := ∀ a, x = .ok a → P a

theorem yields_ok {a : α} (h : P a) : Yields P (.ok a : Except ε α) := by
  intro b hb
  exact Except.ok.inj hb ▸ h

theorem yields_pure {a : α} (h : P a) : Yields P (pure a : Except ε α) := yields_ok h

theorem yields_error {e : ε} : Yields P (.error e : Except ε α) := by
  intro a h
  cases h

theorem yields_throw {e : ε} : Yields P (throw e : Except ε α) := yields_error

theorem yields_bind {x : Except ε α} {f : α → Except ε β} (h : Yields P x)
    (hf : ∀ a, P a → Yields R (f a)) : Yields R (x >>= f) := by
  cases x with
  | error e => exact yields_error
  | ok a => exact hf a (h a rfl)

theorem yields_ite {c : Prop} [Decidable c] {x y : Except ε α} (hx : c → Yields P x)
    (hy : ¬c → Yields P y) : Yields P (if c then x else y) := by
  split_ifs with hc
  · exact hx hc
  · exact hy hc

theorem Yields.mono {x : Except ε α} (h : Yields P x) (himp : ∀ a, P a → Q a) : Yields Q x :=
  fun a ha => himp a (h a ha)

theorem yields_true (x : Except ε α) : Yields (fun _ => True) x := fun _ _ => trivial

theorem bind_eq_ok {x : Except ε α} {f : α → Except ε β} {b : β} :
    x >>= f = .ok b ↔ ∃ a, x = .ok a ∧ f a = .ok b := by
  cases x with
  | error e => exact iff_of_false (fun h => by cases h) (by simp)
  | ok a => exact ⟨fun h => ⟨a, rfl, h⟩, fun ⟨a', h, h'⟩ => Except.ok.inj h ▸ h'⟩

end Lib
