import Robotd.Lib.Machine
import Robotd.Lib.Program

/-!
# Amortized cost

A program that `Spends price n` makes only calls that have a price, and pays `n` for them at most,
whatever the responses are. A machine pays from a potential: where each step lowers the potential
by one, apart from what it is granted, no run is longer than the potential and all its grants
(`Machine.length_le`). The potential of a pool is a sum over its members, of which a step changes
one at a time (`sum_exchange`).
-/

namespace Lib

namespace Program

variable {Call : Type} {Res : Call → Type} {α β : Type}

/-- The program makes only calls that have a price, and pays `n` for them at most. -/
def Spends (price : Call → Option Nat) : Nat → Program Call Res α → Prop
  | _, .ret _ => True
  | n, .call c next => ∃ x, price c = some x ∧ x ≤ n ∧ ∀ r, Spends price (n - x) (next r)

variable {price : Call → Option Nat} {n k x : Nat}

theorem Spends.mono {p : Program Call Res α} (h : Spends price n p) (hle : n ≤ k) :
    Spends price k p := by
  induction p generalizing n k with
  | ret a => trivial
  | call c next ih =>
      obtain ⟨x, hx, hxn, hnext⟩ := h
      exact ⟨x, hx, hxn.trans hle, fun r => ih r (hnext r) (Nat.sub_le_sub_right hle x)⟩

/-- A sequence whose second part has to do with what the first one leaves. -/
theorem Spends.seq {p : Program Call Res α} {f : α → Program Call Res β} (hp : Spends price n p)
    (hle : n ≤ k) (hf : ∀ a, Spends price (k - n) (f a)) : Spends price k (p >>= f) := by
  induction p generalizing n k with
  | ret a => exact (hf a).mono (Nat.sub_le k n)
  | call c next ih =>
      obtain ⟨x, hx, hxn, hnext⟩ := hp
      refine ⟨x, hx, hxn.trans hle, fun r => ih r (hnext r) (Nat.sub_le_sub_right hle x) fun a => ?_⟩
      exact (hf a).mono (by omega)

/-- A protocol with a budget that the calls of the program lower by their prices. -/
theorem Spends.conforms {P : Protocol Call Res} (φ : Nat → P.Phase) {p : Program Call Res α}
    (hpay : ∀ n c x, price c = some x → x ≤ n →
      P.allows (φ n) c ∧ ∀ r, P.after (φ n) ⟨c, r⟩ = φ (n - x))
    (h : Spends price k p) (hle : k ≤ n) :
    Conforms P (fun ψ _ => ∃ left, ψ = φ left ∧ n ≤ left + k) (φ n) p := by
  induction p generalizing k n with
  | ret a => exact ⟨n, rfl, Nat.le_add_right n k⟩
  | call c next ih =>
      obtain ⟨x, hx, hxk, hnext⟩ := h
      obtain ⟨hallows, hafter⟩ := hpay n c x hx (hxk.trans hle)
      refine ⟨hallows, fun r _ => ?_⟩
      rw [hafter]
      refine (ih r (hnext r) (Nat.sub_le_sub_right hle x)).mono fun ψ a hleft => ?_
      obtain ⟨left, rfl, hleft⟩ := hleft
      exact ⟨left, rfl, by omega⟩

end Program

namespace Machine

variable {σ α : Type*} {step : σ → α → Option σ}

/-- What the steps of this run are granted, as far as it goes. -/
def granted (step : σ → α → Option σ) (grant : σ → α → Nat) : σ → List α → Nat
  | _, [] => 0
  | s, a :: rest => grant s a + match step s a with
      | some s' => granted step grant s' rest
      | none => 0

/-- The potential method. -/
theorem length_le {potential : σ → Nat} {grant : σ → α → Nat} {I : σ → Prop}
    (hkeep : ∀ s a s', I s → step s a = some s' → I s')
    (hpay : ∀ s a s', I s → step s a = some s' → potential s' + 1 ≤ potential s + grant s a)
    {s s' : σ} {actions : List α} (hI : I s) (hrun : run step s actions = some s') :
    actions.length + potential s' ≤ potential s + granted step grant s actions := by
  induction actions generalizing s with
  | nil =>
      cases hrun
      simp [granted]
  | cons a rest ih =>
      obtain ⟨next, hstep, hrest⟩ := Option.bind_eq_some_iff.mp hrun
      have hone := hpay s a next hI hstep
      have hrec := ih (hkeep s a next hI hstep) hrest
      rw [granted, hstep, List.length_cons]
      dsimp only
      omega

end Machine

section Pool

variable {ι : Type*} [DecidableEq ι] {S : Finset ι} {f g : ι → Nat} {a : ι} {m n : Nat}

/-- A sum in which one term changes and the others do not grow. -/
theorem sum_exchange (ha : a ∈ S) (hother : ∀ b, b ≠ a → g b ≤ f b) (hone : g a + m ≤ f a + n) :
    ∑ b ∈ S, g b + m ≤ ∑ b ∈ S, f b + n := by
  have hrest : ∑ b ∈ S.erase a, g b ≤ ∑ b ∈ S.erase a, f b :=
    Finset.sum_le_sum fun b hb => hother b (Finset.ne_of_mem_erase hb)
  rw [← Finset.add_sum_erase S g ha, ← Finset.add_sum_erase S f ha]
  omega

end Pool

end Lib
