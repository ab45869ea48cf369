import Mathlib

/-!
# Rotating archives

Records go to the end of file 0. To rotate, each file is moved to the next number, from the last one
on, when that number is free. `kept n` is what the files `n`, …, `0` have, the oldest first: a move
does not change it, and when file `n` is dropped the oldest are lost and no others.
-/

namespace Lib.Archive

variable {α : Type}

/-- The records of the files up to a number, in the order in which they were put. -/
def kept : Nat → (Nat → List α) → List α
  | 0, files => files 0
  | n + 1, files => files (n + 1) ++ kept n files

def put (records : List α) (files : Nat → List α) : Nat → List α :=
  Function.update files 0 (files 0 ++ records)

def drop (n : Nat) (files : Nat → List α) : Nat → List α := Function.update files n []

def move (i : Nat) (files : Nat → List α) : Nat → List α :=
  Function.update (Function.update files (i + 1) (files i)) i []

variable {n i : Nat} {files files' : Nat → List α} {records : List α}

theorem kept_congr (h : ∀ j ≤ n, files j = files' j) : kept n files = kept n files' := by
  induction n with
  | zero => exact h 0 le_rfl
  | succ n ih => rw [kept, kept, h (n + 1) le_rfl, ih fun j hj => h j (hj.trans (Nat.le_succ n))]

theorem mem_kept {a : α} : a ∈ kept n files ↔ ∃ i ≤ n, a ∈ files i := by
  induction n with
  | zero => simp [kept]
  | succ n ih =>
      rw [kept, List.mem_append, ih]
      constructor
      · rintro (hmem | ⟨i, hi, hmem⟩)
        · exact ⟨n + 1, le_rfl, hmem⟩
        · exact ⟨i, hi.trans (Nat.le_succ n), hmem⟩
      · rintro ⟨i, hi, hmem⟩
        rcases Nat.lt_or_eq_of_le hi with hless | rfl
        · exact .inr ⟨i, Nat.le_of_lt_succ hless, hmem⟩
        · exact .inl hmem

theorem kept_put : kept n (put records files) = kept n files ++ records := by
  induction n with
  | zero => rw [kept, kept, put, Function.update_self]
  | succ n ih =>
      rw [kept, kept, ih, put, Function.update_of_ne (Nat.succ_ne_zero n), List.append_assoc]

/-- The oldest file goes. -/
theorem kept_drop : kept n files = files n ++ kept n (drop n files) := by
  cases n with
  | zero => simp [kept, drop]
  | succ n =>
      have hrest : kept n (drop (n + 1) files) = kept n files :=
        kept_congr fun j hj => by rw [drop, Function.update_of_ne (by omega)]
      rw [kept, kept, hrest, drop, Function.update_self, List.nil_append]

/-- A file goes where there is none. -/
theorem kept_move (hi : i < n) (hfree : files (i + 1) = []) : kept n (move i files) = kept n files := by
  induction n with
  | zero => exact absurd hi (Nat.not_lt_zero i)
  | succ n ih =>
      rw [kept, kept]
      rcases Nat.lt_succ_iff_lt_or_eq.mp hi with hlater | rfl
      · have hout : move i files (n + 1) = files (n + 1) := by
          rw [move, Function.update_of_ne (by omega), Function.update_of_ne (by omega)]
        rw [hout, ih hlater]
      · have hmoved : move i files (i + 1) = files i := by
          rw [move, Function.update_of_ne (Nat.succ_ne_self i), Function.update_self]
        have hrest : kept i (move i files) = kept i (drop i files) := by
          refine kept_congr fun j hj => ?_
          rcases Nat.lt_or_eq_of_le hj with hlt | rfl
          · rw [move, drop, Function.update_of_ne (by omega), Function.update_of_ne (by omega),
              Function.update_of_ne (by omega)]
          · rw [move, drop, Function.update_self, Function.update_self]
        rw [hmoved, hrest, hfree, List.nil_append]
        exact kept_drop.symm

end Lib.Archive
