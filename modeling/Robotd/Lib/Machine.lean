import Mathlib

/-!
# Runs of a machine

A machine is a partial function `step` from a state and an action to the next state, so that a
run can be computed. `Reached` are the states at the end of runs whose steps all meet a condition;
`Reached.invariant` is the induction over them.
-/

namespace Lib.Machine

variable {σ α : Type*}

/-- Take these actions in order. -/
def run (step : σ → α → Option σ) : σ → List α → Option σ
  | s, [] => some s
  | s, a :: rest => step s a >>= fun s' => run step s' rest

theorem run_concat (step : σ → α → Option σ) (s : σ) (actions : List α) (a : α) :
    run step s (actions ++ [a]) = run step s actions >>= fun s' => step s' a := by
  induction actions generalizing s with
  | nil =>
      simp only [List.nil_append, run, Option.bind_eq_bind, Option.bind_some]
      cases step s a <;> rfl
  | cons b rest ih =>
      simp only [List.cons_append, run, Option.bind_eq_bind, Option.bind_assoc]
      exact congrArg _ (funext fun s' => ih s')

/-- The ends of runs from an initial state, each of whose steps meets the condition. -/
inductive Reached (step : σ → α → Option σ) (ok : σ → α → Prop) (init : σ → Prop) : σ → Prop where
  | start {s : σ} (h : init s) : Reached step ok init s
  | step {s s' : σ} {a : α} (h : Reached step ok init s) (hok : ok s a) (hstep : step s a = some s') :
      Reached step ok init s'

variable {step : σ → α → Option σ} {ok : σ → α → Prop} {init : σ → Prop}

/-- What holds initially and is kept by every step holds in every state reached. -/
theorem Reached.invariant {I : σ → Prop} {s : σ} (h : Reached step ok init s)
    (hinit : ∀ s, init s → I s)
    (hstep : ∀ s a s', I s → ok s a → step s a = some s' → I s') : I s := by
  induction h with
  | start h => exact hinit _ h
  | step _ hok hs ih => exact hstep _ _ _ ih hok hs

/-- The steps of this run meet the condition, as far as it goes. -/
def Along (step : σ → α → Option σ) (ok : σ → α → Prop) : σ → List α → Prop
  | _, [] => True
  | s, a :: rest => ok s a ∧ match step s a with
      | some s' => Along step ok s' rest
      | none => True

instance decidableAlong [∀ s a, Decidable (ok s a)] :
    ∀ s actions, Decidable (Along step ok s actions)
  | _, [] => inferInstanceAs (Decidable True)
  | s, a :: rest => match h : step s a with
      | some s' =>
          have := decidableAlong s' rest
          decidable_of_iff (ok s a ∧ Along step ok s' rest) (by rw [Along, h])
      | none => decidable_of_iff (ok s a) (by rw [Along, h, and_true])

/-- A condition that these actions meet in every state. -/
theorem along_of_mem {s : σ} {actions : List α} (h : ∀ a ∈ actions, ∀ s, ok s a) :
    Along step ok s actions := by
  induction actions generalizing s with
  | nil => trivial
  | cons a rest ih =>
      refine ⟨h a List.mem_cons_self s, ?_⟩
      cases step s a with
      | none => trivial
      | some s' => exact ih fun b hb => h b (List.mem_cons_of_mem a hb)

/-- A condition on the actions alone. -/
theorem along_of_forall {ok : α → Prop} {s : σ} {actions : List α} (h : ∀ a ∈ actions, ok a) :
    Along step (fun _ a => ok a) s actions :=
  along_of_mem fun a ha _ => h a ha

/-- The property holds in every state of this run, as far as it goes. -/
def Always (step : σ → α → Option σ) (P : σ → Prop) : σ → List α → Prop
  | s, [] => P s
  | s, a :: rest => P s ∧ match step s a with
      | some s' => Always step P s' rest
      | none => True

theorem Always.head {P : σ → Prop} {s : σ} {actions : List α} (h : Always step P s actions) : P s := by
  cases actions with
  | nil => exact h
  | cons a rest => exact h.1

/-- What holds throughout a run holds throughout the rest of it. -/
theorem Always.rest {P : σ → Prop} {s s' : σ} {first rest : List α}
    (h : Always step P s (first ++ rest)) (hrun : run step s first = some s') :
    Always step P s' rest := by
  induction first generalizing s with
  | nil =>
      cases hrun
      exact h
  | cons a first ih =>
      obtain ⟨next, hstep, hnext⟩ := Option.bind_eq_some_iff.mp hrun
      rw [List.cons_append, Always, hstep] at h
      exact ih h.2 hnext

/-- What holds throughout a run holds at its end. -/
theorem Always.last {P : σ → Prop} {s s' : σ} {actions : List α} (h : Always step P s actions)
    (hrun : run step s actions = some s') : P s' := by
  rw [← List.append_nil actions] at h
  exact h.rest hrun

/-- A run that does not meet the condition comes to a step that does not. -/
theorem exists_of_not_along {s : σ} {actions : List α} (h : ¬Along step ok s actions) :
    ∃ first a rest s', actions = first ++ a :: rest ∧ run step s first = some s' ∧ ¬ok s' a := by
  induction actions generalizing s with
  | nil => exact absurd trivial h
  | cons a rest ih =>
      by_cases hok : ok s a
      · cases hstep : step s a with
        | none => exact absurd ⟨hok, by rw [hstep]; trivial⟩ h
        | some next =>
            have hrest : ¬Along step ok next rest := fun halong => h ⟨hok, by rw [hstep]; exact halong⟩
            obtain ⟨first, b, last, s', rfl, hrun, hnot⟩ := ih hrest
            refine ⟨a :: first, b, last, s', rfl, ?_, hnot⟩
            rw [run, hstep]
            exact hrun
      · exact ⟨[], a, rest, s, rfl, rfl, hok⟩

/-- What every step under the condition keeps holds throughout. -/
theorem Along.always {I : σ → Prop} {s : σ} {actions : List α}
    (hkeep : ∀ s a s', I s → ok s a → step s a = some s' → I s') (hI : I s)
    (h : Along step ok s actions) : Always step I s actions := by
  induction actions generalizing s with
  | nil => exact hI
  | cons a rest ih =>
      refine ⟨hI, ?_⟩
      cases hstep : step s a with
      | none => trivial
      | some s' =>
          rw [Along, hstep] at h
          exact ih (hkeep s a s' hI h.1 hstep) h.2

theorem Always.mono {P Q : σ → Prop} {s : σ} {actions : List α} (himp : ∀ s, P s → Q s)
    (h : Always step P s actions) : Always step Q s actions := by
  induction actions generalizing s with
  | nil => exact himp s h
  | cons a rest ih =>
      refine ⟨himp s h.1, ?_⟩
      cases hstep : step s a with
      | none => trivial
      | some s' =>
          rw [Always, hstep] at h
          exact ih h.2

/-- The step after a part of the run meets the condition. -/
theorem Along.next {s s' : σ} {first rest : List α} {a : α}
    (h : Along step ok s (first ++ a :: rest)) (hrun : Machine.run step s first = some s') : ok s' a := by
  induction first generalizing s with
  | nil =>
      cases hrun
      exact h.1
  | cons b first ih =>
      obtain ⟨next, hstep, hnext⟩ := Option.bind_eq_some_iff.mp hrun
      rw [List.cons_append, Along, hstep] at h
      exact ih h.2 hnext

/-- The two parts of a run. -/
theorem Along.append {s : σ} {first rest : List α} (h : Along step ok s (first ++ rest)) :
    Along step ok s first ∧ ∀ s', Machine.run step s first = some s' → Along step ok s' rest := by
  induction first generalizing s with
  | nil =>
      refine ⟨trivial, fun s' hrun => ?_⟩
      cases hrun
      exact h
  | cons b first ih =>
      rw [List.cons_append, Along] at h
      rw [Along, Machine.run]
      cases hstep : step s b with
      | none => exact ⟨⟨h.1, trivial⟩, fun s' hrun => by cases hrun⟩
      | some next =>
          rw [hstep] at h
          obtain ⟨hfirst, hrest⟩ := ih h.2
          exact ⟨⟨h.1, hfirst⟩, hrest⟩

/-- Conditions that agree on the states of a run. -/
theorem along_congr {ok' : σ → α → Prop} {I : σ → Prop} {s : σ} {actions : List α}
    (hkeep : ∀ s a s', I s → step s a = some s' → I s')
    (hiff : ∀ s a, I s → (ok s a ↔ ok' s a)) (hI : I s) :
    Along step ok s actions ↔ Along step ok' s actions := by
  induction actions generalizing s with
  | nil => exact Iff.rfl
  | cons a rest ih =>
      rw [Along, Along, hiff s a hI]
      cases hstep : step s a with
      | none => exact Iff.rfl
      | some s' => exact and_congr_right fun _ => ih (hkeep s a s' hI hstep)

/-- A machine that another one simulates step by step. -/
theorem along_map {τ β : Type*} {step' : τ → β → Option τ} {ok' : τ → β → Prop} {f : σ → τ} {g : α → β}
    {s : σ} {actions : List α} (hstep : ∀ s a, (step s a).map f = step' (f s) (g a))
    (hok : ∀ s, ∀ a ∈ actions, ok s a ↔ ok' (f s) (g a)) :
    Along step ok s actions ↔ Along step' ok' (f s) (actions.map g) := by
  induction actions generalizing s with
  | nil => exact Iff.rfl
  | cons a rest ih =>
      have hnext := hstep s a
      rw [List.map_cons, Along, Along, hok s a List.mem_cons_self, ← hnext]
      cases step s a with
      | none => exact Iff.rfl
      | some s' => exact and_congr_right fun _ => ih fun s b hb => hok s b (List.mem_cons_of_mem a hb)

/-- Where a step keeps a property exactly under a condition, a run has it throughout exactly when
all its steps meet the condition. -/
theorem always_iff_along {I P : σ → Prop} {s : σ} {actions : List α}
    (hkeep : ∀ s a s', I s → P s → step s a = some s' → P s' → I s')
    (hiff : ∀ s a s', I s → P s → step s a = some s' → (P s' ↔ ok s a)) (hI : I s) (hP : P s) :
    Always step P s actions ↔
      Along step (fun s a => (step s a).isSome = true → ok s a) s actions := by
  induction actions generalizing s with
  | nil => exact iff_of_true hP trivial
  | cons a rest ih =>
      rw [Always, Along]
      cases hstep : step s a with
      | none => simp [hP]
      | some s' =>
          have hone := hiff s a s' hI hP hstep
          simp only [Option.isSome_some, forall_const, ← hone]
          constructor
          · rintro ⟨-, hrest⟩
            have hI' := hkeep s a s' hI hP hstep hrest.head
            exact ⟨hrest.head, (ih hI' hrest.head).mp hrest⟩
          · rintro ⟨hP', hrest⟩
            exact ⟨hP, (ih (hkeep s a s' hI hP hstep hP') hP').mpr hrest⟩

/-- What holds of the actions that have been taken and the state that they have led to. -/
theorem run_invariant {I : List α → σ → Prop} {s s' : σ} {actions : List α} (hstart : I [] s)
    (hstep : ∀ past s a s', I past s → step s a = some s' → I (past ++ [a]) s')
    (hrun : run step s actions = some s') : I actions s' := by
  induction actions using List.reverseRecOn generalizing s' with
  | nil =>
      cases hrun
      exact hstart
  | append_singleton past a ih =>
      rw [run_concat] at hrun
      obtain ⟨mid, hpast, hlast⟩ := Option.bind_eq_some_iff.mp hrun
      exact hstep past mid a s' (ih hpast) hlast

/-- A run whose steps meet the condition reaches its end. -/
theorem Reached.run {s s' : σ} {actions : List α} (h : Reached step ok init s)
    (halong : Along step ok s actions) (hrun : Machine.run step s actions = some s') :
    Reached step ok init s' := by
  induction actions generalizing s with
  | nil =>
      cases hrun
      exact h
  | cons a rest ih =>
      obtain ⟨next, hstep, hrest⟩ := Option.bind_eq_some_iff.mp hrun
      rw [Along, hstep] at halong
      exact ih (.step h halong.1 hstep) halong.2 hrest

/-- A weaker condition on the steps. -/
theorem Reached.mono {ok' : σ → α → Prop} {s : σ} (h : Reached step ok init s)
    (himp : ∀ s a, ok s a → ok' s a) : Reached step ok' init s := by
  induction h with
  | start h => exact .start h
  | step _ hok hs ih => exact .step ih (himp _ _ hok) hs

/-- A run whose end has been computed and passes a test. -/
theorem exists_run {P : σ → Prop} [DecidablePred P] {s : σ} {actions : List α}
    (h : ((run step s actions).any fun s' => decide (P s')) = true) :
    ∃ s', run step s actions = some s' ∧ P s' := by
  obtain ⟨s', hrun, hs'⟩ := (Option.any_eq_true _ _).mp h
  exact ⟨s', hrun, of_decide_eq_true hs'⟩

end Lib.Machine
