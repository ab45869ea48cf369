import Robotd.Daemon.Pace
import Robotd.Host.Exposure

/-!
# The budgets of the processes of a host

All processes of a host keep `pace`. So a process that has come to the loops is at a fault only
after an exception, and it gets there by a load or by the services that throw.
-/

namespace Robotd

open Lib Lib.CLib
open Lib.Program (Protocol Conforms)

theorem pace_exits (_ : String) : Pace.Rests ⟨.command, commandEffort⟩ (.exit exitSuccess) :=
  ⟨exitSuccess, rfl⟩

/-- The protocol `pace`. -/
def Discipline.pace : Discipline where
  protocol _ := Robotd.pace
  start _ := ⟨.command, commandEffort⟩
  rests _ := Pace.Rests
  command := paced_command
  other := pace_exits
  resume _ _ _ _ := paced_resume
  expects _ _ _ h := h.1

/-- Where a process stands, and what is left of its budget. -/
def Process.pace (p : Process) : Pace := p.past.foldl Pace.after ⟨.command, commandEffort⟩

theorem pace_snoc {p p' : Process} {e : Event} (h : p'.past = p.past ++ [e]) :
    p'.pace = p.pace.after e := by
  rw [Process.pace, h, List.foldl_append]
  rfl

theorem Process.Same.pace {p p' : Process} (h : p.Same p') : p'.pace = p.pace := by
  rw [Process.pace, Process.pace, h.past]

theorem pace_allows {p : Process} {c : Call} (h : p.Obeys .pace) (hnext : p.next = some c) :
    p.pace.allows c := by
  unfold Process.Obeys at h
  unfold Process.next at hnext
  cases hcode : p.code with
  | ret next =>
      rw [hcode] at hnext
      cases hnext
  | call c' next =>
      rw [hcode] at h hnext
      cases hnext
      exact h.1

/-- An exception that nobody catches has been thrown in the process. -/
def Process.Broken (p : Process) : Prop := p.pace.station = .broken

/-! ## How far the process has come -/

theorem Watch.Loops.not_leaving {watch : Watch} (h : watch.Loops) : ¬watch.Leaving := by
  intro hleaving
  cases watch with
  | got pid signal =>
      rcases h with rfl | rfl
      · exact hleaving.1 rfl
      · exact hleaving.2 rfl
  | ending => exact h
  | _ => exact hleaving

/-- The phase that belongs to a station. After an exception it says nothing. -/
def Pace.Agrees (φ : Life) (π : Pace) : Prop := match π.station with
  | .command => φ.Outside
  | .watching => ∃ watch, φ = .monitoring watch ∧ watch.Loops
  | .called | .leaving => ∃ watch, φ = .monitoring watch ∧ ¬watch.Loops ∧ watch ≠ .master
  | .serving | .stopping => φ = .monitoring .master
  | .broken => True

/-- A master serves, stops or is broken. -/
theorem Pace.Agrees.of_master {π : Pace} (h : π.Agrees (.monitoring .master)) :
    π.station = .serving ∨ π.station = .stopping ∨ π.station = .broken := by
  unfold Pace.Agrees at h
  cases hstation : π.station with
  | serving => exact .inl rfl
  | stopping => exact .inr (.inl rfl)
  | broken => exact .inr (.inr rfl)
  | command =>
      rw [hstation] at h
      exact absurd h id
  | watching =>
      rw [hstation] at h
      obtain ⟨watch, heq, hloops⟩ := h
      cases heq
      exact absurd hloops id
  | called | leaving =>
      rw [hstation] at h
      obtain ⟨watch, heq, -, hmaster⟩ := h
      cases heq
      exact absurd rfl hmaster

section Agrees

variable {option : String} {φ φ' : Life} {π π' : Pace} {e : Event} {n m : Nat}

/-- A process of the loops stays in them. -/
theorem monitoring_of_moves {watch : Watch} (h : Life.Moves option (.monitoring watch) e φ') :
    ∃ watch', φ' = .monitoring watch' ∧ Robotd.Moves watch e watch' := by
  cases h with
  | rest hφ hc r => exact absurd hφ id
  | fails hφ hc r => rcases hφ with hφ | hφ <;> cases hφ
  | start hopens r => exact absurd hopens id
  | monitor hmoves => exact ⟨_, rfl, hmoves⟩

theorem agrees_spend {station : Station} (h : Life.Moves option φ e φ')
    (hplain : Pace.Plain station e) (hagrees : Pace.Agrees φ ⟨station, n⟩) :
    Pace.Agrees φ' ⟨station, m⟩ := by
  cases station with
  | command =>
      have hout : φ.Outside := hagrees
      show φ'.Outside
      cases h with
      | rest hφ hc r => exact hφ
      | fails hφ hc r => rcases hφ with rfl | rfl <;> trivial
      | watch r => exact absurd rfl (hplain.mask rfl _)
      | monitor hmoves => exact absurd hout id
      | _ => trivial
  | watching =>
      obtain ⟨watch, rfl, hloops⟩ := hagrees
      obtain ⟨watch', rfl, hmoves⟩ := monitoring_of_moves h
      cases hmoves with
      | background hcalm hc r | forward r => exact ⟨_, rfl, hloops⟩
      | forked hpid => exact ⟨_, rfl, trivial⟩
      | child => exact absurd rfl hplain.fork
      | signal hwatch signal | masterSignal signal => exact absurd rfl (hplain.signal _)
      | reapLast | reap hstatus => exact absurd rfl hplain.wait
      | stop hleaving r | unlink hleaving r => exact absurd hleaving hloops.not_leaving
  | called | leaving =>
      obtain ⟨watch, rfl, hloops, hmaster⟩ := hagrees
      obtain ⟨watch', rfl, hmoves⟩ := monitoring_of_moves h
      cases hmoves with
      | background hcalm hc r | stop hleaving r => exact ⟨_, rfl, hloops, hmaster⟩
      | forked hpid | child => exact absurd trivial hloops
      | forward r => exact absurd (.inl rfl) hloops
      | signal hwatch signal | masterSignal signal => exact absurd rfl (hplain.signal _)
      | reapLast | reap hstatus => exact absurd rfl hplain.wait
      | unlink hleaving r => exact ⟨_, rfl, id, nofun⟩
  | serving | stopping =>
      obtain rfl : φ = .monitoring .master := hagrees
      obtain ⟨watch', rfl, hmoves⟩ := monitoring_of_moves h
      cases hmoves with
      | background hcalm hc r | masterSignal signal => rfl
      | signal hwatch signal => rcases hwatch with hwatch | hwatch <;> cases hwatch
      | unlink hleaving r => exact absurd hleaving id
  | broken => trivial

/-- What a reaped child says to the monitor. -/
theorem watch_of_wait {watch watch' : Watch} {status : WaitStatus}
    (h : Robotd.Moves watch ⟨.wait, .ok status.raw⟩ watch') :
    status = .exited 2 ∧ watch' = .ending ∨ status ≠ .exited 2 ∧ watch' = .forking := by
  generalize hraw : status.raw = raw at h
  cases h with
  | background hcalm hc r => cases hc
  | reapLast => exact .inl ⟨raw_eq_terminate.mp hraw, rfl⟩
  | reap hstatus =>
      refine .inr ⟨?_, rfl⟩
      rintro rfl
      exact hstatus (raw_eq_terminate.mp hraw.symm)

theorem agrees_moves (h : Life.Moves option φ e φ') (hpace : Pace.Moves π e π')
    (hagrees : Pace.Agrees φ π) : Pace.Agrees φ' π' := by
  cases hpace with
  | spend hprice hpos hx hplain => exact agrees_spend h hplain hagrees
  | loadThrows | servicesThrow => trivial
  | daemon =>
      have hout : φ.Outside := hagrees
      show φ'.Outside
      rcases Life.moves_child h with ⟨-, rfl⟩ | ⟨rfl, -⟩
      · trivial
      · exact absurd hout id
  | mask hn r =>
      have hout : φ.Outside := hagrees
      cases h with
      | rest hφ hc r => rcases hc with hc | ⟨what, hc⟩ <;> cases hc
      | fails hφ hc r => cases hc
      | watch r => exact ⟨_, rfl, trivial⟩
      | monitor hmoves => exact absurd hout id
  | master =>
      obtain ⟨watch, rfl, hloops⟩ := hagrees
      rcases Life.moves_child h with ⟨hstarting, -⟩ | ⟨-, rfl⟩
      · cases hstarting
      · rfl
  | hangup | child | call hhup hchld =>
      obtain ⟨watch, rfl, hloops⟩ := hagrees
      obtain ⟨watch', rfl, hmoves⟩ := monitoring_of_moves h
      cases hmoves with
      | background hcalm hc r => cases hc
      | masterSignal signal => exact absurd hloops id
      | signal hwatch signal =>
          first
            | exact ⟨_, rfl, .inl rfl⟩
            | exact ⟨_, rfl, .inr rfl⟩
            | exact ⟨_, rfl, not_or.mpr ⟨hhup, hchld⟩, nofun⟩
  | reapLast hn =>
      obtain ⟨watch, rfl, hloops⟩ := hagrees
      obtain ⟨watch', rfl, hmoves⟩ := monitoring_of_moves h
      rcases watch_of_wait hmoves with ⟨-, rfl⟩ | ⟨hstatus, -⟩
      · exact ⟨_, rfl, id, nofun⟩
      · exact absurd rfl hstatus
  | reap hn hstatus =>
      obtain ⟨watch, rfl, hloops⟩ := hagrees
      obtain ⟨watch', rfl, hmoves⟩ := monitoring_of_moves h
      rcases watch_of_wait hmoves with ⟨hlast, -⟩ | ⟨-, rfl⟩
      · exact absurd hlast hstatus
      · exact ⟨_, rfl, trivial⟩
  | tell hn r =>
      obtain ⟨watch, rfl, hloops, hmaster⟩ := hagrees
      obtain ⟨watch', rfl, hmoves⟩ := monitoring_of_moves h
      cases hmoves with
      | background hcalm hc r => cases hc
      | forward r | stop hleaving r => exact ⟨_, rfl, hloops, hmaster⟩
  | reload | stop hhup =>
      obtain rfl : φ = .monitoring .master := hagrees
      obtain ⟨watch', rfl, hmoves⟩ := monitoring_of_moves h
      cases hmoves with
      | background hcalm hc r => cases hc
      | masterSignal signal => rfl
      | signal hwatch signal => rcases hwatch with hwatch | hwatch <;> cases hwatch

end Agrees

/-! ## The processes of a host -/

/-- The load or the services throw. -/
def Choice.throws : Choice → Bool
  | .load .thrown | .services .thrown => true
  | _ => false

namespace Host

variable {s s' : Host} {a : Action}

/-- All processes keep to their budgets, and block all signals in the loops and none before. -/
structure Budgeted (s : Host) : Prop where
  masked : s.Masked
  paced : ∀ pid p, s.process pid = some p → p.Obeys .pace
  agrees : ∀ pid p, s.process pid = some p → p.pace.Agrees p.phase

theorem budgeted_step (h : s.Budgeted) (hstep : s.step a = some s') : s'.Budgeted := by
  refine ⟨masked_step h.masked hstep, fun _ _ => obeys_of_step h.paced hstep, fun pid p' hp' => ?_⟩
  have hacted : ∀ {q : Nat} {p : Process} {e : Event}, s.process q = some p → Acted p e p' →
      Life.Expects e → p'.pace.Agrees p'.phase := by
    intro q p e hp hacted hexpects
    obtain ⟨next, hcode, -⟩ := hacted.code
    have hmoves := moves_of_lawful (h.masked.lawful.process q p hp) hcode hexpects
    have hallows := pace_allows (h.paced q p hp) (next_of_code hcode)
    rw [phase_snoc hacted.past, pace_snoc hacted.past]
    exact agrees_moves hmoves (pace_moves hallows hexpects.1) (h.agrees q p hp)
  cases fate_of_step hstep hp' with
  | kept p hp hsame hother =>
      rw [hsame.pace, hsame.phase]
      exact h.agrees pid p hp
  | spawned cwd argv ha hfree heq | other ha hfree heq =>
      subst heq
      exact trivial
  | acted choice p e ha hp hact hanswers hfs => exact hacted hp hact (expects_of_answers hanswers)
  | born parent p ha hfree hp hparent hact hfs => exact hacted hp hact ⟨.inl rfl, trivial⟩

theorem budgeted_idle (h : s.Idle) : s.Budgeted := by
  have hnone : ∀ {pid p}, s.process pid ≠ some p := by
    intro pid p hp
    rw [h pid] at hp
    cases hp
  exact ⟨masked_idle h, fun _ _ hp => absurd hp hnone, fun _ _ hp => absurd hp hnone⟩

/-- In the loops only an exception comes to a fault. -/
theorem broken_of_fault (h : s.Budgeted) {pid : Nat} {p : Process} (hp : s.process pid = some p)
    (hinside : ¬p.phase.Outside) {reason : Fault} (hnext : p.next = some (.fault reason)) :
    p.Broken := by
  obtain ⟨x, hprice, -⟩ := pace_allows (h.paced pid p hp) hnext
  have hagrees := h.agrees pid p hp
  unfold Pace.Agrees at hagrees
  unfold Process.Broken
  cases hstation : p.pace.station with
  | broken => rfl
  | command =>
      rw [hstation] at hagrees
      exact absurd hagrees hinside
  | _ =>
      rw [hstation] at hprice
      cases hprice

/-- What has been answered in a step. -/
theorem answer_of_run {q : Nat} {choice : Choice} {p p' : Process} {e : Event}
    (hstep : s.step (.run q choice) = some s') (hp : s.process q = some p)
    (hp' : s'.process q = some p') (hpast : p'.past = p.past ++ [e]) (hfork : e.1 ≠ .fork) :
    ∃ t, s.answer q choice e.1 = some (e.2, t) := by
  have hlast : ∀ e' : Event, p'.past = p.past ++ [e'] → e' = e := fun _ h =>
    List.head_eq_of_cons_eq (List.append_cancel_left (h.symm.trans hpast))
  cases steps_of_step hstep with
  | call hr hcode hanswer =>
      rename_i r c next answer t
      obtain rfl : p = r := Option.some.inj (hp.symm.trans hr)
      rcases process_update hp' with ⟨p₁, -, hp₁, rfl⟩ | ⟨hne, -⟩
      · obtain ⟨p₀, hp₀, hsame⟩ := (answered_of_answer hanswer).process q p₁ hp₁
        obtain rfl : p = p₀ := Option.some.inj (hp.symm.trans hp₀)
        obtain rfl := hlast ⟨c, answer⟩ (congrArg (· ++ [(⟨c, answer⟩ : Event)]) hsame.past)
        exact ⟨t, hanswer⟩
      · exact absurd rfl hne
  | fork hr hcode hfree =>
      rename_i child r next
      obtain rfl : p = r := Option.some.inj (hp.symm.trans hr)
      rcases process_add hp' with ⟨rfl, -⟩ | ⟨-, hold⟩
      · rw [hfree.2.1] at hp
        cases hp
      · rcases process_update hold with ⟨p₁, -, hp₁, rfl⟩ | ⟨hne, -⟩
        · obtain rfl : p = p₁ := Option.some.inj (hp.symm.trans hp₁)
          exact absurd (congrArg Sigma.fst (hlast ⟨.fork, .parent child⟩ rfl)).symm hfork
        · exact absurd rfl hne

/-- An exception is thrown by a load or by the services. -/
theorem broken_of_step (h : s.Budgeted) (hstep : s.step a = some s') {q : Nat} {p p' : Process}
    (hp : s.process q = some p) (hp' : s'.process q = some p') (hbroken : p'.Broken) :
    p.Broken ∨ ∃ choice, a = .run q choice ∧ choice.throws = true := by
  unfold Process.Broken at hbroken ⊢
  cases fate_of_step hstep hp' with
  | kept r hr hsame hother =>
      obtain rfl : p = r := Option.some.inj (hp.symm.trans hr)
      rw [hsame.pace] at hbroken
      exact .inl hbroken
  | spawned cwd argv ha hfree | other ha hfree | born parent r ha hfree =>
      rw [hfree.2.1] at hp
      cases hp
  | acted choice r e ha hr hacted hanswers hfs =>
      obtain rfl : p = r := Option.some.inj (hp.symm.trans hr)
      subst ha
      obtain ⟨next, hcode, -⟩ := hacted.code
      have hmoves := pace_moves (pace_allows (h.paced q p hp) (next_of_code hcode))
        (expects_of_answers hanswers).1
      rw [← pace_snoc hacted.past] at hmoves
      generalize p.pace = π at hmoves
      generalize p'.pace = π' at hmoves hbroken
      cases hmoves with
      | spend hprice hpos hx hplain => exact .inl hbroken
      | loadThrows =>
          obtain ⟨t, hanswer⟩ := answer_of_run hstep hp hp' hacted.past nofun
          cases choice with
          | load outcome =>
              obtain rfl : outcome = .thrown := congrArg Prod.fst (Option.some.inj hanswer)
              exact .inr ⟨_, rfl, rfl⟩
          | _ => cases hanswer
      | servicesThrow =>
          obtain ⟨t, hanswer⟩ := answer_of_run hstep hp hp' hacted.past nofun
          cases choice with
          | services outcome =>
              obtain rfl : outcome = .thrown := congrArg Prod.fst (Option.some.inj hanswer)
              exact .inr ⟨_, rfl, rfl⟩
          | _ => cases hanswer
      | _ => cases hbroken

end Host

end Robotd
