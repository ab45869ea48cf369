import Robotd.Daemon.Vigil
import Robotd.Host.Masters

/-!
# Monitors and their reloads

All processes of a host keep `vigil`, a process of the loops has left its first phase, and the child
of a monitor has it for a parent until it is reaped. `sound_step` keeps all this.
-/

namespace Robotd

open Lib Lib.CLib
open Lib.Program (Protocol Conforms)

/-- The protocol `vigil`. -/
def Discipline.vigil : Discipline where
  protocol _ := Robotd.vigil
  start _ := .outside
  rests _ := Vigil.Rests
  command := vigilant_main
  other _ := ⟨exitSuccess, rfl⟩
  resume _ _ _ _ := vigilant_resume
  expects _ _ _ h := h.1

/-- Where a process stands with a reload. -/
def Process.vigil (p : Process) : Vigil := p.past.foldl Vigil.after .outside

theorem vigil_snoc {p p' : Process} {e : Event} (h : p'.past = p.past ++ [e]) :
    p'.vigil = p.vigil.after e := by
  rw [Process.vigil, h, List.foldl_append]
  rfl

theorem Process.Same.vigil {p p' : Process} (h : p.Same p') : p'.vigil = p.vigil := by
  rw [Process.vigil, Process.vigil, h.past]

theorem vigil_allows {p : Process} {c : Call} (h : p.Obeys .vigil) (hnext : p.next = some c) :
    p.vigil.allows c := by
  unfold Process.Obeys at h
  unfold Process.next at hnext
  cases hcode : p.code with
  | ret next =>
      rw [hcode] at hnext
      cases hnext
  | call c' next =>
      rw [hcode] at h hnext
      cases hnext
      exact h.1

/-! ## The first phase is left by `sigprocmask` -/

theorem not_outside_after {v : Vigil} (h : v ≠ .outside) (e : Event) : v.after e ≠ .outside := by
  intro hafter
  unfold Vigil.after at hafter
  split at hafter <;> first | exact h hafter | cases hafter

theorem not_outside_of_masks {signal : Signal} {e : Event} (h : masks signal e = true) (v : Vigil) :
    v.after e ≠ .outside := by
  obtain ⟨c, r⟩ := e
  cases c with
  | sigprocmask set =>
      intro hafter
      cases v <;> cases hafter
  | _ => cases h

/-- A process that has blocked a signal is in one of the loops. -/
theorem not_outside_of_blocks {p : Process} {signal : Signal} (h : p.blocks signal = true) :
    p.vigil ≠ .outside := by
  have hrun : ∀ (past : List Event) (v : Vigil), v ≠ .outside ∨ past.any (masks signal) = true →
      past.foldl Vigil.after v ≠ .outside := by
    intro past
    induction past with
    | nil => exact fun v hv => hv.resolve_right Bool.false_ne_true
    | cons e past ih =>
        intro v hv
        refine ih (v.after e) ?_
        rcases hv with hv | hany
        · exact .inl (not_outside_after hv e)
        · rw [List.any_cons, Bool.or_eq_true] at hany
          exact hany.imp_left fun hmasks => not_outside_of_masks hmasks v
  exact hrun p.past .outside (.inr h)

/-! ## The child of a monitor -/

/-- A monitor has the child that it had, and does not reap it, or it has forked it. -/
theorem Life.heir_of_moves {option : String} {φ : Life} {e : Event} {watch' : Watch} {child : Nat}
    (h : Moves option φ e (.monitoring watch')) (hchild : watch'.children = [child]) :
    (∃ watch, φ = .monitoring watch ∧ watch.children = [child] ∧ e.1 ≠ .wait) ∨
      e = ⟨.fork, .parent child⟩ := by
  cases h with
  | rest hφ hc r => exact absurd hφ id
  | fails hφ hc r =>
      rcases hφ with hφ | hφ <;> cases hφ
  | watch r => cases hchild
  | monitor hmoves =>
      rename_i watch
      cases hmoves with
      | background hcalm hc r =>
          refine .inl ⟨watch', rfl, hchild, ?_⟩
          rintro rfl
          cases hc
      | forked hpid =>
          obtain rfl := List.head_eq_of_cons_eq hchild
          exact .inr rfl
      | signal hwatch signal =>
          refine .inl ⟨watch, rfl, ?_, nofun⟩
          rcases hwatch with rfl | rfl <;> exact hchild
      | forward r | stop hleaving r => exact .inl ⟨_, rfl, hchild, nofun⟩
      | unlink hleaving r => exact .inl ⟨watch, rfl, hchild, nofun⟩
      | reap hstatus | reapLast | child | masterSignal signal => cases hchild

namespace Host

variable {s s' : Host}

/-- The child of a monitor has it for a parent. -/
def Heirs (s : Host) : Prop := ∀ m p watch child, s.process m = some p →
  p.phase = .monitoring watch → watch.children = [child] → s.parentOf child = some m

/-- A fork gives its caller a child. -/
theorem heir_of_fork {m : Nat} {choice : Choice} {p : Process}
    (hstep : s.step (.run m choice) = some s') (hp : s.process m = some p)
    (hnext : p.next = some .fork) : ∃ child p', s'.process m = some p' ∧
      p'.phase = p.phase.after ⟨.fork, .parent child⟩ ∧ s'.parentOf child = some m := by
  cases steps_of_step hstep with
  | call hp' hcode hanswer =>
      obtain rfl := Option.some.inj (hp'.symm.trans hp)
      obtain rfl := Option.some.inj ((next_of_code hcode).symm.trans hnext)
      cases hanswer
  | fork hp' hcode hfree =>
      rename_i child r next
      obtain ⟨p', hprocess, hphase⟩ := fork_of_step hstep hp hnext
      refine ⟨child, p', hprocess, hphase, ?_⟩
      rw [parentOf_add, if_pos rfl]
      rfl

theorem heirs_step (hlawful : s.Lawful) (h : s.Heirs) {a : Action} (hstep : s.step a = some s') :
    s'.Heirs := by
  intro m p' watch' child hp' hphase' hchild
  have hlive : (s'.process m).isSome = true := by rw [hp']; rfl
  cases course_of_step hlawful hstep hp' with
  | kept p hp hphase hoption hother =>
      rcases parentOf_stays hstep (h m p watch' child hp (hphase ▸ hphase') hchild) hlive with
        hstays | ⟨choice, r, ha, -⟩
      · exact hstays
      · exact absurd ha (hother choice)
  | spawned cwd argv ha hfree hphase hoption | other ha hfree hphase hoption =>
      rw [hphase] at hphase'
      cases hphase'
  | acted choice p e ha hp hnext hmoves hoption hanswers hfs =>
      subst ha
      rw [hphase'] at hmoves
      rcases Life.heir_of_moves hmoves hchild with ⟨watch, hphase, hbefore, hwait⟩ | rfl
      · -- the child has been there, and is lost by a `wait` only
        rcases parentOf_stays hstep (h m p watch child hp hphase hbefore) hlive with
          hstays | ⟨choice', r, -, hr, hreaps⟩
        · exact hstays
        · obtain rfl : p = r := Option.some.inj (hp.symm.trans hr)
          exact absurd (Option.some.inj (hnext.symm.trans hreaps)) hwait
      · obtain ⟨forked, q, hq, hforked, hparent⟩ := heir_of_fork hstep hp hnext
        obtain rfl : q = p' := Option.some.inj (hq.symm.trans hp')
        rcases Life.moves_parent hmoves with ⟨-, hparted⟩ | ⟨hforking, hwaiting⟩
        · cases hparted
        · rw [hforking, hphase', hwaiting] at hforked
          cases hforked
          exact hparent
  | born m p ha hfree hp hnext hparent hoption hphases hfs =>
      rcases hphases with ⟨-, hborn⟩ | ⟨-, hborn⟩ <;> rw [hborn] at hphase' <;> cases hphase'
      cases hchild

/-- A monitor sends signals to its child. -/
theorem target_of_kill (hlawful : s.Lawful) (h : s.Heirs) {pid : Nat} {p : Process}
    (hp : s.process pid = some p) (hinside : ¬p.phase.Outside) {target : Int} {signal : Signal}
    (hnext : p.next = some (.kill target signal)) : s.parentOf target.toNat = some pid := by
  have hallows := allows_of_next (hlawful.process pid p hp) hnext
  cases hphase : p.phase with
  | monitoring watch =>
      rw [hphase] at hallows
      obtain ⟨child, rfl, hwatch⟩ := hallows
      refine h pid p watch child hp hphase ?_
      rcases hwatch with ⟨-, rfl⟩ | ⟨-, last, rfl, -⟩ <;> rfl
  | _ =>
      rw [hphase] at hinside
      exact absurd trivial hinside

/-- What every step keeps. -/
structure Sound (s : Host) : Prop where
  masked : s.Masked
  vigilant : ∀ pid p, s.process pid = some p → p.Obeys .vigil
  heirs : s.Heirs

theorem sound_step (h : s.Sound) {a : Action} (hstep : s.step a = some s') : s'.Sound where
  masked := masked_step h.masked hstep
  vigilant _ _ := obeys_of_step h.vigilant hstep
  heirs := heirs_step h.masked.lawful h.heirs hstep

theorem sound_idle (h : s.Idle) : s.Sound := by
  have hnone : ∀ {pid p}, s.process pid ≠ some p := by
    intro pid p hp
    rw [h pid] at hp
    cases hp
  exact ⟨masked_idle h, fun _ _ hp => absurd hp hnone, fun _ _ _ _ hp => absurd hp hnone⟩

/-- A monitor in its loop has blocked its signals. -/
theorem not_outside_of_loops (h : s.Sound) {pid : Nat} {p : Process} (hp : s.process pid = some p)
    (hloops : p.phase.Loops) : p.vigil ≠ .outside := by
  have hblocks : p.blocks .sighup = true := (h.masked.blocks pid p hp .sighup).mpr hloops.inside
  exact not_outside_of_blocks hblocks

end Host

end Robotd
