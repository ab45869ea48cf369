import Robotd.Host.Budget

/-!
# Masters and their monitors

A monitor that reaps its master knows that it is dead; one that gets SIGTERM only sends it on and
exits, and one whose load throws is aborted. `Orderly` forbids both as long as the master lives, and
`supervised` shows that a live master then has a live monitor in its loop, and that there is one
master at most. With `stop` and `load` after one another this fails: the master of the old monitor
may outlive it (`two_masters_after_stop`). So it does with a `reload` that throws.
-/

namespace Robotd

open Lib Lib.CLib

namespace Life

/-- The monitor is in its loop, and not on its way out. -/
def Loops : Life → Prop
  | monitoring watch => watch.Loops
  | _ => False

/-- The monitor is in its loop and has a child. -/
def Minds : Life → Prop
  | monitoring watch => watch.Loops ∧ watch.children ≠ []
  | _ => False

/-- What may be the parent of `child`: a process that has started a daemon, or a monitor whose only
child it is. -/
def Parent (child : Nat) : Life → Prop
  | parted => True
  | monitoring watch => watch.children = [child]
  | _ => False

instance (φ : Life) : Decidable φ.Loops := match φ with
  | monitoring watch => inferInstanceAs (Decidable watch.Loops)
  | arriving | found _ | numbered _ | stale | vacant | addressed _ | wordless | told | starting
    | parted | registering | created _ | signed _ _ | registered => isFalse id

theorem Minds.loops {φ : Life} (h : φ.Minds) : φ.Loops := by
  cases φ with
  | monitoring watch => exact h.1
  | _ => exact h

theorem Loops.inside {φ : Life} (h : φ.Loops) : ¬φ.Outside := by
  cases φ with
  | monitoring watch => exact id
  | _ => exact absurd h id

theorem Loops.watch {φ : Life} (h : φ.Loops) : ∃ watch, φ = .monitoring watch ∧ watch.Loops := by
  cases φ with
  | monitoring watch => exact ⟨watch, rfl, h⟩
  | _ => exact absurd h id

theorem Loops.minds {φ : Life} {child : Nat} (h : φ.Loops) (hparent : φ.Parent child) : φ.Minds := by
  cases φ with
  | monitoring watch =>
      have hchildren : watch.children = [child] := hparent
      exact ⟨h, by rw [hchildren]; exact List.cons_ne_nil _ _⟩
  | _ => exact h

/-- A monitor has one child at most. -/
theorem Parent.inj {φ : Life} {child child' : Nat} (hinside : ¬φ.Outside) (h : φ.Parent child)
    (h' : φ.Parent child') : child = child' := by
  cases φ with
  | monitoring watch =>
      have heq : [child] = [child'] := Eq.trans (Eq.symm h) h'
      exact List.head_eq_of_cons_eq heq
  | _ => exact absurd trivial hinside

/-! ## One call -/

variable {option : String} {φ φ' : Life} {e : Event}

/-- A parent keeps its child until it reaps it. -/
theorem parent_of_moves {child : Nat} (h : Moves option φ e φ') (hparent : φ.Parent child) :
    φ'.Parent child ∨ e.1 = .wait := by
  cases h with
  | rest hφ hc r => exact .inl hparent
  | fails hφ hc r => exact .inl hparent
  | start hopens r =>
      cases φ with
      | parted => exact absurd hopens id
      | monitoring watch => exact absurd hopens id
      | _ => exact absurd hparent id
  | monitor hmoves =>
      cases hmoves with
      | background hcalm hc r => exact .inl hparent
      | signal hwatch signal =>
          -- the child is that of both phases before it
          rcases hwatch with rfl | rfl <;> exact .inl hparent
      | forward r | stop hleaving r => exact .inl hparent
      | reap hstatus | reapLast => exact .inr rfl
      | unlink hleaving r => exact .inl hparent
      | _ => cases hparent
  | _ => exact absurd hparent id

/-- Only a monitor reaps. -/
theorem inside_of_wait (h : φ.allows option .wait) : ¬φ.Outside := by
  cases φ with
  | monitoring watch => exact id
  | arriving | stale | starting | registered =>
      rcases h with htalks | hother
      · cases htalks
      · cases hother
  | numbered text =>
      rcases h with htalks | hother | ⟨⟨path, hother⟩, -⟩
      · cases htalks
      · cases hother
      · cases hother
  | vacant | wordless | told =>
      rcases h with hrecords | ⟨path, hother⟩
      · exact absurd hrecords id
      · cases hother
  | addressed n =>
      rcases h with hrecords | ⟨signal, hother, -⟩
      · exact absurd hrecords id
      · cases hother
  | registering =>
      rcases h with htalks | ⟨what, hother⟩ | hother | hother | hother
      · cases htalks
      · cases hother
      · cases hother
      · cases hother
      · cases hother
  | parted => exact absurd h id
  | found f | created f | signed f n => cases h

/-- A monitor leaves its loop by a signal, or when it reaps its child. -/
theorem loops_of_moves (h : Moves option φ e φ') (hloops : φ.Loops) : φ'.Loops ∨ e.1 = .wait ∨
    (∃ signal, e = ⟨.sigwaitinfo monitorSignals, .ok signal⟩ ∧ signal ≠ .sighup ∧ signal ≠ .sigchld) ∨
    e = ⟨.fork, .child⟩ := by
  cases h with
  | rest hφ hc r => exact .inl hloops
  | fails hφ hc r => exact .inl hloops
  | start hopens r => exact absurd hopens.outside hloops.inside
  | monitor hmoves =>
      cases hmoves with
      | background hcalm hc r => exact .inl hloops
      | forked hpid => exact .inl trivial
      | child => exact .inr (.inr (.inr rfl))
      | signal hwatch signal =>
          by_cases hstays : signal = .sighup ∨ signal = .sigchld
          · exact .inl hstays
          · exact .inr (.inr (.inl ⟨signal, rfl, not_or.mp hstays⟩))
      | forward r => exact .inl hloops
      | reap hstatus | reapLast => exact .inr (.inl rfl)
      | stop hleaving r => exact absurd hleaving (Watch.Loops.not_leaving hloops)
      | unlink hleaving r => exact absurd hleaving (Watch.Loops.not_leaving hloops)
      | masterSignal signal => exact absurd hloops id
  | _ => exact absurd hloops id

/-- A monitor gets a child by `fork`. -/
theorem minds_of_moves (h : Moves option φ e φ') (hminds : φ'.Minds) :
    φ.Minds ∨ φ = monitoring .forking ∧ e.1 = .fork := by
  cases h with
  | rest hφ hc r => exact .inl hminds
  | fails hφ hc r => exact .inl hminds
  | monitor hmoves =>
      cases hmoves with
      | background hcalm hc r => exact .inl hminds
      | forked hpid => exact .inr ⟨rfl, rfl⟩
      | signal hwatch signal =>
          refine .inl ?_
          rcases hwatch with rfl | rfl
          · exact ⟨trivial, List.cons_ne_nil _ _⟩
          · exact ⟨.inl rfl, List.cons_ne_nil _ _⟩
      | forward r => exact .inl hminds
      | stop hleaving r => exact .inl hminds
      | reap hstatus => exact absurd rfl hminds.2
      | reapLast => exact absurd hminds.1 id
      | child => exact absurd hminds.1 id
      | masterSignal signal => exact absurd hminds.1 id
      | unlink hleaving r => exact absurd hminds.1 id
  | watch r => exact absurd rfl hminds.2
  | _ => exact absurd hminds id

theorem master_of_moves (h : Moves option φ e φ') (hmaster : φ' = monitoring .master) :
    φ = monitoring .master ∨ e = ⟨.fork, .child⟩ := by
  cases h with
  | rest hφ hc r => exact .inl hmaster
  | fails hφ hc r => exact .inl hmaster
  | monitor hmoves =>
      cases hmoves with
      | background hcalm hc r => exact .inl hmaster
      | child => exact .inr rfl
      | masterSignal signal => exact .inl rfl
      | _ => cases hmaster
  | _ => cases hmaster

/-- A master stays one. -/
theorem master_stays (h : Moves option (monitoring .master) e φ') : φ' = monitoring .master := by
  cases h with
  | rest hφ hc r => exact absurd hφ id
  | fails hφ hc r => rfl
  | start hopens r => exact absurd hopens id
  | monitor hmoves =>
      cases hmoves with
      | background hcalm hc r => rfl
      | masterSignal signal => rfl
      | signal hwatch signal => rcases hwatch with hwatch | hwatch <;> cases hwatch
      | unlink hleaving r => exact absurd hleaving id

/-- A parent that is in `monitor_proc` after a call was there before. -/
theorem inside_of_moves {child : Nat} (h : Moves option φ e φ') (hparent : φ.Parent child)
    (hinside : ¬φ'.Outside) : ¬φ.Outside := by
  cases h with
  | watch r => exact absurd hparent id
  | rest hφ hc r | fails hφ hc r => exact hinside
  | monitor hmoves => exact id
  | _ => exact absurd trivial hinside

end Life

/-- The signal that is taken. -/
def Choice.taken : Choice → Option Signal
  | .signal s => Option.some s
  | _ => Option.none

namespace Host

variable {s s' : Host} {a : Action}

/-- No live process has it for a parent. -/
def Childless (s : Host) (pid : Nat) : Prop :=
  ∀ q ∈ s.pids, ∀ p ∈ s.process q, p.parent ≠ some pid

/-- A process with a live child takes no signal but SIGHUP and SIGCHLD and makes no load that
throws, a monitor forks no master while another is in its loop, and only masters are killed. -/
def Orderly (s : Host) : Action → Prop
  | .run pid choice =>
      (∀ signal ∈ choice.taken, signal = .sighup ∨ signal = .sigchld ∨ s.Childless pid) ∧
        (choice.throws = true → s.Childless pid) ∧
        ∀ p ∈ s.process pid, p.phase = .monitoring .forking → p.next = some .fork →
          ∀ q ∈ s.pids, q ≠ pid → ∀ r ∈ s.process q, ¬r.phase.Loops
  | .crash pid _ => ∀ p ∈ s.process pid, p.phase = .monitoring .master
  | _ => True

/-- Every live master has a live monitor in its loop for a parent, and there is one at most. -/
structure Supervised (s : Host) : Prop where
  guarded : ∀ pid p, s.process pid = some p → p.phase = .monitoring .master →
    ∃ m q, p.parent = some m ∧ s.process m = some q ∧ q.phase.Loops
  one : ∀ pid p pid' p', s.process pid = some p → p.phase = .monitoring .master →
    s.process pid' = some p' → p'.phase = .monitoring .master → pid = pid'

/-- A live parent is one that may be, and that has no other child if it is a monitor. -/
structure Lineage (s : Host) : Prop where
  budgeted : s.Budgeted
  exclusive : s.Exclusive
  parents : ∀ child m, s.parentOf child = some m →
    m ≠ child ∧ ∃ p, s.process m = some p ∧ p.phase.Parent child

theorem Lineage.masked (h : s.Lineage) : s.Masked := h.budgeted.masked

/-- What every orderly step keeps. -/
structure Kin (s : Host) : Prop extends s.Lineage where
  guarded : ∀ pid p, s.process pid = some p → p.phase = .monitoring .master →
    ∃ m q, p.parent = some m ∧ s.process m = some q ∧ q.phase.Loops ∧ ¬q.Broken
  one : ∀ pid p pid' p', s.process pid = some p → p.phase.Minds →
    s.process pid' = some p' → p'.phase.Minds → pid = pid'

/-! ## Parents -/

/-- The forking process in a host whose processes keep the protocol. -/
theorem parent_of_fork (h : s.Lineage) {m child : Nat} {p : Process} (hfree : s.Free child)
    (hstep : s.step (.run m (.child child)) = some s') (hp : s.process m = some p)
    (hnext : p.next = some .fork) : ∃ p', s'.process m = some p' ∧ p'.phase.Parent child ∧
      (p.phase = .monitoring .forking → p'.phase.Loops) := by
  obtain ⟨p', hp', hphase⟩ := fork_of_step hstep hp hnext
  have hlawful := h.masked.lawful.process m p hp
  have hallows := allows_of_next hlawful hnext
  have hmoves : Life.Moves p.option p.phase ⟨.fork, .parent child⟩ p'.phase := by
    rw [hphase]
    exact Life.moves hallows ⟨.inr ⟨child, hfree.1, rfl⟩, trivial⟩
  refine ⟨p', hp', ?_⟩
  rcases Life.moves_parent hmoves with ⟨hstarting, hparted⟩ | ⟨-, hwaiting⟩
  · rw [hparted, hstarting]
    exact ⟨trivial, nofun⟩
  · rw [hwaiting]
    exact ⟨rfl, fun _ => trivial⟩

/-- The child that a monitor reaps is its only one. -/
theorem reaped_of_wait (h : s.Lineage) {m child : Nat} {choice : Choice} {p : Process}
    (hstep : s.step (.run m choice) = some s') (hp : s.process m = some p)
    (hnext : p.next = some .wait) (hparent : s.parentOf child = some m) :
    s.process child = none ∧ s'.parentOf child = none := by
  have hinside := Life.inside_of_wait (allows_of_next (h.masked.lawful.process m p hp) hnext)
  obtain ⟨zombie, status, hzombie, horphan⟩ := reaped_of_step h.exclusive hstep hp hnext
  obtain ⟨-, p₁, hp₁, hchild⟩ := h.parents child m hparent
  obtain ⟨-, p₂, hp₂, hreaped⟩ := h.parents zombie m (parentOf_zombie h.exclusive hzombie)
  obtain rfl : p₁ = p := Option.some.inj (hp₁.symm.trans hp)
  obtain rfl : p₂ = p₁ := Option.some.inj (hp₂.symm.trans hp)
  obtain rfl := Life.Parent.inj hinside hchild hreaped
  exact ⟨h.exclusive child _ hzombie, horphan⟩

theorem parents_step (h : s.Lineage) (hstep : s.step a = some s') {child m : Nat}
    (hparent : s'.parentOf child = some m) :
    m ≠ child ∧ ∃ p, s'.process m = some p ∧ p.phase.Parent child := by
  rcases parentOf_of_step hstep hparent with hold | ⟨rfl, hfree, p, hp, hfork⟩
  · obtain ⟨hne, p, hp, hphase⟩ := h.parents child m hold
    refine ⟨hne, ?_⟩
    have hlive : (s.process m).isSome = true := by rw [hp]; rfl
    obtain ⟨p', hp'⟩ := Option.isSome_iff_exists.mp
      (parent_lives_of_step hstep (Ne.symm hne) hlive hold hparent)
    refine ⟨p', hp', ?_⟩
    cases course_of_step h.masked.lawful hstep hp' with
    | kept r hr hsame hoption hother =>
        obtain rfl : p = r := Option.some.inj (hp.symm.trans hr)
        rw [hsame]
        exact hphase
    | spawned cwd argv ha hfree | other ha hfree | born q r ha hfree =>
        rw [hfree.2.1] at hp
        cases hp
    | acted choice r e ha hr hnext hmoves hoption hanswers hfs =>
        obtain rfl : p = r := Option.some.inj (hp.symm.trans hr)
        rcases Life.parent_of_moves hmoves hphase with hkept | hwait
        · exact hkept
        · subst ha
          rw [(reaped_of_wait h hstep hp (hnext.trans (congrArg some hwait)) hold).2] at hparent
          cases hparent
  · obtain ⟨p', hp', hphase, -⟩ := parent_of_fork h hfree hstep hp hfork
    refine ⟨?_, p', hp', hphase⟩
    rintro rfl
    rw [hfree.2.1] at hp
    cases hp

theorem lineage_step (h : s.Lineage) (hstep : s.step a = some s') : s'.Lineage where
  budgeted := budgeted_step h.budgeted hstep
  exclusive := exclusive_step h.exclusive hstep
  parents _ _ := parents_step h hstep

/-! ## Masters -/

/-- A live master is one that was, or the child of a fork in `monitor_proc`. -/
theorem master_of_step (hlawful : s.Lawful) (hstep : s.step a = some s') {pid : Nat} {p' : Process}
    (hp' : s'.process pid = some p') (hmaster : p'.phase = .monitoring .master) :
    (∃ p, s.process pid = some p ∧ p.phase = .monitoring .master) ∨
      ∃ m p, a = .run m (.child pid) ∧ s.Free pid ∧ s.process m = some p ∧ p.next = some .fork ∧
        p.phase = .monitoring .forking ∧ p'.parent = some m := by
  cases course_of_step hlawful hstep hp' with
  | kept p hp hphase hoption hother => exact .inl ⟨p, hp, hphase ▸ hmaster⟩
  | spawned cwd argv ha hfree hphase hoption | other ha hfree hphase hoption =>
      rw [hphase] at hmaster
      cases hmaster
  | acted choice p e ha hp hnext hmoves hoption hanswers hfs =>
      rcases Life.master_of_moves hmoves hmaster with hbefore | rfl
      · exact .inl ⟨p, hp, hbefore⟩
      · obtain ⟨child, -, hchild⟩ := hanswers
        cases hchild
  | born m p ha hfree hp hnext hparent hoption hphases hfs =>
      rcases hphases with ⟨-, hborn⟩ | ⟨hforking, -⟩
      · rw [hborn] at hmaster
        cases hmaster
      · exact .inr ⟨m, p, ha, hfree, hp, hnext, hforking, hparent⟩

/-- A monitor in its loop does not end in this step, unless an exception has been thrown in it. -/
theorem monitor_lives (h : s.Kin) (horderly : s.Orderly a) (hstep : s.step a = some s') {m : Nat}
    {q : Process} (hq : s.process m = some q) (hloops : q.phase.Loops) (hwhole : ¬q.Broken) :
    ∃ q', s'.process m = some q' := by
  rcases lives_of_step hstep hq with hends | hlives
  · cases hends with
    | exit hcode =>
        have hrests := h.masked.lawful.process m q hq
        unfold Process.Lawful at hrests
        rw [hcode] at hrests
        obtain ⟨watch, hphase, hwatch⟩ := hloops.watch
        rw [hphase] at hrests
        rcases hrests with ⟨children, rfl⟩ | rfl <;> exact absurd hwatch id
    | crash status =>
        rw [horderly q hq] at hloops
        exact absurd hloops id
    | killed hr hnext htarget hblocks =>
        rw [(h.masked.blocks m q hq _).mpr hloops.inside] at hblocks
        cases hblocks
    | abort hnext => exact absurd (broken_of_fault h.budgeted hq hloops.inside hnext) hwhole
  · exact hlives

/-- It stays in its loop as long as it has a live child. -/
theorem monitor_loops (h : s.Kin) (horderly : s.Orderly a) (hstep : s.step a = some s') {m : Nat}
    {q q' : Process} (hq : s.process m = some q) (hloops : q.phase.Loops)
    (hq' : s'.process m = some q') {child : Nat} {p : Process} (hp : s.process child = some p)
    (hparent : p.parent = some m) : q'.phase.Loops := by
  cases course_of_step h.masked.lawful hstep hq' with
  | kept r hr hphase hoption hother =>
      obtain rfl : q = r := Option.some.inj (hq.symm.trans hr)
      rw [hphase]
      exact hloops
  | spawned cwd argv ha hfree | other ha hfree | born parent r ha hfree =>
      rw [hfree.2.1] at hq
      cases hq
  | acted choice r e ha hr hnext hmoves hoption hanswers hfs =>
      obtain rfl : q = r := Option.some.inj (hq.symm.trans hr)
      subst ha
      rcases Life.loops_of_moves hmoves hloops with
        hstays | hwait | ⟨signal, rfl, hhup, hchld⟩ | rfl
      · exact hstays
      · -- the live child cannot be the one that is reaped
        have hgone := (reaped_of_wait h.toLineage hstep hq (hnext.trans (congrArg some hwait))
          ((parentOf_live hp).trans hparent)).1
        rw [hp] at hgone
        cases hgone
      · obtain ⟨taken, -, htaken, rfl⟩ := hanswers
        obtain rfl : signal = taken := Except.ok.inj htaken
        rcases horderly.1 signal rfl with rfl | rfl | hchildless
        · exact absurd rfl hhup
        · exact absurd rfl hchld
        · exact absurd hparent (hchildless child (h.masked.lawful.listed child p hp) p hp)
      · obtain ⟨n, -, hn⟩ := hanswers
        cases hn

/-- Nothing has been thrown in a monitor that has a live child. -/
theorem whole_of_step (h : s.Lineage) (horderly : s.Orderly a) (hstep : s.step a = some s') {m : Nat}
    {q q' : Process} (hq : s.process m = some q) (hwhole : ¬q.Broken) (hq' : s'.process m = some q')
    {child : Nat} {p : Process} (hp : s.process child = some p) (hparent : p.parent = some m) :
    ¬q'.Broken := by
  intro hbroken
  rcases broken_of_step h.budgeted hstep hq hq' hbroken with hbefore | ⟨choice, rfl, hthrows⟩
  · exact hwhole hbefore
  · exact horderly.2.1 hthrows child (h.masked.lawful.listed child p hp) p hp hparent

/-- A process is not broken by a `fork`. -/
theorem whole_of_fork (h : s.Lineage) {m child : Nat} {p p' : Process}
    (hstep : s.step (.run m (.child child)) = some s') (hp : s.process m = some p)
    (hfork : p.next = some .fork) (hp' : s'.process m = some p') : ¬p'.Broken := by
  intro hbroken
  rcases broken_of_step h.budgeted hstep hp hp' hbroken with hbefore | ⟨choice, ha, hthrows⟩
  · -- a broken process forks no more
    obtain ⟨x, hprice, -⟩ := pace_allows (h.budgeted.paced m p hp) hfork
    rw [hbefore] at hprice
    cases hprice
  · cases ha
    cases hthrows

theorem guarded_step (h : s.Kin) (horderly : s.Orderly a) (hstep : s.step a = some s') {pid : Nat}
    {p' : Process} (hp' : s'.process pid = some p') (hmaster : p'.phase = .monitoring .master) :
    ∃ m q, p'.parent = some m ∧ s'.process m = some q ∧ q.phase.Loops ∧ ¬q.Broken := by
  rcases master_of_step h.masked.lawful hstep hp' hmaster with
    ⟨p, hp, hbefore⟩ | ⟨m, p, rfl, hfree, hp, hfork, hforking, hparent⟩
  · obtain ⟨m, q, hparent, hq, hloops, hwhole⟩ := h.guarded pid p hp hbefore
    obtain ⟨q', hq'⟩ := monitor_lives h horderly hstep hq hloops hwhole
    refine ⟨m, q', ?_, hq', monitor_loops h horderly hstep hq hloops hq' hp hparent,
      whole_of_step h.toLineage horderly hstep hq hwhole hq' hp hparent⟩
    rw [← parentOf_live hp']
    have hold : s.parentOf pid = some m := (parentOf_live hp).trans hparent
    rcases parentOf_stays hstep hold (by rw [hq']; rfl) with hstays | ⟨choice, r, rfl, hr, hwait⟩
    · exact hstays
    · rw [(reaped_of_wait h.toLineage hstep hr hwait hold).1] at hp
      cases hp
  · obtain ⟨q, hq, -, hloops⟩ := parent_of_fork h.toLineage hfree hstep hp hfork
    exact ⟨m, q, hparent, hq, hloops hforking,
      whole_of_fork h.toLineage hstep hp hfork hq⟩

/-! ## Monitors with a child -/

/-- A monitor with a child has had it, or forks it in this step. -/
theorem minds_of_step (hlawful : s.Lawful) (hstep : s.step a = some s') {m : Nat} {q' : Process}
    (hq' : s'.process m = some q') (hminds : q'.phase.Minds) :
    (∃ q, s.process m = some q ∧ q.phase.Minds) ∨ ∃ choice q, a = .run m choice ∧
      s.process m = some q ∧ q.phase = .monitoring .forking ∧ q.next = some .fork := by
  cases course_of_step hlawful hstep hq' with
  | kept q hq hphase hoption hother => exact .inl ⟨q, hq, hphase ▸ hminds⟩
  | spawned cwd argv ha hfree hphase hoption | other ha hfree hphase hoption =>
      rw [hphase] at hminds
      exact absurd hminds id
  | acted choice q e ha hq hnext hmoves hoption hanswers hfs =>
      rcases Life.minds_of_moves hmoves hminds with hbefore | ⟨hforking, hfork⟩
      · exact .inl ⟨q, hq, hbefore⟩
      · exact .inr ⟨choice, q, ha, hq, hforking, hnext.trans (congrArg some hfork)⟩
  | born m p ha hfree hp hnext hparent hoption hphases hfs =>
      rcases hphases with ⟨-, hborn⟩ | ⟨-, hborn⟩ <;> rw [hborn] at hminds
      · exact absurd hminds id
      · exact absurd hminds.1 id

/-- One that forks is the only one. -/
theorem minds_unique (h : s.Kin) (horderly : s.Orderly a) (hstep : s.step a = some s') {m₁ m₂ : Nat}
    {q₁ q₂' : Process} {choice : Choice} (ha : a = .run m₁ choice) (hq₁ : s.process m₁ = some q₁)
    (hforking : q₁.phase = .monitoring .forking) (hfork : q₁.next = some .fork)
    (hq₂' : s'.process m₂ = some q₂') (hminds : q₂'.phase.Minds) : m₁ = m₂ := by
  subst ha
  by_contra hne
  rcases minds_of_step h.masked.lawful hstep hq₂' hminds with ⟨q, hq, hbefore⟩ | ⟨choice', q, ha, -⟩
  · exact horderly.2.2 q₁ hq₁ hforking hfork m₂ (h.masked.lawful.listed m₂ q hq) (Ne.symm hne) q hq
      hbefore.loops
  · cases ha
    exact hne rfl

theorem one_step (h : s.Kin) (horderly : s.Orderly a) (hstep : s.step a = some s') {m₁ m₂ : Nat}
    {q₁ q₂ : Process} (hq₁ : s'.process m₁ = some q₁) (hminds₁ : q₁.phase.Minds)
    (hq₂ : s'.process m₂ = some q₂) (hminds₂ : q₂.phase.Minds) : m₁ = m₂ := by
  rcases minds_of_step h.masked.lawful hstep hq₁ hminds₁ with
    ⟨r₁, hr₁, hold₁⟩ | ⟨choice, r₁, ha, hr₁, hforking, hfork⟩
  · rcases minds_of_step h.masked.lawful hstep hq₂ hminds₂ with
      ⟨r₂, hr₂, hold₂⟩ | ⟨choice, r₂, ha, hr₂, hforking, hfork⟩
    · exact h.one m₁ r₁ m₂ r₂ hr₁ hold₁ hr₂ hold₂
    · exact (minds_unique h horderly hstep ha hr₂ hforking hfork hq₁ hminds₁).symm
  · exact minds_unique h horderly hstep ha hr₁ hforking hfork hq₂ hminds₂

/-- The step lemma. -/
theorem kin_step (h : s.Kin) (horderly : s.Orderly a) (hstep : s.step a = some s') : s'.Kin where
  toLineage := lineage_step h.toLineage hstep
  guarded _ _ := guarded_step h horderly hstep
  one _ _ _ _ := one_step h horderly hstep

/-- A host without processes and zombies. -/
def Empty (s : Host) : Prop := s.Idle ∧ ∀ pid, s.zombie pid = none

theorem lineage_empty (h : s.Empty) : s.Lineage := by
  refine ⟨budgeted_idle h.1, fun pid z hz => h.1 pid, fun child m hparent => ?_⟩
  rw [parentOf, h.1 child, h.2 child] at hparent
  cases hparent

theorem kin_empty (h : s.Empty) : s.Kin := by
  have hnone : ∀ {pid p}, s.process pid ≠ some p := by
    intro pid p hp
    rw [h.1 pid] at hp
    cases hp
  exact ⟨lineage_empty h, fun _ _ hp => absurd hp hnone, fun _ _ _ _ hp => absurd hp hnone⟩

/-- As long as monitors leave their loops only without a live master, no load throws in one that has
a master, and none forks when another is in its loop, every live master has a live monitor in its
loop, and there is one at most. -/
theorem supervised (h : Machine.Reached step Orderly Empty s) : s.Supervised := by
  have hkin : s.Kin := h.invariant (fun _ => kin_empty) fun _ _ _ => kin_step
  refine ⟨fun pid p hp hmaster => ?_, fun pid p pid' p' hp hmaster hp' hmaster' => ?_⟩
  · obtain ⟨m, q, hparent, hq, hloops, -⟩ := hkin.guarded pid p hp hmaster
    exact ⟨m, q, hparent, hq, hloops⟩
  obtain ⟨m, q, hparent, hq, hloops, -⟩ := hkin.guarded pid p hp hmaster
  obtain ⟨m', q', hparent', hq', hloops', -⟩ := hkin.guarded pid' p' hp' hmaster'
  obtain ⟨-, r, hr, hchild⟩ := hkin.parents pid m ((parentOf_live hp).trans hparent)
  obtain ⟨-, r', hr', hchild'⟩ := hkin.parents pid' m' ((parentOf_live hp').trans hparent')
  obtain rfl : q = r := Option.some.inj (hq.symm.trans hr)
  obtain rfl : q' = r' := Option.some.inj (hq'.symm.trans hr')
  obtain rfl := hkin.one m q m' q' hq (hloops.minds hchild) hq' (hloops'.minds hchild')
  obtain rfl : q = q' := Option.some.inj (hq.symm.trans hq')
  exact Life.Parent.inj hloops.inside hchild hchild'

/-! ## Runs -/

instance (pid : Nat) : Decidable (s.Childless pid) := by
  unfold Childless
  infer_instance

instance : Decidable (s.Orderly a) := match a with
  | .run pid choice => inferInstanceAs (Decidable (
      (∀ signal ∈ choice.taken, signal = .sighup ∨ signal = .sigchld ∨ s.Childless pid) ∧
        (choice.throws = true → s.Childless pid) ∧
        ∀ p ∈ s.process pid, p.phase = .monitoring .forking → p.next = some .fork →
          ∀ q ∈ s.pids, q ≠ pid → ∀ r ∈ s.process q, ¬r.phase.Loops))
  | .crash pid _ => inferInstanceAs (Decidable (∀ p ∈ s.process pid, p.phase = .monitoring .master))
  | .spawn _ _ _ | .other _ | .exit _ | .abort _ => isTrue trivial

theorem empty_ofFiles (files : List (Path × List Char)) : (ofFiles files).Empty :=
  ⟨idle_ofFiles files, fun _ => rfl⟩

/-- The master is killed, and the monitor forks another. -/
def replacing : List Action :=
  [.crash 102 (.signaled 9 false), .run 101 (.signal .sigchld), .run 101 (.child 102),
    .run 101 (.child 103)]

/-- The new master has its monitor. -/
theorem replaced_master_supervised : ∃ s p,
    Machine.run step installed (loading 100 101 102 ++ replacing) = some s ∧
      s.process 103 = some p ∧ p.phase = .monitoring .master ∧ s.Supervised := by
  have hrun : ∃ s, Machine.run step installed (loading 100 101 102 ++ replacing) = some s ∧
      (s.process 103).any (fun p => decide (p.phase = .monitoring .master)) = true :=
    Machine.exists_run (by decide +kernel)
  obtain ⟨s, hrun, hmaster⟩ := hrun
  obtain ⟨p, hp, hmaster⟩ := (Option.any_eq_true _ _).mp hmaster
  have halong : Machine.Along step Orderly installed (loading 100 101 102 ++ replacing) := by
    decide +kernel
  have hreached := Machine.Reached.run (.start (empty_ofFiles _)) halong hrun
  exact ⟨s, p, hrun, hp, of_decide_eq_true hmaster, supervised hreached⟩

/-- `load`, `stop` up to the end of the monitor, and `load` again. -/
def reloading : List Action :=
  loading 100 101 102 ++ stopping 200 ++ calls 200 2 ++ [.exit 200, .run 101 (.signal .sigterm)] ++
    calls 101 5 ++ [.exit 101] ++ loading 300 301 302

/-- The old master has not taken its SIGTERM yet, and there is a new one. -/
theorem two_masters_after_stop : ¬ ∀ s, Machine.Reached step Sequential Empty s → s.Supervised := by
  intro hall
  have hrun : ∃ s, Machine.run step installed reloading = some s ∧
      (s.process 102).any (fun p => decide (p.phase = .monitoring .master)) = true ∧
      (s.process 302).any (fun p => decide (p.phase = .monitoring .master)) = true :=
    Machine.exists_run (by decide +kernel)
  obtain ⟨s, hrun, hold, hnew⟩ := hrun
  obtain ⟨p, hp, hold⟩ := (Option.any_eq_true _ _).mp hold
  obtain ⟨p', hp', hnew⟩ := (Option.any_eq_true _ _).mp hnew
  have halong : Machine.Along step Sequential installed reloading := by decide +kernel
  have hreached := Machine.Reached.run (.start (empty_ofFiles _)) halong hrun
  have heq := (hall s hreached).one 102 p 302 p' hp (of_decide_eq_true hold) hp' (of_decide_eq_true hnew)
  cases heq

/-- `load`, `reload` with a load that throws, and `load` again. -/
def aborting : List Action :=
  loading 100 101 102 ++ [.spawn 200 "/" ["robotd", "reload"]] ++ calls 200 2 ++
    [.run 200 (.listing [])] ++ calls 200 3 ++ [.exit 200, .run 101 (.signal .sighup)] ++
    calls 101 2 ++ [.run 101 (.load .thrown), .abort 101] ++
    [.spawn 300 "/etc/robotd" ["robotd", "load", "daemon.cfg"]] ++ calls 300 2 ++
    [.run 300 (.listing [])] ++ calls 300 4 ++ launch 300 301 ++ calls 301 6 ++
    [.run 301 (.child 302)]

/-- The master of the monitor that was aborted is still there. -/
example : ∃ s, Machine.run step installed aborting = some s ∧
    (s.process 102).any (fun p => decide (p.phase = .monitoring .master)) = true ∧
    (s.process 302).any (fun p => decide (p.phase = .monitoring .master)) = true :=
  Machine.exists_run (by decide +kernel)

end Host

end Robotd
