import Robotd.Host.Conduct

/-!
# Parents and children

`parentOf` is the parent of a process or a zombie, as long as it lives. The lemmas say what a step
does to it, who may die, and whom a `wait` reaps.
-/

namespace Robotd

open Lib Lib.CLib

/-- The process has gone on, and the signal is still pending if it was. -/
structure Process.Onward (signal : Signal) (p p' : Process) : Prop where
  past : p.past <+: p'.past
  pending : signal ∈ p.pending → signal ∈ p'.pending

theorem Process.Onward.refl {signal : Signal} (p : Process) : p.Onward signal p :=
  ⟨List.prefix_rfl, id⟩

theorem Process.Onward.trans {signal : Signal} {p₁ p₂ p₃ : Process} (h : p₁.Onward signal p₂)
    (h' : p₂.Onward signal p₃) : p₁.Onward signal p₃ :=
  ⟨h.past.trans h'.past, fun hpending => h'.pending (h.pending hpending)⟩

theorem onward_answered {signal : Signal} (p : Process) (e : Event) (code : Sys Next) :
    p.Onward signal (p.answered e code) :=
  ⟨List.prefix_append _ _, id⟩

theorem onward_raised {signal : Signal} (p : Process) (signal' : Signal) :
    p.Onward signal (p.raised signal') :=
  ⟨List.prefix_rfl, List.mem_insert_of_mem⟩

namespace Host

variable {s s' : Host}

/-- The live parent of a process or of a zombie. -/
def parentOf (s : Host) (pid : Nat) : Option Nat :=
  match s.process pid with
  | some p => p.parent
  | none => (s.zombie pid).map Prod.fst

theorem parentOf_live {pid : Nat} {p : Process} (hp : s.process pid = some p) :
    s.parentOf pid = p.parent := by
  rw [parentOf, hp]

/-- No zombie is a process. -/
def Exclusive (s : Host) : Prop := ∀ pid z, s.zombie pid = some z → s.process pid = none

theorem parentOf_zombie {pid parent : Nat} {status : WaitStatus} (h : s.Exclusive)
    (hzombie : s.zombie pid = some (parent, status)) : s.parentOf pid = some parent := by
  rw [parentOf, h pid _ hzombie, hzombie]
  rfl

/-! ## The parts of a step -/

theorem parentOf_update (pid : Nat) {f : Process → Process} (hf : ∀ p, (f p).parent = p.parent)
    (q : Nat) : (s.update pid f).parentOf q = s.parentOf q := by
  simp only [parentOf, update]
  by_cases hq : q = pid
  · rw [if_pos hq]
    cases hp : s.process q with
    | none => rfl
    | some p => exact hf p
  · rw [if_neg hq]

theorem parentOf_answered (pid : Nat) (e : Event) (code : Sys Next) (q : Nat) :
    (s.update pid fun p => p.answered e code).parentOf q = s.parentOf q :=
  parentOf_update (f := fun p => p.answered e code) pid (fun _ => rfl) q

theorem process_update_isSome (pid : Nat) (f : Process → Process) (q : Nat) :
    ((s.update pid f).process q).isSome = (s.process q).isSome := by
  simp only [update]
  split
  · exact Option.isSome_map
  · rfl

theorem parentOf_add {new : Nat} (p : Process) (q : Nat) :
    (s.add new p).parentOf q = if q = new then p.parent else s.parentOf q := by
  simp only [parentOf, add]
  by_cases hq : q = new
  · rw [if_pos hq, if_pos hq]
  · rw [if_neg hq, if_neg hq]

theorem parentOf_raise (pid : Nat) (signal : Signal) (q : Nat) :
    (s.raise pid signal).parentOf q = s.parentOf q := by
  refine parentOf_update pid (fun p => ?_) q
  split <;> rfl

theorem parentOf_remove {pid : Nat} {p : Process} (hp : s.process pid = some p)
    (status : WaitStatus) (q : Nat) : (s.remove pid status).parentOf q =
      if q = pid then p.parent else (s.parentOf q).filter fun parent => parent ≠ pid := by
  simp only [parentOf, remove]
  by_cases hq : q = pid
  · rw [if_pos hq, if_pos hq, if_pos hq, hq, hp, Option.bind_some]
    cases p.parent <;> rfl
  · rw [if_neg hq, if_neg hq, if_neg hq]
    cases hr : s.process q with
    | none =>
        simp only [Option.map_none]
        cases s.zombie q with
        | none => rfl
        | some z => by_cases hparent : z.1 = pid <;> simp [Option.filter, hparent]
    | some r =>
        simp only [Option.map_some]
        split
        · rename_i hparent
          simp [Option.filter, hparent]
        · rename_i hparent
          cases hparent' : r.parent with
          | none => rfl
          | some parent =>
              have hne : parent ≠ pid := fun heq => hparent (heq ▸ hparent')
              simp [Option.filter, hne]

theorem parentOf_die {pid : Nat} {p : Process} (hp : s.process pid = some p)
    (status : WaitStatus) (q : Nat) : (s.die pid status).parentOf q =
      if q = pid then p.parent else (s.parentOf q).filter fun parent => parent ≠ pid := by
  unfold die
  split
  · rw [parentOf_raise, parentOf_remove hp]
  · exact parentOf_remove hp status q

theorem process_die_self (pid : Nat) (status : WaitStatus) : (s.die pid status).process pid = none := by
  have hremove : (s.remove pid status).process pid = none := if_pos rfl
  unfold die
  split
  · cases hraise : ((s.remove pid status).raise _ .sigchld).process pid with
    | none => rfl
    | some p =>
        obtain ⟨p', hp', -⟩ := shrinks_raise _ _ _ pid p hraise
        rw [hremove] at hp'
        cases hp'
  · exact hremove

theorem process_die_isSome {pid q : Nat} (hq : q ≠ pid) (status : WaitStatus) :
    ((s.die pid status).process q).isSome = (s.process q).isSome := by
  have hremove : ((s.remove pid status).process q).isSome = (s.process q).isSome := by
    simp only [remove, if_neg hq, Option.isSome_map]
  unfold die
  split
  · rw [raise, process_update_isSome, hremove]
  · exact hremove

/-! ## Steps -/

/-- What a call may do to the processes, apart from a fork. -/
inductive Treats (s : Host) (pid : Nat) (choice : Choice) : (c : Call) → Response c → Host → Prop where
  | plain {c : Call} {r : Response c} {t : Host} (hprocess : t.process = s.process)
      (hzombie : t.zombie = s.zombie) (hwait : c ≠ .wait) (hsignal : ∀ set, c ≠ .sigwaitinfo set) :
      Treats s pid choice c r t
  | raise {target : Int} {signal : Signal} {r : Response (.kill target signal)} :
      Treats s pid choice (.kill target signal) r (s.raise target.toNat signal)
  | die {target : Int} {signal : Signal} {r : Response (.kill target signal)} {p : Process}
      (hp : s.process target.toNat = some p) (hblocks : p.blocks signal = false) :
      Treats s pid choice (.kill target signal) r
        (s.die target.toNat (.signaled signal.number false))
  | take {set : List Signal} {signal : Signal} (hchoice : choice = .signal signal)
      (hpending : ∀ p, s.process pid = some p → signal ∈ p.pending) :
      Treats s pid choice (.sigwaitinfo set) (.ok signal)
        (s.update pid fun p => { p with pending := p.pending.erase signal })
  | reap {child : Nat} {status : WaitStatus} (hzombie : s.zombie child = some (pid, status)) :
      Treats s pid choice .wait (.ok status.raw)
        { s with zombie := fun q => if q = child then none else s.zombie q }

theorem treats_of_answer {pid : Nat} {choice : Choice} {c : Call} {r : Response c} {t : Host}
    (h : s.answer pid choice c = some (r, t)) : s.Treats pid choice c r t := by
  cases c with
  | kill target signal =>
      have hkill : (s.kill target signal).2 = t := congrArg Prod.snd (Option.some.inj h)
      rw [← hkill, kill]
      split
      · rename_i p hp
        split
        · exact .raise
        · rename_i hblocks
          refine .die hp ?_
          rw [not_or] at hblocks
          exact Bool.eq_false_iff.mpr hblocks.1
      · split <;> exact .plain rfl rfl (by simp) (by simp)
  | sigwaitinfo set =>
      cases choice with
      | signal signal =>
          simp only [answer] at h
          split at h
          · rename_i hsignal
            cases h
            refine .take rfl fun p hp => ?_
            have hany := hsignal.2
            rw [hp] at hany
            exact of_decide_eq_true hany
          · cases h
      | _ => cases h
  | wait =>
      cases choice with
      | child child =>
          simp only [answer] at h
          split at h
          · rename_i parent status hzombie
            split at h
            · rename_i heq
              subst heq
              cases h
              exact .reap hzombie
            · cases h
          · cases h
      | _ => cases h
  | readdirProc | setup | loadConfig | registerServices =>
      cases choice <;> first | cases h; exact .plain rfl rfl (by simp) (by simp) | cases h
  | fault | fork => cases h
  | _ =>
      cases h
      exact .plain rfl rfl (by simp) (by simp)

/-! ## Processes that live on -/

/-- The process `q`, if there is one, has gone on. -/
def Carries (s s' : Host) (q : Nat) (signal : Signal) : Prop :=
  ∀ p, s.process q = some p → ∃ p', s'.process q = some p' ∧ p.Onward signal p'

variable {q : Nat} {signal : Signal}

theorem Carries.refl (s : Host) : s.Carries s q signal := fun p hp => ⟨p, hp, .refl p⟩

theorem Carries.trans {s₁ s₂ s₃ : Host} (h : s₁.Carries s₂ q signal) (h' : s₂.Carries s₃ q signal) :
    s₁.Carries s₃ q signal := by
  intro p hp
  obtain ⟨p₂, hp₂, honward⟩ := h p hp
  obtain ⟨p₃, hp₃, honward'⟩ := h' p₂ hp₂
  exact ⟨p₃, hp₃, honward.trans honward'⟩

theorem carries_of_process {s s' : Host} (h : s'.process = s.process) : s.Carries s' q signal := by
  intro p hp
  rw [← h] at hp
  exact ⟨p, hp, .refl p⟩

theorem carries_update (pid : Nat) {f : Process → Process}
    (hf : ∀ p : Process, q = pid → p.Onward signal (f p)) : s.Carries (s.update pid f) q signal := by
  intro p hp
  by_cases hq : q = pid
  · refine ⟨f p, ?_, hf p hq⟩
    simp only [update, if_pos hq, hp, Option.map_some]
  · refine ⟨p, ?_, .refl p⟩
    simp only [update, if_neg hq, hp]

theorem carries_raise (pid : Nat) (signal' : Signal) : s.Carries (s.raise pid signal') q signal := by
  refine carries_update pid fun p _ => ?_
  split
  · exact onward_raised p signal'
  · exact .refl p

theorem carries_die {pid : Nat} (hq : q ≠ pid) (status : WaitStatus) :
    s.Carries (s.die pid status) q signal := by
  have hremove : s.Carries (s.remove pid status) q signal := by
    intro p hp
    simp only [remove, if_neg hq, hp, Option.map_some]
    refine ⟨_, rfl, ?_⟩
    split
    · exact ⟨List.prefix_rfl, id⟩
    · exact .refl p
  unfold die
  split
  · exact hremove.trans (carries_raise _ _)
  · exact hremove

theorem carries_add {new : Nat} (hnew : s.process new = none) (p : Process) :
    s.Carries (s.add new p) q signal := by
  intro r hr
  have hne : q ≠ new := by
    intro heq
    rw [heq, hnew] at hr
    cases hr
  exact ⟨r, by simp only [add, if_neg hne, hr], .refl r⟩

/-- How a process may end in a step. -/
inductive Ends (s : Host) (q : Nat) (p : Process) : Action → Prop where
  | exit {code : Int} (hcode : p.code = .ret (.exit code)) : Ends s q p (.exit q)
  | abort {reason : Fault} (hnext : p.next = some (.fault reason)) : Ends s q p (.abort q)
  | crash (status : WaitStatus) : Ends s q p (.crash q status)
  | killed {pid : Nat} {choice : Choice} {r : Process} {target : Int} {signal : Signal}
      (hr : s.process pid = some r) (hnext : r.next = some (.kill target signal))
      (htarget : target.toNat = q) (hblocks : p.blocks signal = false) :
      Ends s q p (.run pid choice)

/-- A process ends, or lives on with all the signals it has not taken. -/
theorem onward_of_step {a : Action} (hstep : s.step a = some s') {p : Process}
    (hp : s.process q = some p) :
    s.Ends q p a ∨ (a = .run q (.signal signal) ∧ ∃ set, p.next = some (.sigwaitinfo set)) ∨
      ∃ p', s'.process q = some p' ∧ p.Onward signal p' := by
  cases steps_of_step hstep with
  | spawn hfree | other hfree => exact .inr (.inr (carries_add hfree.2.1 _ p hp))
  | call hr hcode hanswer =>
      rename_i pid choice r c next answer t
      have hanswered : t.Carries (t.update pid fun p => p.answered ⟨c, answer⟩ (next answer)) q signal :=
        carries_update pid fun p _ => onward_answered p _ _
      cases treats_of_answer hanswer with
      | plain hprocess hzombie hwait hsignal =>
          exact .inr (.inr ((carries_of_process hprocess).trans hanswered p hp))
      | raise => exact .inr (.inr ((carries_raise _ _).trans hanswered p hp))
      | die hkilled hblocks =>
          rename_i target signal' answer killed
          by_cases hq : q = target.toNat
          · subst hq
            obtain rfl : p = killed := Option.some.inj (hp.symm.trans hkilled)
            exact .inl (.killed hr (next_of_code hcode) rfl hblocks)
          · exact .inr (.inr ((carries_die hq _).trans hanswered p hp))
      | take hchoice hmember =>
          rename_i set taken
          by_cases htaken : q = pid ∧ signal = taken
          · obtain ⟨rfl, rfl⟩ := htaken
            obtain rfl : p = r := Option.some.inj (hp.symm.trans hr)
            exact .inr (.inl ⟨by rw [hchoice], set, next_of_code hcode⟩)
          · have htake : s.Carries (s.update pid fun p => { p with pending := p.pending.erase taken })
                q signal := by
              refine carries_update pid fun p hq => ⟨List.prefix_rfl, fun hpending => ?_⟩
              exact (List.mem_erase_of_ne fun heq => htaken ⟨hq, heq⟩).mpr hpending
            exact .inr (.inr (htake.trans hanswered p hp))
      | reap hzombie => exact .inr (.inr ((carries_of_process rfl).trans hanswered p hp))
  | fork hr hcode hfree =>
      rename_i pid child r next
      have hparent : s.Carries
          (s.update pid fun p => p.answered ⟨.fork, .parent child⟩ (next (.parent child))) q signal :=
        carries_update pid fun p _ => onward_answered p _ _
      refine .inr (.inr (hparent.trans (carries_add ?_ _) p hp))
      simp only [update, hfree.2.1, Option.map_none, ite_self]
  | exit hr hcode =>
      rename_i pid r code
      by_cases hq : q = pid
      · subst hq
        obtain rfl : p = r := Option.some.inj (hp.symm.trans hr)
        exact .inl (.exit hcode)
      · exact .inr (.inr (carries_die hq _ p hp))
  | abort hr hcode =>
      rename_i pid r reason next
      by_cases hq : q = pid
      · subst hq
        obtain rfl : p = r := Option.some.inj (hp.symm.trans hr)
        exact .inl (.abort (next_of_code hcode))
      · exact .inr (.inr (carries_die hq _ p hp))
  | crash hr =>
      rename_i pid status r
      by_cases hq : q = pid
      · subst hq
        exact .inl (.crash status)
      · exact .inr (.inr (carries_die hq _ p hp))

/-- A process ends or lives on. -/
theorem lives_of_step {a : Action} (hstep : s.step a = some s') {p : Process}
    (hp : s.process q = some p) : s.Ends q p a ∨ ∃ p', s'.process q = some p' := by
  have hhup : s.Ends q p a ∨ (a = .run q (.signal .sighup) ∧ ∃ set, p.next = some (.sigwaitinfo set)) ∨
      ∃ p', s'.process q = some p' ∧ p.Onward .sighup p' := onward_of_step hstep hp
  have hterm : s.Ends q p a ∨ (a = .run q (.signal .sigterm) ∧ ∃ set, p.next = some (.sigwaitinfo set)) ∨
      ∃ p', s'.process q = some p' ∧ p.Onward .sigterm p' := onward_of_step hstep hp
  rcases hhup with hends | ⟨rfl, -⟩ | ⟨p', hp', -⟩
  · exact .inl hends
  · rcases hterm with hends | ⟨htaken, -⟩ | ⟨p', hp', -⟩
    · exact .inl hends
    · cases htaken
    · exact .inr ⟨p', hp'⟩
  · exact .inr ⟨p', hp'⟩

/-! ## Parents in a step -/

/-- From `s` to `t` nobody has come to be or become a child, and whoever is a parent lives. -/
structure Kinship (s t : Host) : Prop where
  old : ∀ q, (t.process q).isSome = true → (s.process q).isSome = true
  back : ∀ q m, t.parentOf q = some m → s.parentOf q = some m
  lives : ∀ q m, q ≠ m → (s.process m).isSome = true → t.parentOf q = some m →
    (t.process m).isSome = true

theorem Kinship.of_same {t : Host} (hprocess : ∀ q, (t.process q).isSome = (s.process q).isSome)
    (hparent : ∀ q, t.parentOf q = s.parentOf q) : s.Kinship t := by
  refine ⟨fun q hq => by rwa [← hprocess], fun q m hq => by rwa [← hparent], ?_⟩
  exact fun q m _ hm _ => by rwa [hprocess]

theorem Kinship.trans {s₁ s₂ s₃ : Host} (h : s₁.Kinship s₂) (h' : s₂.Kinship s₃) :
    s₁.Kinship s₃ := by
  refine ⟨fun q hq => h.old q (h'.old q hq), fun q m hq => h.back q m (h'.back q m hq), ?_⟩
  exact fun q m hne hm hq => h'.lives q m hne (h.lives q m hne hm (h'.back q m hq)) hq

theorem kinship_update (pid : Nat) {f : Process → Process} (hf : ∀ p, (f p).parent = p.parent) :
    s.Kinship (s.update pid f) :=
  .of_same (process_update_isSome pid f) (parentOf_update pid hf)

theorem kinship_die {pid : Nat} {p : Process} (hp : s.process pid = some p) (status : WaitStatus) :
    s.Kinship (s.die pid status) := by
  have hlive : ∀ q, ((s.die pid status).process q).isSome = true → q ≠ pid := by
    rintro q hq rfl
    rw [process_die_self] at hq
    cases hq
  refine ⟨?_, ?_, ?_⟩
  · intro q hq
    rwa [process_die_isSome (hlive q hq)] at hq
  · intro q m hq
    rw [parentOf_die hp] at hq
    split at hq
    · rename_i heq
      rw [heq, parentOf_live hp, hq]
    · exact (Option.filter_eq_some_iff.mp hq).1
  · intro q m hne hm hq
    refine (process_die_isSome ?_ status).trans hm
    rintro rfl
    rw [parentOf_die hp, if_neg hne] at hq
    exact absurd rfl (of_decide_eq_true (Option.filter_eq_some_iff.mp hq).2)

theorem kinship_reap (child : Nat) :
    s.Kinship { s with zombie := fun q => if q = child then none else s.zombie q } := by
  refine ⟨fun _ hq => hq, fun q m hq => ?_, fun _ _ _ hm _ => hm⟩
  simp only [parentOf] at hq ⊢
  cases hp : s.process q with
  | some p =>
      rw [hp] at hq
      exact hq
  | none =>
      rw [hp] at hq
      by_cases hchild : q = child
      · simp [hchild] at hq
      · simpa [hchild] using hq

theorem kinship_of_treats {pid : Nat} {choice : Choice} {c : Call} {r : Response c} {t : Host}
    (h : s.Treats pid choice c r t) : s.Kinship t := by
  cases h with
  | plain hprocess hzombie hwait hsignal =>
      refine .of_same (fun q => by rw [hprocess]) fun q => ?_
      rw [parentOf, parentOf, hprocess, hzombie]
  | raise =>
      refine kinship_update _ fun p => ?_
      split <;> rfl
  | die hp hblocks => exact kinship_die hp _
  | take hchoice hmember => exact kinship_update _ fun _ => rfl
  | reap hzombie => exact kinship_reap _

/-- Apart from a new process, which is at most a child of the one that forks. -/
theorem kinship_of_step {a : Action} (hstep : s.step a = some s') :
    ∃ t, s.Kinship t ∧ (s' = t ∨ ∃ new p, s.Free new ∧ s' = t.add new p ∧
      ∀ m, p.parent = some m → a = .run m (.child new) ∧
        ∃ r, s.process m = some r ∧ r.next = some .fork) := by
  have hrefl : s.Kinship s := .of_same (fun _ => rfl) fun _ => rfl
  cases steps_of_step hstep with
  | spawn hfree => exact ⟨s, hrefl, .inr ⟨_, _, hfree, rfl, nofun⟩⟩
  | other hfree => exact ⟨s, hrefl, .inr ⟨_, _, hfree, rfl, nofun⟩⟩
  | call hp hcode hanswer =>
      rename_i pid choice p c next r t
      have hanswered : t.Kinship (t.update pid fun p => p.answered ⟨c, r⟩ (next r)) :=
        kinship_update pid fun _ => rfl
      exact ⟨_, (kinship_of_treats (treats_of_answer hanswer)).trans hanswered, .inl rfl⟩
  | fork hp hcode hfree =>
      rename_i pid child p next
      have hanswered : s.Kinship
          (s.update pid fun p => p.answered ⟨.fork, .parent child⟩ (next (.parent child))) :=
        kinship_update pid fun _ => rfl
      refine ⟨_, hanswered, .inr ⟨child, _, hfree, rfl, fun m hm => ?_⟩⟩
      obtain rfl : pid = m := Option.some.inj hm
      exact ⟨rfl, p, hp, next_of_code hcode⟩
  | exit hp hcode => exact ⟨_, kinship_die hp _, .inl rfl⟩
  | abort hp hcode => exact ⟨_, kinship_die hp _, .inl rfl⟩
  | crash hp => exact ⟨_, kinship_die hp _, .inl rfl⟩

theorem parentOf_free {pid : Nat} (h : s.Free pid) : s.parentOf pid = none := by
  rw [parentOf, h.2.1, h.2.2]
  rfl

/-- Only the child of a fork gets a parent. -/
theorem parentOf_of_step {a : Action} (hstep : s.step a = some s') {m : Nat}
    (h : s'.parentOf q = some m) : s.parentOf q = some m ∨
      a = .run m (.child q) ∧ s.Free q ∧ ∃ p, s.process m = some p ∧ p.next = some .fork := by
  rcases kinship_of_step hstep with ⟨t, hkin, rfl | ⟨new, p, hfree, rfl, hchild⟩⟩
  · exact .inl (hkin.back q m h)
  · rw [parentOf_add] at h
    split at h
    · rename_i heq
      subst heq
      exact .inr ⟨(hchild m h).1, hfree, (hchild m h).2⟩
    · exact .inl (hkin.back q m h)

/-- The parent of a child is alive. -/
theorem parent_lives_of_step {a : Action} (hstep : s.step a = some s') {m : Nat} (hne : q ≠ m)
    (hm : (s.process m).isSome = true) (hparent : s.parentOf q = some m)
    (h : s'.parentOf q = some m) : (s'.process m).isSome = true := by
  rcases kinship_of_step hstep with ⟨t, hkin, rfl | ⟨new, p, hfree, rfl, hchild⟩⟩
  · exact hkin.lives q m hne hm h
  · rw [parentOf_add] at h
    split at h
    · rename_i heq
      rw [heq, parentOf_free hfree] at hparent
      cases hparent
    · simp only [add]
      split
      · rfl
      · exact hkin.lives q m hne hm h

/-- An end takes nobody's parent but from the children of the one that ends. -/
theorem parentOf_die_stays {pid m : Nat} {p : Process} (hp : s.process pid = some p)
    (status : WaitStatus) (h : s.parentOf q = some m)
    (hm : ((s.die pid status).process m).isSome = true) : (s.die pid status).parentOf q = some m := by
  have hne : m ≠ pid := by
    rintro rfl
    rw [process_die_self] at hm
    cases hm
  rw [parentOf_die hp]
  split
  · rename_i heq
    rw [← h, heq, parentOf_live hp]
  · exact Option.filter_eq_some_iff.mpr ⟨h, decide_eq_true hne⟩

/-- A child keeps its parent as long as that lives and does not reap it. -/
theorem parentOf_stays {a : Action} (hstep : s.step a = some s') {m : Nat}
    (h : s.parentOf q = some m) (hm : (s'.process m).isSome = true) : s'.parentOf q = some m ∨
      ∃ choice p, a = .run m choice ∧ s.process m = some p ∧ p.next = some .wait := by
  have hadd : ∀ {t : Host} {new : Nat} (p : Process), s.Free new → t.parentOf q = some m →
      (t.add new p).parentOf q = some m := by
    intro t new p hfree ht
    have hne : q ≠ new := by
      rintro rfl
      rw [parentOf_free hfree] at h
      cases h
    rw [parentOf_add, if_neg hne]
    exact ht
  cases steps_of_step hstep with
  | spawn hfree | other hfree => exact .inl (hadd _ hfree h)
  | call hp hcode hanswer =>
      rename_i pid choice p c next r t
      rw [process_update_isSome] at hm
      rw [parentOf_answered]
      cases treats_of_answer hanswer with
      | plain hprocess hzombie hwait hsignal =>
          refine .inl ?_
          rw [← h, parentOf, parentOf, hprocess, hzombie]
      | raise => exact .inl ((parentOf_raise _ _ q).trans h)
      | die hp hblocks => exact .inl (parentOf_die_stays hp _ h hm)
      | take hchoice hmember =>
          refine .inl ?_
          rw [← h]
          refine parentOf_update pid (fun p => ?_) q
          rfl
      | reap hzombie =>
          rename_i child status
          cases hq : s.process q with
          | some live =>
              refine .inl ?_
              rw [← h]
              simp only [parentOf, hq]
          | none =>
              by_cases hchild : q = child
              · -- the one that reaps is the parent
                rw [hchild] at h hq
                have hparent : s.parentOf child = some pid := by
                  rw [parentOf, hq, hzombie]
                  rfl
                obtain rfl : pid = m := Option.some.inj (hparent.symm.trans h)
                exact .inr ⟨choice, p, rfl, hp, next_of_code hcode⟩
              · refine .inl ?_
                rw [← h]
                simp only [parentOf, if_neg hchild]
  | fork hp hcode hfree => exact .inl (hadd _ hfree ((parentOf_answered _ _ _ q).trans h))
  | exit hp hcode => exact .inl (parentOf_die_stays hp _ h hm)
  | abort hp hcode => exact .inl (parentOf_die_stays hp _ h hm)
  | crash hp => exact .inl (parentOf_die_stays hp _ h hm)

/-- What a fork makes of the parent. -/
theorem fork_of_step {m child : Nat} {p : Process} (hstep : s.step (.run m (.child child)) = some s')
    (hp : s.process m = some p) (hnext : p.next = some .fork) :
    ∃ p', s'.process m = some p' ∧ p'.phase = p.phase.after ⟨.fork, .parent child⟩ := by
  cases steps_of_step hstep with
  | call hp' hcode hanswer =>
      obtain rfl := Option.some.inj (hp'.symm.trans hp)
      obtain rfl := Option.some.inj ((next_of_code hcode).symm.trans hnext)
      cases hanswer
  | fork hp' hcode hfree =>
      rename_i r next
      obtain rfl := Option.some.inj (hp'.symm.trans hp)
      have hne : m ≠ child := by
        rintro rfl
        rw [hfree.2.1] at hp
        cases hp
      refine ⟨r.answered ⟨.fork, .parent child⟩ (next (.parent child)), ?_, phase_snoc rfl⟩
      simp only [add, update, if_neg hne, if_true, hp, Option.map_some]

/-! ## Zombies in a step -/

theorem exclusive_add (h : s.Exclusive) {new : Nat} (hfree : s.Free new) (p : Process) :
    (s.add new p).Exclusive := by
  intro q z hz
  have hne : q ≠ new := by
    rintro rfl
    have hnone : s.zombie q = some z := hz
    rw [hfree.2.2] at hnone
    cases hnone
  simp only [add, if_neg hne]
  exact h q z hz

theorem exclusive_update (h : s.Exclusive) (pid : Nat) (f : Process → Process) :
    (s.update pid f).Exclusive := by
  intro q z hz
  simp only [update, h q z hz, Option.map_none, ite_self]

theorem exclusive_die (h : s.Exclusive) (pid : Nat) (status : WaitStatus) :
    (s.die pid status).Exclusive := by
  have hremove : (s.remove pid status).Exclusive := by
    intro q z hz
    simp only [remove] at hz ⊢
    split
    · rfl
    · rename_i hne
      rw [if_neg hne] at hz
      rw [h q z (Option.filter_eq_some_iff.mp hz).1, Option.map_none]
  unfold die
  split
  · exact exclusive_update hremove _ _
  · exact hremove

theorem exclusive_step {a : Action} (h : s.Exclusive) (hstep : s.step a = some s') : s'.Exclusive := by
  cases steps_of_step hstep with
  | spawn hfree | other hfree => exact exclusive_add h hfree _
  | call hp hcode hanswer =>
      refine exclusive_update ?_ _ _
      cases treats_of_answer hanswer with
      | plain hprocess hzombie hwait hsignal =>
          intro q z hz
          rw [hprocess]
          exact h q z (hzombie ▸ hz)
      | raise => exact exclusive_update h _ _
      | die hp hblocks => exact exclusive_die h _ _
      | take hchoice hmember => exact exclusive_update h _ _
      | reap hzombie =>
          intro q z hz
          dsimp only at hz
          split at hz
          · cases hz
          · exact h q z hz
  | fork hp hcode hfree =>
      refine exclusive_add (exclusive_update h _ _) ⟨hfree.1, ?_, hfree.2.2⟩ _
      simp only [update, hfree.2.1, Option.map_none, ite_self]
  | exit hp hcode => exact exclusive_die h _ _
  | abort hp hcode => exact exclusive_die h _ _
  | crash hp => exact exclusive_die h _ _

/-- A `wait` reaps a zombie of the process, which then has no parent any more. -/
theorem reaped_of_step (h : s.Exclusive) {m : Nat} {choice : Choice} {p : Process}
    (hstep : s.step (.run m choice) = some s') (hp : s.process m = some p) (hnext : p.next = some .wait) :
    ∃ child status, s.zombie child = some (m, status) ∧ s'.parentOf child = none := by
  cases steps_of_step hstep with
  | call hp' hcode hanswer =>
      obtain rfl := Option.some.inj (hp'.symm.trans hp)
      obtain rfl := Option.some.inj ((next_of_code hcode).symm.trans hnext)
      cases treats_of_answer hanswer with
      | plain hprocess hzombie hwait hsignal => exact absurd rfl hwait
      | reap hzombie =>
          rename_i child status
          refine ⟨child, status, hzombie, ?_⟩
          simp only [parentOf, update, h child _ hzombie, Option.map_none, ite_self, if_true]
  | fork hp' hcode hfree =>
      obtain rfl := Option.some.inj (hp'.symm.trans hp)
      have hfork := (next_of_code hcode).symm.trans hnext
      cases hfork

end Host

end Robotd
