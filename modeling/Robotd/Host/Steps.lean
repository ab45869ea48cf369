import Robotd.Host.Pool

/-!
# What the steps of a host do

`steps_of_step` lists the actions and their effects, `answered_of_answer` says what a call may
answer and change, and `fate_of_step` where a process of the next state comes from.
-/

namespace Robotd

open Lib Lib.CLib
open Lib.Program (Protocol Conforms)

/-- The same process as far as its program goes. -/
structure Process.Same (p p' : Process) : Prop where
  argv : p'.argv = p.argv
  code : p'.code = p.code
  past : p'.past = p.past

theorem Process.Same.refl (p : Process) : p.Same p := ⟨rfl, rfl, rfl⟩

/-- What a call does to the files. -/
def Call.effect (fs : FileSystem) : Call → FileSystem
  | .fopen path mode => (fs.fopen path mode).2
  | .fwrite h text => fs.write h text
  | .unlink path => (fs.unlink path).2
  | .mkdir path => (fs.mkdir path).2
  | _ => fs

namespace Host

variable {s s' : Host}

/-- What a process may be answered. -/
def Answers (s : Host) (pid : Nat) (choice : Choice) : Event → Prop
  | ⟨.fopen path mode, r⟩ => r = (s.fs.fopen path mode).1
  | ⟨.fread h, text⟩ => text = s.fs.read h
  | ⟨.unlink path, r⟩ => r = (s.fs.unlink path).1
  | ⟨.readdirProc, names⟩ => s.listing ⊆ names
  | ⟨.getpid, n⟩ => n = pid
  | ⟨.fork, r⟩ => ∃ child : Nat, 0 < child ∧ r = .parent child
  | ⟨.sigwaitinfo set, r⟩ => ∃ signal ∈ set, r = .ok signal ∧ choice = .signal signal
  | ⟨.wait, r⟩ => ∃ status : WaitStatus, r = .ok status.raw
  | _ => True

/-- The processes of `s'` are processes of `s` at the same point of their programs. -/
def Shrinks (s s' : Host) : Prop :=
  ∀ q p', s'.process q = some p' → ∃ p, s.process q = some p ∧ p.Same p'

/-- The actions and their effects. -/
inductive Steps (s : Host) : Action → Host → Prop where
  | spawn {pid : Nat} {cwd : Path} {argv : List String} (hfree : s.Free pid) :
      Steps s (.spawn pid cwd argv) (s.add pid (.ofCommand cwd argv))
  | other {pid : Nat} (hfree : s.Free pid) : Steps s (.other pid) (s.add pid .other)
  | call {pid : Nat} {choice : Choice} {p : Process} {c : Call} {next : Response c → Sys Next}
      {r : Response c} {s' : Host} (hp : s.process pid = some p) (hcode : p.code = .call c next)
      (hanswer : s.answer pid choice c = some (r, s')) :
      Steps s (.run pid choice) (s'.update pid fun p => p.answered ⟨c, r⟩ (next r))
  | fork {pid child : Nat} {p : Process} {next : Response .fork → Sys Next}
      (hp : s.process pid = some p) (hcode : p.code = .call .fork next) (hfree : s.Free child) :
      Steps s (.run pid (.child child))
        ((s.update pid fun p => p.answered ⟨.fork, .parent child⟩ (next (.parent child))).add child
          (p.forked (next .child) pid))
  | exit {pid : Nat} {p : Process} {code : Int} (hp : s.process pid = some p)
      (hcode : p.code = .ret (.exit code)) :
      Steps s (.exit pid) (s.die pid (.exited (Fin.ofNat 256 (code % 256).toNat)))
  | abort {pid : Nat} {p : Process} {reason : Fault} {next : Response (.fault reason) → Sys Next}
      (hp : s.process pid = some p) (hcode : p.code = .call (.fault reason) next) :
      Steps s (.abort pid) (s.die pid (.signaled reason.signal false))
  | crash {pid : Nat} {status : WaitStatus} {p : Process} (hp : s.process pid = some p) :
      Steps s (.crash pid status) (s.die pid status)

theorem steps_of_call {pid : Nat} {choice : Choice} {p : Process} (hp : s.process pid = some p)
    (h : s.call pid choice p = some s') : Steps s (.run pid choice) s' := by
  cases hcode : p.code with
  | ret value => simp [call, hcode] at h
  | call c next =>
      by_cases hfork : c = .fork
      · subst hfork
        simp only [call, hcode] at h
        cases choice with
        | child child =>
            dsimp only at h
            split at h
            · rename_i hfree
              cases h
              exact .fork hp hcode hfree
            · cases h
        | _ => cases h
      · have hcall : s.call pid choice p = (s.answer pid choice c).bind fun x =>
            some (x.2.update pid fun p => p.answered ⟨c, x.1⟩ (next x.1)) := by
          rw [call, hcode]
          cases c <;> first | rfl | exact absurd rfl hfork
        rw [hcall] at h
        obtain ⟨⟨r, s₁⟩, hanswer, hs'⟩ := Option.bind_eq_some_iff.mp h
        cases hs'
        exact .call hp hcode hanswer

theorem steps_of_step {a : Action} (h : s.step a = some s') : Steps s a s' := by
  cases a with
  | spawn pid cwd argv =>
      simp only [step] at h
      split at h
      · rename_i hfree
        cases h
        exact .spawn hfree
      · cases h
  | other pid =>
      simp only [step] at h
      split at h
      · rename_i hfree
        cases h
        exact .other hfree
      · cases h
  | run pid choice =>
      obtain ⟨p, hp, hcall⟩ := Option.bind_eq_some_iff.mp h
      exact steps_of_call hp hcall
  | exit pid =>
      obtain ⟨p, hp, hexit⟩ := Option.bind_eq_some_iff.mp h
      split at hexit
      · rename_i code hcode
        cases hexit
        exact .exit hp hcode
      · cases hexit
  | abort pid =>
      obtain ⟨p, hp, habort⟩ := Option.bind_eq_some_iff.mp h
      split at habort
      · rename_i reason next hcode
        cases habort
        exact .abort hp hcode
      · cases habort
  | crash pid status =>
      obtain ⟨p, hp, hs'⟩ := Option.map_eq_some_iff.mp h
      cases hs'
      exact .crash hp

/-! ## Processes that end or get a signal -/

theorem Shrinks.refl (s : Host) : s.Shrinks s := fun _ p' h => ⟨p', h, .refl p'⟩

theorem Shrinks.trans {s₁ s₂ s₃ : Host} (h : s₁.Shrinks s₂) (h' : s₂.Shrinks s₃) :
    s₁.Shrinks s₃ := by
  intro q p₃ hp₃
  obtain ⟨p₂, hp₂, hsame⟩ := h' q p₃ hp₃
  obtain ⟨p₁, hp₁, hsame'⟩ := h q p₂ hp₂
  refine ⟨p₁, hp₁, ?_, ?_, ?_⟩
  · rw [hsame.argv, hsame'.argv]
  · rw [hsame.code, hsame'.code]
  · rw [hsame.past, hsame'.past]

/-- A change of one process that leaves its program alone. -/
theorem shrinks_update (s : Host) (pid : Nat) {f : Process → Process}
    (hf : ∀ p : Process, p.Same (f p)) : s.Shrinks (s.update pid f) := by
  intro q p' hp'
  simp only [update] at hp'
  split at hp'
  · obtain ⟨p, hp, rfl⟩ := Option.map_eq_some_iff.mp hp'
    exact ⟨p, hp, hf p⟩
  · exact ⟨p', hp', .refl p'⟩

theorem shrinks_raise (s : Host) (pid : Nat) (signal : Signal) :
    s.Shrinks (s.raise pid signal) := by
  refine shrinks_update s pid fun p => ?_
  split
  · exact ⟨rfl, rfl, rfl⟩
  · exact .refl p

theorem shrinks_remove (s : Host) (pid : Nat) (status : WaitStatus) :
    s.Shrinks (s.remove pid status) := by
  intro q p' hp'
  simp only [remove] at hp'
  split at hp'
  · cases hp'
  · obtain ⟨p, hp, rfl⟩ := Option.map_eq_some_iff.mp hp'
    refine ⟨p, hp, ?_⟩
    split
    · exact ⟨rfl, rfl, rfl⟩
    · exact .refl p

theorem shrinks_die (s : Host) (pid : Nat) (status : WaitStatus) :
    s.Shrinks (s.die pid status) := by
  unfold die
  split
  · exact (shrinks_remove s pid status).trans (shrinks_raise _ _ _)
  · exact shrinks_remove s pid status

theorem shrinks_kill (s : Host) (target : Int) (signal : Signal) :
    s.Shrinks (s.kill target signal).2 := by
  unfold kill
  split
  · split
    · exact shrinks_raise _ _ _
    · exact shrinks_die _ _ _
  · split <;> exact .refl s

@[simp] theorem die_fs (s : Host) (pid : Nat) (status : WaitStatus) :
    (s.die pid status).fs = s.fs := by
  unfold die
  split <;> rfl

@[simp] theorem die_pids (s : Host) (pid : Nat) (status : WaitStatus) :
    (s.die pid status).pids = s.pids := by
  unfold die
  split <;> rfl

@[simp] theorem kill_fs (s : Host) (target : Int) (signal : Signal) :
    (s.kill target signal).2.fs = s.fs := by
  unfold kill
  split
  · split
    · rfl
    · exact die_fs _ _ _
  · split <;> rfl

@[simp] theorem kill_pids (s : Host) (target : Int) (signal : Signal) :
    (s.kill target signal).2.pids = s.pids := by
  unfold kill
  split
  · split
    · rfl
    · exact die_pids _ _ _
  · split <;> rfl

/-! ## One call -/

/-- What an answered call has done. -/
structure Answered (s : Host) (pid : Nat) (choice : Choice) (e : Event) (s' : Host) : Prop where
  answers : s.Answers pid choice e
  fs : s'.fs = e.1.effect s.fs
  process : s.Shrinks s'
  pids : s'.pids = s.pids

theorem answered_of_answer {pid : Nat} {choice : Choice} {c : Call} {r : Response c}
    (h : s.answer pid choice c = some (r, s')) : s.Answered pid choice ⟨c, r⟩ s' := by
  cases c with
  | fopen path mode =>
      cases h
      exact ⟨rfl, rfl, .refl s, rfl⟩
  | fread h' =>
      cases h
      exact ⟨rfl, rfl, .refl s, rfl⟩
  | unlink path =>
      cases h
      exact ⟨rfl, rfl, .refl s, rfl⟩
  | fwrite h' text =>
      cases h
      exact ⟨trivial, rfl, .refl s, rfl⟩
  | mkdir path =>
      cases h
      exact ⟨trivial, rfl, .refl s, rfl⟩
  | stat path | print stream format args | sigprocmask set | updateLoggers =>
      cases h
      exact ⟨trivial, rfl, .refl s, rfl⟩
  | readdirProc =>
      cases choice with
      | listing extra =>
          cases h
          exact ⟨List.subset_append_left _ _, rfl, .refl s, rfl⟩
      | _ => cases h
  | fault reason => cases h
  | getpid =>
      cases h
      exact ⟨rfl, rfl, .refl s, rfl⟩
  | kill target signal =>
      have hkill : (s.kill target signal).2 = s' := congrArg Prod.snd (Option.some.inj h)
      rw [← hkill]
      exact ⟨trivial, kill_fs _ _ _, shrinks_kill s target signal, kill_pids _ _ _⟩
  | fork => cases h
  | setup what =>
      cases choice with
      | setup result =>
          cases h
          exact ⟨trivial, rfl, .refl s, rfl⟩
      | _ => cases h
  | sigwaitinfo set =>
      cases choice with
      | signal signal =>
          simp only [answer] at h
          split at h
          · rename_i hsignal
            cases h
            exact ⟨⟨signal, hsignal.1, rfl, rfl⟩, rfl, shrinks_update s pid fun p => ⟨rfl, rfl, rfl⟩, rfl⟩
          · cases h
      | _ => cases h
  | wait =>
      cases choice with
      | child child =>
          simp only [answer] at h
          split at h
          · split at h
            · cases h
              exact ⟨⟨_, rfl⟩, rfl, .refl s, rfl⟩
            · cases h
          · cases h
      | _ => cases h
  | loadConfig path =>
      cases choice with
      | load outcome =>
          cases h
          exact ⟨trivial, rfl, .refl s, rfl⟩
      | _ => cases h
  | registerServices =>
      cases choice with
      | services outcome =>
          cases h
          exact ⟨trivial, rfl, .refl s, rfl⟩
      | _ => cases h

/-! ## Where a process comes from -/

/-- A process has made a call: what it was before and is now. -/
structure Acted (p : Process) (e : Event) (p' : Process) : Prop where
  code : ∃ next, p.code = .call e.1 next ∧ p'.code = settle (next e.2)
  past : p'.past = p.past ++ [e]
  argv : p'.argv = p.argv

/-- Where a process `q` of the next state comes from. -/
inductive Fate (s : Host) (a : Action) (s' : Host) (q : Nat) (p' : Process) : Prop where
  | kept (p : Process) (hp : s.process q = some p) (hsame : p.Same p')
      (hother : ∀ choice, a ≠ .run q choice)
  | spawned (cwd : Path) (argv : List String) (ha : a = .spawn q cwd argv) (hfree : s.Free q)
      (hp' : p' = .ofCommand cwd argv)
  | other (ha : a = .other q) (hfree : s.Free q) (hp' : p' = .other)
  | acted (choice : Choice) (p : Process) (e : Event) (ha : a = .run q choice)
      (hp : s.process q = some p) (hacted : Acted p e p') (hanswers : s.Answers q choice e)
      (hfs : s'.fs = e.1.effect s.fs)
  | born (parent : Nat) (p : Process) (ha : a = .run parent (.child q)) (hfree : s.Free q)
      (hp : s.process parent = some p) (hparent : p'.parent = some parent)
      (hacted : Acted p ⟨.fork, .child⟩ p') (hfs : s'.fs = s.fs)

/-- A process after an addition is the new one or an old one. -/
theorem process_add {t : Host} {q new : Nat} {p p' : Process}
    (hq : (t.add new p).process q = some p') :
    q = new ∧ p' = p ∨ q ≠ new ∧ t.process q = some p' := by
  simp only [add] at hq
  split at hq
  · rename_i heq
    exact .inl ⟨heq, (Option.some.inj hq).symm⟩
  · rename_i hne
    exact .inr ⟨hne, hq⟩

theorem process_update {t : Host} {q pid : Nat} {p' : Process} {f : Process → Process}
    (hq : (t.update pid f).process q = some p') :
    (∃ p, q = pid ∧ t.process q = some p ∧ p' = f p) ∨ q ≠ pid ∧ t.process q = some p' := by
  simp only [update] at hq
  split at hq
  · rename_i heq
    obtain ⟨p, hp, rfl⟩ := Option.map_eq_some_iff.mp hq
    exact .inl ⟨p, heq, hp, rfl⟩
  · rename_i hne
    exact .inr ⟨hne, hq⟩

theorem Fate.of_shrinks {a : Action} {t : Host} {q : Nat} {p' : Process} (h : s.Shrinks t)
    (hother : ∀ choice, a ≠ .run q choice) (hq : t.process q = some p') : Fate s a s' q p' := by
  obtain ⟨p, hp, hsame⟩ := h q p' hq
  exact .kept p hp hsame hother

theorem fate_of_step {a : Action} {q : Nat} {p' : Process} (h : s.step a = some s')
    (hq : s'.process q = some p') : Fate s a s' q p' := by
  have hothers : ∀ {pid : Nat} {choice : Choice}, q ≠ pid →
      ∀ choice', Action.run pid choice ≠ .run q choice' := by
    intro pid choice hne choice' heq
    cases heq
    exact hne rfl
  cases steps_of_step h with
  | spawn hfree =>
      rename_i pid cwd argv
      rcases process_add hq with ⟨rfl, hp'⟩ | ⟨-, hold⟩
      · exact .spawned cwd argv rfl hfree hp'
      · exact .kept p' hold (.refl p') nofun
  | other hfree =>
      rcases process_add hq with ⟨rfl, hp'⟩ | ⟨-, hold⟩
      · exact .other rfl hfree hp'
      · exact .kept p' hold (.refl p') nofun
  | call hp hcode hanswer =>
      rename_i pid choice p c next r s₁
      have hanswered := answered_of_answer hanswer
      rcases process_update hq with ⟨p₁, rfl, hp₁, rfl⟩ | ⟨hne, hold⟩
      · obtain ⟨p₀, hp₀, hsame⟩ := hanswered.process q p₁ hp₁
        obtain rfl : p₀ = p := Option.some.inj (hp₀.symm.trans hp)
        refine .acted choice p₀ ⟨c, r⟩ rfl hp₀ ⟨⟨next, hcode, rfl⟩, ?_, hsame.argv⟩
          hanswered.answers hanswered.fs
        exact congrArg (· ++ [⟨c, r⟩]) hsame.past
      · exact .of_shrinks hanswered.process (hothers hne) hold
  | fork hp hcode hfree =>
      rename_i pid child p next
      rcases process_add hq with ⟨rfl, rfl⟩ | ⟨-, hold⟩
      · exact .born pid p rfl hfree hp rfl ⟨⟨next, hcode, rfl⟩, rfl, rfl⟩ rfl
      · rcases process_update hold with ⟨p₁, rfl, hp₁, rfl⟩ | ⟨hne, hold⟩
        · obtain rfl : p₁ = p := Option.some.inj (hp₁.symm.trans hp)
          exact .acted (.child child) p₁ ⟨.fork, .parent child⟩ rfl hp₁
            ⟨⟨next, hcode, rfl⟩, rfl, rfl⟩ ⟨child, hfree.1, rfl⟩ rfl
        · exact .kept p' hold (.refl p') (hothers hne)
  | exit hp hcode => exact .of_shrinks (shrinks_die s _ _) nofun hq
  | abort hp hcode => exact .of_shrinks (shrinks_die s _ _) nofun hq
  | crash hp => exact .of_shrinks (shrinks_die s _ _) nofun hq

/-- No number is struck off the list. -/
theorem pids_of_step {a : Action} (h : s.step a = some s') : s.pids ⊆ s'.pids := by
  cases steps_of_step h with
  | spawn hfree | other hfree => exact List.subset_cons_self _ _
  | call hp hcode hanswer =>
      rw [← (answered_of_answer hanswer).pids]
      exact List.Subset.refl _
  | fork hp hcode hfree => exact List.subset_cons_self _ _
  | exit hp hcode => rw [die_pids]; exact List.Subset.refl _
  | abort hp hcode => rw [die_pids]; exact List.Subset.refl _
  | crash hp => rw [die_pids]; exact List.Subset.refl _

theorem mem_pids_of_step {a : Action} (hlisted : ∀ q p, s.process q = some p → q ∈ s.pids)
    (h : s.step a = some s') {q : Nat} {p' : Process} (hq : s'.process q = some p') :
    q ∈ s'.pids := by
  cases fate_of_step h hq with
  | kept p hp hsame hother => exact pids_of_step h (hlisted q p hp)
  | acted choice p e ha hp hacted hanswers hfs => exact pids_of_step h (hlisted q p hp)
  | spawned cwd argv ha hfree hp' =>
      subst ha
      cases steps_of_step h
      exact List.mem_cons_self
  | other ha hfree hp' =>
      subst ha
      cases steps_of_step h
      exact List.mem_cons_self
  | born parent p ha hfree hp hparent hacted hfs =>
      subst ha
      obtain ⟨next, hcode, -⟩ := hacted.code
      cases steps_of_step h with
      | call hp' hcode' hanswer =>
          obtain rfl := Option.some.inj (hp'.symm.trans hp)
          rw [hcode] at hcode'
          cases hcode'
          cases hanswer
      | fork hp' hcode' hfree' => exact List.mem_cons_self

end Host

end Robotd
