import Robotd.Host.Decision

/-!
# Every process keeps the protocol

The constructor of `daemon`, `daemonize`, `set_pid_file` and the loops keep the protocol `life`, and
so does every command as a whole (`conforms_command`). `lawful_step` says that all the processes of
a host do, whichever of them makes the step.
-/

namespace Robotd

open Lib Lib.CLib Cli
open Lib.Program (Protocol Conforms)

section Code

variable {option : String}

/-- The same with an `exit` on the way. -/
def Life.Ends (φ : Life) : Except Int Next → Prop
  | .ok next => φ.Rests next
  | .error code => φ.Rests (.exit code)

/-- A message of the daemon in front of the rest of its code. -/
theorem life_log {α : Type} {stream : Stream} {format : String} {args : List String} {φ : Life}
    {next : Unit → Sys α} {post : Life → α → Prop}
    (hallows : φ.allows option (.print stream format args))
    (hnext : Conforms (life option) post φ (next ())) :
    Conforms (life option) post φ (.call (.print stream format args) next) := by
  refine ⟨hallows, fun r _ => ?_⟩
  have hsame : (life option).after φ ⟨.print stream format args, r⟩ = φ := after_talks rfl φ r
  rw [hsame]
  exact hnext

theorem conforms_createPidFile : Conforms (life option) (fun ψ r => match r with
    | .ok _ => ψ = .registered
    | .error _ => ψ.Outside) .registering createPidFile.run := by
  rw [createPidFile, Proc.run_make_bind]
  refine ⟨.inr (.inr (.inr (.inr rfl))), fun r hr => ?_⟩
  cases r with
  | error e => exact life_log (.inl rfl) trivial
  | ok f => exact ⟨rfl, fun n _ => ⟨rfl, fun _ _ => rfl⟩⟩

theorem conforms_setPidFile : Conforms (life option) (fun ψ r => match r with
    | .ok _ => ψ = .registered
    | .error _ => ψ.Outside) .registering setPidFile.run := by
  rw [setPidFile, Proc.run_make_bind]
  refine ⟨.inr (.inr (.inl rfl)), fun r _ => ?_⟩
  cases r with
  | error e => exact conforms_createPidFile
  | ok f =>
      refine ⟨.inr (.inr (.inr (.inl rfl))), fun r _ => ?_⟩
      exact conforms_createPidFile

theorem conforms_prepare (steps : List (Setup × String)) : Conforms (life option)
    (fun ψ r => ψ = .registering ∧ ∃ failed, r = .ok failed) .registering (prepare steps).run := by
  induction steps with
  | nil => exact ⟨rfl, none, rfl⟩
  | cons first rest ih =>
      rw [prepare, Proc.run_make_bind]
      refine ⟨.inr (.inl ⟨first.1, rfl⟩), fun r _ => ?_⟩
      cases r with
      | ok done => exact ih
      | error e => exact life_log (.inl rfl) ⟨rfl, some e, rfl⟩

/-- `daemonize` returns 0 after `set_pid_file`. -/
theorem conforms_daemonize : Conforms (life option) (fun ψ r => ψ.Outside ∧
    (r = .ok 0 → ψ = .registered)) .starting daemonize.run := by
  rw [daemonize, Proc.run_make_bind]
  refine ⟨.inr rfl, fun r hr => ?_⟩
  rcases hr.1 with rfl | ⟨pid, -, rfl⟩
  · dsimp only
    rw [Proc.conforms_bind]
    refine (conforms_prepare _).mono fun ψ r hprepared => ?_
    obtain ⟨rfl, failed, rfl⟩ := hprepared
    dsimp only
    cases failed with
    | some e =>
        refine ⟨trivial, fun hzero => ?_⟩
        exact absurd (Int.natCast_eq_zero.mp (Except.ok.inj hzero)) e.2
    | none =>
        dsimp only
        rw [Proc.conforms_bind]
        refine conforms_setPidFile.mono fun ψ r hset => ?_
        cases r with
        | ok done =>
            obtain rfl : ψ = .registered := hset
            exact ⟨trivial, fun _ => rfl⟩
        | error code => exact ⟨hset, nofun⟩
  · exact ⟨trivial, nofun⟩

theorem opens_allows {φ : Life} (h : φ.Opens) (path : Path) : φ.allows option (.loadConfig path) := by
  cases φ with
  | vacant | wordless | told => exact .inr ⟨path, rfl⟩
  | numbered text => exact .inr (.inr ⟨⟨path, rfl⟩, h⟩)
  | _ => exact absurd h id

theorem opens_after {φ : Life} (h : φ.Opens) {path : Path} (r : Response (.loadConfig path)) :
    φ.after ⟨.loadConfig path, r⟩ = .starting := by
  cases φ with
  | vacant | wordless | told | numbered => rfl
  | _ => exact absurd h id

/-- The constructor of `daemon` returns after `set_pid_file`. -/
theorem conforms_daemon {φ : Life} (h : φ.Opens) (config : Path) : Conforms (life option)
    (fun ψ r => match r with
      | .ok _ => ψ = .registered
      | .error _ => ψ.Outside) φ (daemon config).run := by
  rw [daemon, Proc.run_make_bind]
  refine ⟨opens_allows h config, fun r _ => ?_⟩
  have hafter : (life option).after φ ⟨.loadConfig config, r⟩ = .starting := opens_after h r
  rw [hafter]
  cases r with
  | thrown => exact ⟨.inl rfl, fun r => Empty.elim r⟩
  | returned ret hasLogger =>
      dsimp only
      by_cases hret : ret ≠ 0
      · rw [if_pos hret]
        cases hasLogger with
        | true => exact life_log (.inl rfl) trivial
        | false => exact ⟨.inl rfl, fun r => Empty.elim r⟩
      · rw [if_neg hret, Proc.conforms_bind]
        refine conforms_daemonize.mono fun ψ r hdone => ?_
        cases r with
        | error code => exact hdone.1
        | ok ret =>
            dsimp only
            by_cases hzero : ret ≠ 0
            · rw [if_pos hzero]
              exact hdone.1
            · rw [if_neg hzero]
              obtain rfl : ret = 0 := not_not.mp hzero
              obtain rfl := hdone.2 rfl
              exact life_log (.inl rfl) rfl

/-- The loops of the monitor and of the master keep the protocol as they keep `supervision`. -/
theorem conforms_monitoring {α : Type} {code : Sys α} {watch : Watch} {post : Watch → α → Prop}
    {post' : Life → α → Prop} (h : Conforms supervision post watch code)
    (hpost : ∀ watch a, post watch a → post' (.monitoring watch) a) :
    Conforms (life option) post' (.monitoring watch) code := by
  induction code generalizing watch with
  | ret a => exact hpost watch a h
  | call c next ih => exact ⟨h.1, fun r hr => ih r (h.2 r hr.1)⟩

theorem conforms_monitorProc :
    Conforms (life option) Life.Ends .registered monitorProc.run := by
  rw [monitorProc, Proc.run_make_bind]
  refine ⟨.inr rfl, fun r _ => ?_⟩
  have hafter : (life option).after .registered ⟨.sigprocmask monitorSignals, r⟩ =
    .monitoring .forking := rfl
  rw [hafter]
  exact .inl ⟨rfl, rfl⟩

theorem conforms_main (cwd : Path) (argv : List String) :
    Conforms (life (argument argv 1)) Life.Ends .arriving (main cwd argv).run := by
  rw [main, Proc.conforms_bind, ExceptT.run_lift, map_eq_pure_bind, Program.conforms_bind]
  have hparse : Keeps (life (argument argv 1)) (parseOptions cwd argv) ⟨defaultConfigFile, 0⟩
      .arriving fun ψ ret _ => ψ.Decided ret := keeps_parseOptions cwd argv
  refine Program.Conforms.mono hparse fun ψ out hdecided => ?_
  obtain ⟨ret, g⟩ := out
  show Conforms (life (argument argv 1)) Life.Ends ψ (if ret < 0 then pure (Next.exit exitFailure)
    else if 0 < ret then pure (Next.exit exitSuccess)
    else do
      daemon g.configFile
      monitorProc : Proc Next).run
  by_cases hnegative : ret < 0
  · rw [if_pos hnegative]
    exact hdecided.1.rests exitFailure
  by_cases hpositive : 0 < ret
  · rw [if_neg hnegative, if_pos hpositive]
    exact hdecided.1.rests exitSuccess
  rw [if_neg hnegative, if_neg hpositive, Proc.conforms_bind]
  have hzero : ret = 0 := by omega
  refine (conforms_daemon (hdecided.2 hzero) _).mono fun ψ r hdone => ?_
  cases r with
  | error code => exact Life.Outside.rests hdone code
  | ok done =>
      obtain rfl : ψ = .registered := hdone
      exact conforms_monitorProc

/-- Every command keeps the protocol. -/
theorem conforms_command (cwd : Path) (argv : List String) :
    Conforms (life (argument argv 1)) Life.Rests .arriving (main cwd argv).program := by
  refine Program.Conforms.seq (conforms_main cwd argv) fun ψ r hr => ?_
  cases r with
  | ok next => exact hr
  | error code => exact hr

/-- The next piece of code keeps the protocol. -/
theorem conforms_next {φ : Life} {next : Next} {code : Sys Next} (h : φ.Rests next)
    (hresume : next.resume = some code) : Conforms (life option) Life.Rests φ code := by
  cases φ with
  | monitoring watch =>
      exact conforms_monitoring (conforms_resume h hresume) fun watch next hrests => hrests
  | _ =>
      obtain ⟨code, rfl⟩ := h
      cases hresume

end Code

/-! ## Protocols of all processes -/

/-- A protocol for each option, which the commands keep and so does each next piece of code. -/
structure Discipline where
  protocol : String → Protocol Call Response
  start : ∀ option, (protocol option).Phase
  rests : ∀ option, (protocol option).Phase → Next → Prop
  command : ∀ cwd argv, Conforms (protocol (argument argv 1)) (rests (argument argv 1))
    (start (argument argv 1)) (main cwd argv).program
  other : ∀ option, rests option (start option) (.exit exitSuccess)
  resume : ∀ option φ next code, rests option φ next → next.resume = some code →
    Conforms (protocol option) (rests option) φ code
  expects : ∀ option φ e, Life.Expects e → (protocol option).expects φ e

theorem life_exits (_ : String) : Life.arriving.Rests (.exit exitSuccess) := ⟨exitSuccess, rfl⟩

/-- The protocol `life`. -/
def Discipline.life : Discipline where
  protocol := Robotd.life
  start _ := .arriving
  rests _ := Life.Rests
  command := conforms_command
  other := life_exits
  resume _ _ _ _ := conforms_next
  expects _ _ _ h := h

/-- The command that a process has been started with. -/
def Process.option (p : Process) : String := argument p.argv 1

/-- The process has kept the protocol so far and goes on so. -/
def Process.Obeys (p : Process) (D : Discipline) : Prop :=
  Conforms (D.protocol p.option) (D.rests p.option)
    (p.past.foldl (D.protocol p.option).after (D.start p.option)) p.code

theorem Discipline.settle (D : Discipline) {option : String} {φ : (D.protocol option).Phase}
    {code : Sys Next} (h : Conforms (D.protocol option) (D.rests option) φ code) :
    Conforms (D.protocol option) (D.rests option) φ (settle code) := by
  cases code with
  | call c next => exact h
  | ret next =>
      cases hresume : next.resume with
      | none => simpa only [Robotd.settle, hresume, Option.getD_none] using h
      | some code =>
          simp only [Robotd.settle, hresume, Option.getD_some]
          exact D.resume option φ next code h hresume

section Obeys

variable {D : Discipline} {p p' : Process}

theorem Process.Same.option (h : p.Same p') : p'.option = p.option := by
  rw [Process.option, Process.option, h.argv]

theorem Process.Obeys.same (h : p.Obeys D) (hsame : p.Same p') : p'.Obeys D := by
  unfold Process.Obeys at h ⊢
  rwa [hsame.option, hsame.past, hsame.code]

theorem option_of_acted {e : Event} (h : Host.Acted p e p') : p'.option = p.option := by
  rw [Process.option, Process.option, h.argv]

theorem Process.Obeys.acted {e : Event} (h : p.Obeys D) (hacted : Host.Acted p e p')
    (hexpects : Life.Expects e) : p'.Obeys D := by
  obtain ⟨next, hcode, hcode'⟩ := hacted.code
  unfold Process.Obeys at h ⊢
  rw [hcode] at h
  rw [option_of_acted hacted, hacted.past, List.foldl_append, hcode']
  exact D.settle (h.2 e.2 (D.expects _ _ e hexpects))

end Obeys

/-! ## The processes of a host -/

/-- How far a process has come. -/
def Process.phase (p : Process) : Life := p.past.foldl Life.after .arriving

theorem phase_snoc {p p' : Process} {e : Event} (h : p'.past = p.past ++ [e]) :
    p'.phase = p.phase.after e := by
  rw [Process.phase, h, List.foldl_append]
  rfl

theorem Process.Same.phase {p p' : Process} (h : p.Same p') : p'.phase = p.phase := by
  rw [Process.phase, Process.phase, h.past]

/-- The next call of a process. -/
def Process.next (p : Process) : Option Call :=
  match p.code with
  | .call c _ => some c
  | .ret _ => none

theorem next_of_code {p : Process} {c : Call} {next : Response c → Sys Next}
    (h : p.code = .call c next) : p.next = some c := by
  rw [Process.next, h]

/-- The process keeps the protocol. -/
def Process.Lawful (p : Process) : Prop := Conforms (life p.option) Life.Rests p.phase p.code

theorem allows_of_next {p : Process} {c : Call} (h : p.Lawful) (hnext : p.next = some c) :
    p.phase.allows p.option c := by
  unfold Process.Lawful at h
  unfold Process.next at hnext
  cases hcode : p.code with
  | ret next =>
      rw [hcode] at hnext
      cases hnext
  | call c' next =>
      rw [hcode] at h hnext
      cases hnext
      exact h.1

namespace Host

variable {s s' : Host}

/-- All processes keep the protocol, and are listed. -/
structure Lawful (s : Host) : Prop where
  process : ∀ pid p, s.process pid = some p → p.Lawful
  listed : ∀ pid p, s.process pid = some p → pid ∈ s.pids

/-- The answers of a host are those that a process relies on. -/
theorem expects_of_answers {pid : Nat} {choice : Choice} {e : Event}
    (h : s.Answers pid choice e) : Life.Expects e := by
  obtain ⟨c, r⟩ := e
  refine ⟨?_, ?_⟩
  · cases c with
    | fork => exact .inr h
    | sigwaitinfo set =>
        obtain ⟨signal, hmem, hr, -⟩ := h
        exact ⟨signal, hmem, hr⟩
    | wait => exact h
    | _ => trivial
  · cases c with
    | fopen path mode =>
        cases r with
        | error e => trivial
        | ok f => cases mode with
            | r => exact (FileSystem.openRead_ok (Eq.symm h)).1
            | w =>
                have hopen : s.fs.openWrite path = (.ok f, (s.fs.openWrite path).2) :=
                  Prod.ext (Eq.symm h) rfl
                exact (FileSystem.openWrite_ok hopen).1
    | _ => trivial

/-- The processes keep a protocol in every step. -/
theorem obeys_of_step {D : Discipline} {a : Action} (h : ∀ pid p, s.process pid = some p → p.Obeys D)
    (hstep : s.step a = some s') {pid : Nat} {p' : Process} (hp' : s'.process pid = some p') :
    p'.Obeys D := by
  cases fate_of_step hstep hp' with
  | kept p hp hsame hother => exact (h pid p hp).same hsame
  | spawned cwd argv ha hfree heq =>
      subst heq
      exact D.settle (D.command cwd argv)
  | other ha hfree heq =>
      subst heq
      exact D.other _
  | acted choice p e ha hp hacted hanswers hfs =>
      exact (h pid p hp).acted hacted (expects_of_answers hanswers)
  | born parent p ha hfree hp hparent hacted hfs =>
      exact (h parent p hp).acted hacted ⟨.inl rfl, trivial⟩

/-- What a lawful process may do next. -/
theorem moves_of_lawful {p : Process} {e : Event} {next : Response e.1 → Sys Next}
    (h : p.Lawful) (hcode : p.code = .call e.1 next) (hexpects : Life.Expects e) :
    Life.Moves p.option p.phase e (p.phase.after e) := by
  unfold Process.Lawful at h
  rw [hcode] at h
  exact Life.moves h.1 hexpects

/-- What a process of the next state has come from, in a host whose processes keep the protocol. -/
inductive Course (s : Host) (a : Action) (s' : Host) (q : Nat) (p' : Process) : Prop where
  | kept (p : Process) (hp : s.process q = some p) (hphase : p'.phase = p.phase)
      (hoption : p'.option = p.option) (hother : ∀ choice, a ≠ .run q choice)
  | spawned (cwd : Path) (argv : List String) (ha : a = .spawn q cwd argv) (hfree : s.Free q)
      (hphase : p'.phase = .arriving) (hoption : p'.option = argument argv 1)
  | other (ha : a = .other q) (hfree : s.Free q) (hphase : p'.phase = .arriving)
      (hoption : p'.option = argument [] 1)
  | acted (choice : Choice) (p : Process) (e : Event) (ha : a = .run q choice)
      (hp : s.process q = some p) (hnext : p.next = some e.1)
      (hmoves : Life.Moves p.option p.phase e p'.phase) (hoption : p'.option = p.option)
      (hanswers : s.Answers q choice e) (hfs : s'.fs = e.1.effect s.fs)
  | born (parent : Nat) (p : Process) (ha : a = .run parent (.child q)) (hfree : s.Free q)
      (hp : s.process parent = some p) (hnext : p.next = some .fork)
      (hparent : p'.parent = some parent) (hoption : p'.option = p.option)
      (hphases : p.phase = .starting ∧ p'.phase = .registering ∨
        p.phase = .monitoring .forking ∧ p'.phase = .monitoring .master) (hfs : s'.fs = s.fs)

theorem course_of_step (hlawful : s.Lawful) {a : Action} (hstep : s.step a = some s') {q : Nat}
    {p' : Process} (hp' : s'.process q = some p') : Course s a s' q p' := by
  cases fate_of_step hstep hp' with
  | kept p hp hsame hother => exact .kept p hp hsame.phase hsame.option hother
  | spawned cwd argv ha hfree heq => exact .spawned cwd argv ha hfree (heq ▸ rfl) (heq ▸ rfl)
  | other ha hfree heq => exact .other ha hfree (heq ▸ rfl) (heq ▸ rfl)
  | acted choice p e ha hp hacted hanswers hfs =>
      obtain ⟨next, hcode, -⟩ := hacted.code
      have hmoves := moves_of_lawful (hlawful.process q p hp) hcode (expects_of_answers hanswers)
      rw [← phase_snoc hacted.past] at hmoves
      exact .acted choice p e ha hp (next_of_code hcode) hmoves (option_of_acted hacted) hanswers hfs
  | born parent p ha hfree hp hparent hacted hfs =>
      obtain ⟨next, hcode, -⟩ := hacted.code
      have hmoves := moves_of_lawful (hlawful.process parent p hp) hcode ⟨.inl rfl, trivial⟩
      rw [← phase_snoc hacted.past] at hmoves
      exact .born parent p ha hfree hp (next_of_code hcode) hparent (option_of_acted hacted)
        (Life.moves_child hmoves) hfs

/-- What changes the files: a call of a process that keeps the protocol, and the phase the call
leaves that process in. -/
theorem act_of_step (hlawful : s.Lawful) {a : Action} (hstep : s.step a = some s') :
    s'.fs = s.fs ∨ ∃ pid choice p e, a = .run pid choice ∧ s.process pid = some p ∧
      p.next = some e.1 ∧ Life.Moves p.option p.phase e (p.phase.after e) ∧
      s.Answers pid choice e ∧ s'.fs = e.1.effect s.fs ∧
      ∀ p', s'.process pid = some p' → p'.phase = p.phase.after e := by
  cases steps_of_step hstep with
  | call hp hcode hanswer =>
      rename_i pid choice p c next r t
      have hanswered := answered_of_answer hanswer
      have hmoves : Life.Moves p.option p.phase ⟨c, r⟩ (p.phase.after ⟨c, r⟩) :=
        moves_of_lawful (hlawful.process pid p hp) hcode (expects_of_answers hanswered.answers)
      refine .inr ⟨pid, choice, p, ⟨c, r⟩, rfl, hp, next_of_code hcode, hmoves, hanswered.answers,
        hanswered.fs, fun p' hp' => ?_⟩
      rcases process_update hp' with ⟨q, -, hq, rfl⟩ | ⟨hne, -⟩
      · obtain ⟨p₀, hp₀, hsame⟩ := hanswered.process pid q hq
        obtain rfl : p₀ = p := Option.some.inj (hp₀.symm.trans hp)
        rw [← hsame.phase]
        exact phase_snoc rfl
      · exact absurd rfl hne
  | spawn | other | fork => exact .inl rfl
  | exit | abort | crash => exact .inl (die_fs s _ _)

/-- The same without what becomes of the process. -/
theorem effect_of_step (hlawful : s.Lawful) {a : Action} (hstep : s.step a = some s') :
    s'.fs = s.fs ∨ ∃ pid choice p e φ, a = .run pid choice ∧ s.process pid = some p ∧
      p.next = some e.1 ∧ Life.Moves p.option p.phase e φ ∧ s.Answers pid choice e ∧
      s'.fs = e.1.effect s.fs := by
  refine (act_of_step hlawful hstep).imp id ?_
  intro ⟨pid, choice, p, e, ha, hp, hnext, hmoves, hanswers, hfs, _⟩
  exact ⟨pid, choice, p, e, _, ha, hp, hnext, hmoves, hanswers, hfs⟩

theorem lawful_step {a : Action} (h : s.Lawful) (hstep : s.step a = some s') : s'.Lawful where
  process _ _ := obeys_of_step (D := .life) h.process hstep
  listed _ _ := mem_pids_of_step h.listed hstep

/-- `/proc` lists every process. -/
theorem listed_of_process (hlawful : s.Lawful) {pid : Nat} {p : Process}
    (hp : s.process pid = some p) : String.ofList (decimal pid) ∈ s.listing := by
  refine List.mem_map.mpr ⟨pid, List.mem_filter.mpr ⟨hlawful.listed pid p hp, ?_⟩, rfl⟩
  rw [hp]
  rfl

/-- A host without processes. -/
def Idle (s : Host) : Prop := ∀ pid, s.process pid = none

theorem lawful_idle (h : s.Idle) : s.Lawful := by
  refine ⟨fun pid p hp => ?_, fun pid p hp => ?_⟩ <;> rw [h pid] at hp <;> cases hp

end Host

end Robotd
