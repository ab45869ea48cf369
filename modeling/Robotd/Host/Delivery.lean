import Robotd.Host.Switch

/-!
# No configuration is lost

What was flushed last is on its way to the daemon: the `load` that has flushed it has yet to send
its SIGHUP, or the signal pends, or the daemon is reloading (`Recorded`). `delivered` shows that
each `load` sends its SIGHUP and that the daemon ends on what was flushed last, as long as no `load`
reads `CONFIG_LOAD` while it holds no word. It holds none between the truncation and the flush of
another `load`, and the one that reads it then does not come to its SIGHUP (`switch_lost`).
-/

namespace Robotd

open Lib Lib.CLib Cli
open Lib.Program (Protocol Conforms)

namespace Vigil

/-- The process has loaded the path last, or will read it in `CONFIG_LOAD`. -/
def Learns (fs : FileSystem) (path : Path) (loaded : Option Path) : Vigil → Prop
  | outside => False
  | idle => loaded = some path
  | hung => True
  | opened file => OpenOn fs configLoad file
  | read text => String.ofList (getLine text) = path

end Vigil

namespace Host

variable {s s' : Host} {d : Nat} {a : Action} {q : Nat} {p p' : Process} {task : Task} {c : Call}
  {e : Event} {choice : Choice} {flushed : Option (List Char)}

/-- A `load` has come to a point of this kind. -/
def Reaches (s : Host) (d : Nat) (point : Errand → Prop) : Prop :=
  ∃ q p task, q ≠ d ∧ s.process q = some p ∧ Runs d s.fs task p ∧ point p.errand

/-- A `load` has truncated `CONFIG_LOAD`. -/
def Writes (s : Host) (d : Nat) : Prop := s.Reaches d fun φ => ∃ file, φ = .opened file

/-- A `load` has yet to send its SIGHUP. -/
def Signals (s : Host) (d : Nat) : Prop := s.Reaches d (· = .flushed)

/-- The daemon has the path or is going to get it. -/
def Learns (s : Host) (d : Nat) (path : Path) : Prop :=
  ∃ p, s.process d = some p ∧ (.sighup ∈ p.pending ∨ p.vigil.Learns s.fs path p.loaded)

/-- The text last flushed is the line of a path. Unless another is on its way, `CONFIG_LOAD` begins
with it, and the daemon has it, is going to get it or will be told. -/
def Recorded (s : Host) (d : Nat) (text : List Char) : Prop :=
  ∃ path, Session.Plain path ∧ text = path.toList ++ ['\n'] ∧ (s.Writes d ∨
    (∃ rest, (s.fs.file configLoad).content = some (text ++ rest)) ∧ (s.Signals d ∨ s.Learns d path))

/-! ### The record -/

/-- A `load` does not end before it has sent its SIGHUP. -/
theorem Switching.lives (h : s.Switching d) (hswitches : Ledger.Switches d ⟨s, flushed⟩ a)
    (hstep : s.step a = some s') (hq : q ≠ d) (hp : s.process q = some p) (hruns : Runs d s.fs task p)
    (hsent : p.errand ≠ .sent) : ∃ p', s'.process q = some p' := by
  rcases lives_of_step hstep hp with hends | hlives
  · cases hends with
    | exit hcode => exact absurd (hruns.sent_of_ret hcode) hsent
    | crash status => exact absurd hruns.loads (hswitches.1 p hp).not_loads
    | killed hr hnext htarget hblocks =>
        -- whoever sends a signal sends it to a child of the daemon or to the daemon
        rcases h.target hr hnext with hchild | hdaemon
        · rw [htarget, parentOf_live hp, hruns.orphan] at hchild
          cases hchild
        · exact absurd (htarget.symm.trans hdaemon) hq
    | abort hnext => exact absurd (hruns.next hnext) (Errand.next_ne_fault _ _ _)
  · exact hlives

/-- A `load` that makes no call in this step stays where it is. -/
theorem Switching.stays (h : s.Switching d) (hswitches : Ledger.Switches d ⟨s, flushed⟩ a)
    (hstep : s.step a = some s') (hq : q ≠ d) (hp : s.process q = some p) (hruns : Runs d s.fs task p)
    (hsent : p.errand ≠ .sent) (hother : ∀ choice, a ≠ .run q choice) :
    ∃ p', s'.process q = some p' ∧ Runs d s'.fs task p' ∧ p'.errand = p.errand := by
  obtain ⟨p', hp'⟩ := h.lives hswitches hstep hq hp hruns hsent
  refine ⟨p', hp', ?_⟩
  cases fate_of_step hstep hp' with
  | kept r hr hsame _ =>
      obtain rfl : p = r := Option.some.inj (hp.symm.trans hr)
      refine ⟨hruns.same (h.steady hstep).1 hsame (orphan_step hstep hp hp' hruns.orphan), ?_⟩
      rw [Process.errand, Process.errand, hsame.past]
  | spawned cwd argv ha hfree heq | other ha hfree heq | born parent r ha hfree =>
      rw [hfree.2.1] at hp
      cases hp
  | acted choice r e ha => exact absurd ha (hother choice)

/-- A `load` at its next point. -/
theorem Switching.goes (h : s.Switching d)
    (hswitches : Ledger.Switches d ⟨s, flushed⟩ (.run q choice))
    (hlegible : Ledger.Legible ⟨s, flushed⟩ (.run q choice))
    (hstep : s.step (.run q choice) = some s') (hq : q ≠ d) (hp : s.process q = some p)
    (hruns : Runs d s.fs task p) (hnext : p.next = some c) : ∃ p' e, s'.process q = some p' ∧
      e.1 = c ∧ s.Answers q choice e ∧ Runs d s'.fs task p' ∧ p'.errand = p.errand.after e ∧
      s'.fs = c.effect s.fs := by
  have hsent : p.errand ≠ .sent := by
    intro hsent
    have hcall := hruns.next hnext
    rw [hsent] at hcall
    cases hcall
  obtain ⟨p', hp'⟩ := h.lives hswitches hstep hq hp hruns hsent
  cases fate_of_step hstep hp' with
  -- the process acts in this step, and it is not a new one
  | kept r hr hsame hother => exact absurd rfl (hother choice)
  | spawned cwd argv ha | other ha => cases ha
  | acted choice' r e ha hr hacted hanswers hfs =>
      cases ha
      obtain rfl : p = r := Option.some.inj (hp.symm.trans hr)
      obtain ⟨next, hcode, -⟩ := hacted.code
      obtain rfl := Option.some.inj ((next_of_code hcode).symm.trans hnext)
      exact ⟨p', e, hp', rfl, hanswers, h.runs_acted hlegible hstep hp hp' hruns hacted hanswers hfs,
        errand_snoc hacted.past, hfs⟩
  | born parent r ha hfree =>
      rw [hfree.2.1] at hp
      cases hp

/-- The daemon on its way to the path. -/
theorem learns_after {v : Vigil} {path : Path} {rest : List Char} (hserved : Served d s.fs)
    (hplain : Session.Plain path)
    (hcontent : (s.fs.file configLoad).content = some (path.toList ++ ['\n'] ++ rest))
    (hallows : v.allows e.1) (hanswers : s.Answers q choice e) (hpast : p'.past = p.past ++ [e])
    (h : v.Learns s.fs path p.loaded) : (v.after e).Learns s.fs path p'.loaded := by
  have hloaded := loaded_snoc hpast
  obtain ⟨c, r⟩ := e
  cases v with
  | outside => exact absurd h id
  | idle =>
      -- nothing is loaded before the next SIGHUP
      have hnone : loadedBy ⟨c, r⟩ = none := by
        cases c with
        | loadConfig path => exact absurd rfl (hallows path)
        | _ => rfl
      rw [hnone, Option.none_or] at hloaded
      have hafter : Vigil.idle.after ⟨c, r⟩ = .hung ∨ Vigil.idle.after ⟨c, r⟩ = .idle := by
        unfold Vigil.after
        split <;> first | exact .inl rfl | exact .inr rfl | contradiction
      rcases hafter with hhung | hidle
      · rw [hhung]
        trivial
      · rw [hidle]
        exact hloaded.trans h
  | hung =>
      obtain rfl : c = .fopen configLoad .r := hallows
      obtain ⟨file, hopen, -⟩ := FileSystem.openRead_of_content hserved.readable hcontent
      obtain rfl : r = .ok file := hanswers.trans hopen
      exact FileSystem.openRead_ok hopen
  | opened file =>
      obtain rfl : c = .fread file := hallows
      -- the handle is open on the file that holds the line
      obtain rfl : r = s.fs.read file := hanswers
      have hread := Option.some.inj ((content_of_openOn h).symm.trans hcontent)
      show String.ofList (getLine (s.fs.read file)) = path
      rw [hread, (readers_of_line hplain rest).2, String.ofList_toList]
  | read text =>
      rcases hallows with rfl | ⟨reason, rfl⟩
      · exact hloaded.trans (congrArg some h)
      · exact Empty.elim r

/-- A monitor that waits for a signal has no reload to make. -/
theorem idle_of_waits {v : Vigil} {set : List Signal} (hinside : v ≠ .outside)
    (hallows : v.allows (.sigwaitinfo set)) : v = .idle := by
  cases v with
  | outside => exact absurd rfl hinside
  | idle => rfl
  | hung | opened => cases hallows
  | read text => rcases hallows with hload | ⟨reason, hfault⟩ <;> contradiction

/-- A process that is there after the step has not ended in it. -/
theorem not_ends (hstep : s.step a = some s') (hp' : s'.process q = some p')
    (hblocks : ∀ signal, p.blocks signal = true) : ¬s.Ends q p a := by
  intro hends
  cases hends with
  | exit hcode =>
      cases steps_of_step hstep
      rw [process_die_self] at hp'
      cases hp'
  | crash status | abort hnext =>
      cases steps_of_step hstep
      rw [process_die_self] at hp'
      cases hp'
  | killed hr hnext htarget hnot =>
      rw [hblocks] at hnot
      cases hnot

theorem learns_steady {fs fs' : FileSystem} (hsteady : Steady fs fs') {v : Vigil} {path : Path}
    {loaded : Option Path} (h : v.Learns fs path loaded) : v.Learns fs' path loaded := by
  cases v with
  | opened file => exact hsteady.openOn h
  | _ => exact h

/-- The daemon keeps the path in sight, whoever makes the step. -/
theorem Switching.learns_step (h : s.Switching d) (hswitches : Ledger.Switches d ⟨s, flushed⟩ a)
    (hstep : s.step a = some s') {path : Path} (hplain : Session.Plain path) {rest : List Char}
    (hcontent : (s.fs.file configLoad).content = some (path.toList ++ ['\n'] ++ rest))
    (hlearns : s.Learns d path) : s'.Learns d path := by
  obtain ⟨p, hp, hlearns⟩ := hlearns
  obtain ⟨p', hp', -⟩ := hswitches.2 s' hstep
  obtain ⟨r, hr, hloops⟩ := h.daemon
  obtain rfl : p = r := Option.some.inj (hp.symm.trans hr)
  have hblocks : ∀ signal, p.blocks signal = true := fun signal =>
    (h.sound.masked.blocks d p hp signal).mpr hloops.inside
  have hsteady := (h.steady hstep).1
  have honward : (a = .run d (.signal .sighup) ∧ ∃ set, p.next = some (.sigwaitinfo set)) ∨
      p.Onward .sighup p' := by
    rcases onward_of_step hstep hp with hends | htaken | ⟨r, hr', honward⟩
    · exact absurd hends (not_ends hstep hp' hblocks)
    · exact .inl htaken
    · obtain rfl : r = p' := Option.some.inj (hr'.symm.trans hp')
      exact .inr honward
  refine ⟨p', hp', ?_⟩
  cases fate_of_step hstep hp' with
  | spawned cwd argv ha hfree heq | other ha hfree heq | born parent r ha hfree =>
      rw [hfree.2.1] at hp
      cases hp
  | kept r hr hsame hother =>
      obtain rfl : p = r := Option.some.inj (hp.symm.trans hr)
      rcases honward with ⟨htaken, -⟩ | honward
      · exact absurd htaken (hother _)
      · refine hlearns.imp honward.pending fun hvigil => ?_
        rw [hsame.vigil, Process.loaded, hsame.past]
        exact learns_steady hsteady hvigil
  | acted choice r e ha hr hacted hanswers hfs =>
      obtain rfl : p = r := Option.some.inj (hp.symm.trans hr)
      obtain ⟨next, hcode, -⟩ := hacted.code
      have hallows := vigil_allows (h.sound.vigilant d p hp) (next_of_code hcode)
      rw [vigil_snoc hacted.past]
      rcases hlearns with hpending | hvigil
      · rcases honward with ⟨htaken, set, hwaits⟩ | honward
        · -- the signal is taken, and the reload begins
          rw [ha] at htaken
          cases htaken
          obtain ⟨c, r⟩ := e
          obtain rfl : c = .sigwaitinfo set := Option.some.inj ((next_of_code hcode).symm.trans hwaits)
          obtain ⟨signal, -, rfl, hsignal⟩ := hanswers
          cases hsignal
          rw [idle_of_waits (not_outside_of_loops h.sound hp hloops) hallows]
          exact .inr trivial
        · exact .inl (honward.pending hpending)
      · have hafter := learns_after h.served hplain hcontent hallows hanswers hacted.past hvigil
        exact .inr (learns_steady hsteady hafter)

/-- The process of this number makes a call in this step. -/
theorem next_of_run (hstep : s.step (.run q choice) = some s') (hp : s.process q = some p) :
    ∃ c, p.next = some c := by
  cases steps_of_step hstep with
  | call hp₀ hcode hanswer | fork hp₀ hcode hfree =>
      obtain rfl := Option.some.inj (hp₀.symm.trans hp)
      exact ⟨_, next_of_code hcode⟩

theorem flushing_of_next (hp : s.process q = some p) {file : Handle} {text : List Char}
    (hnext : p.next = some (.fwrite file text)) (hpath : file.path = configLoad) :
    s.flushing (.run q choice) = some text := by
  simp only [flushing, hp, Option.bind_some, hnext, hpath, if_true]

/-- A `load` that has truncated `CONFIG_LOAD` flushes its line next. -/
theorem flushing_of_opened (hp : s.process q = some p) (hruns : Runs d s.fs task p) {file : Handle}
    (hopened : p.errand = .opened file) (hnext : p.next = some c) :
    s.flushing (.run q choice) = some (task.path.toList ++ ['\n']) := by
  have hcall := hruns.next hnext
  have hholds := hruns.holds
  rw [hopened] at hcall hholds
  rw [← Option.some.inj hcall] at hnext
  exact flushing_of_next hp hnext hholds.1

/-- The SIGHUP of a `load` pends for the daemon. -/
theorem Switching.learns_of_kill (h : s.Switching d) (hstep : s.step (.run q choice) = some s')
    (hp : s.process q = some p) (hruns : Runs d s.fs task p) (hflushed : p.errand = .flushed)
    (path : Path) : s'.Learns d path := by
  obtain ⟨c, hnext⟩ := next_of_run hstep hp
  have hcall := hruns.next hnext
  rw [hflushed] at hcall
  rw [← Option.some.inj hcall, hruns.fits.daemon] at hnext
  obtain ⟨t, ht, hloops⟩ := h.daemon
  have hdaemon : t.phase.Background := by
    obtain ⟨watch, hphase, hwatch⟩ := hloops.watch
    rw [hphase]
    rintro rfl
    exact hwatch
  have hsends : s.Sends (.run q choice) .sighup d t :=
    ⟨⟨q, choice, p, d, rfl, hp, hruns.loads.2, hnext, rfl⟩, ht, hdaemon⟩
  have hblocks := (h.sound.masked.blocks d t ht .sighup).mpr hloops.inside
  exact ⟨t.raised .sighup, raised_of_sends hsends hstep hblocks, .inl List.mem_insert_self⟩

/-- Without a flush the files stay as they are, or a `load` truncates `CONFIG_LOAD`. -/
theorem Switching.unflushed_step (h : s.Switching d) (hswitches : Ledger.Switches d ⟨s, flushed⟩ a)
    (hlegible : Ledger.Legible ⟨s, flushed⟩ a) (hstep : s.step a = some s')
    (hnone : s.flushing a = none) : s'.fs = s.fs ∨ s'.Writes d := by
  rcases act_of_step h.sound.masked.lawful hstep with
    hsame | ⟨q, choice, p, e, rfl, hp, hnext, -, -, hfs, -⟩
  · exact .inl hsame
  · rcases h.effect hp hnext with
      ⟨hsame, -⟩ | ⟨task, hq, hruns, ⟨hlocated, hcall⟩ | ⟨file, hopened, -⟩⟩
    · exact .inl (hfs.trans hsame)
    · obtain ⟨p', e', hp', hcall', hanswers, hruns', herrand, -⟩ :=
        h.goes hswitches hlegible hstep hq hp hruns hnext
      obtain ⟨c, r⟩ := e'
      obtain rfl : c = .fopen configLoad .w := hcall'.trans hcall
      obtain ⟨-, -, file, hopen⟩ := truncates h.served
      obtain rfl : r = .ok file := hanswers.trans hopen
      exact .inr ⟨q, p', task, hq, hp', hruns', file, by rw [herrand, hlocated]; rfl⟩
    · rw [flushing_of_opened hp hruns hopened hnext] at hnone
      cases hnone

/-- A flush of a `load` is a new record. -/
theorem Switching.recorded_of_flush (h : s.Switching d)
    (hswitches : Ledger.Switches d ⟨s, flushed⟩ a) (hlegible : Ledger.Legible ⟨s, flushed⟩ a)
    (hstep : s.step a = some s') {text : List Char} (hflush : s.flushing a = some text) :
    s'.Recorded d text := by
  cases a with
  | run q choice =>
      obtain ⟨p, hp, hnext⟩ := Option.bind_eq_some_iff.mp hflush
      split at hnext
      · rename_i file line hcall
        split at hnext
        · obtain rfl := Option.some.inj hnext
          -- only a `load` writes, and only after its truncation
          rcases h.effect hp hcall with
            ⟨-, hnot⟩ | ⟨task, hq, hruns, ⟨-, hopen⟩ | ⟨file', hopened, hwrite⟩⟩
          · exact absurd rfl (hnot file line)
          · cases hopen
          · cases hwrite
            obtain ⟨p', e, hp', hcall', -, hruns', herrand, hfs⟩ :=
              h.goes hswitches hlegible hstep hq hp hruns hcall
            have hholds := hruns.holds
            rw [hopened] at hholds
            have hcontent := (flushes hholds (task.path.toList ++ ['\n'])).2
            have hwritten : s'.fs = s.fs.write file (task.path.toList ++ ['\n']) := hfs
            rw [← hwritten] at hcontent
            refine ⟨task.path, hruns.fits.plain, rfl, .inr ⟨⟨_, hcontent⟩, .inl ?_⟩⟩
            refine ⟨q, p', task, hq, hp', hruns', ?_⟩
            obtain ⟨c, r⟩ := e
            obtain rfl : c = .fwrite file (task.path.toList ++ ['\n']) := hcall'
            rw [herrand, hopened]
            rfl
        · cases hnext
      · cases hnext
  | _ => cases hflush

/-- A record stays one while nothing is flushed. -/
theorem Switching.recorded_stays (h : s.Switching d) (hswitches : Ledger.Switches d ⟨s, flushed⟩ a)
    (hlegible : Ledger.Legible ⟨s, flushed⟩ a) (hstep : s.step a = some s') {text : List Char}
    (hnone : s.flushing a = none) (hrecorded : s.Recorded d text) : s'.Recorded d text := by
  obtain ⟨path, hplain, rfl, hrecorded⟩ := hrecorded
  refine ⟨path, hplain, rfl, ?_⟩
  rcases hrecorded with ⟨q, p, task, hq, hp, hruns, file, hopened⟩ | ⟨⟨rest, hcontent⟩, hknown⟩
  · -- the `load` that has truncated the file would flush if it made a call
    have hother : ∀ choice, a ≠ .run q choice := by
      rintro choice rfl
      obtain ⟨c, hnext⟩ := next_of_run hstep hp
      rw [flushing_of_opened hp hruns hopened hnext] at hnone
      cases hnone
    obtain ⟨p', hp', hruns', herrand⟩ :=
      h.stays hswitches hstep hq hp hruns (by rw [hopened]; nofun) hother
    exact .inl ⟨q, p', task, hq, hp', hruns', file, herrand.trans hopened⟩
  · rcases h.unflushed_step hswitches hlegible hstep hnone with hsame | hwrites
    · rw [hsame]
      refine .inr ⟨⟨rest, hcontent⟩, ?_⟩
      rcases hknown with ⟨q, p, task, hq, hp, hruns, hflushed⟩ | hlearns
      · -- its next call is the `kill`
        by_cases hacts : ∃ choice, a = .run q choice
        · obtain ⟨choice, rfl⟩ := hacts
          exact .inr (h.learns_of_kill hstep hp hruns hflushed path)
        · obtain ⟨p', hp', hruns', herrand⟩ :=
            h.stays hswitches hstep hq hp hruns (by rw [hflushed]; nofun) (not_exists.mp hacts)
          exact .inl ⟨q, p', task, hq, hp', hruns', herrand.trans hflushed⟩
      · exact .inr (h.learns_step hswitches hstep hplain hcontent hlearns)
    · exact .inl hwrites

end Host

namespace Ledger

variable {d : Nat} {l l' : Ledger} {a : Action}

theorem host_of_step (hstep : l.step a = some l') :
    l.host.step a = some l'.host ∧ l'.flushed = (l.host.flushing a).or l.flushed := by
  obtain ⟨s, hs, rfl⟩ := Option.map_eq_some_iff.mp hstep
  exact ⟨hs, rfl⟩

/-- The invariant of the ledger. -/
structure Keeping (d : Nat) (l : Ledger) : Prop where
  switching : l.host.Switching d
  recorded : ∀ text, l.flushed = some text → l.host.Recorded d text

theorem keeping_ready (h : l.Ready d) : l.Keeping d where
  switching := {
    sound := h.reached.invariant (fun _ => Host.sound_idle) fun _ _ _ hsound _ =>
      Host.sound_step hsound
    daemon := h.daemon
    small := h.small
    served := h.served
    roles := fun q p hq hp => .inl (h.others q p hq hp) }
  recorded text hflushed := by
    rw [h.unflushed] at hflushed
    cases hflushed

theorem keeping_step (h : l.Keeping d) (hswitches : l.Switches d a) (hlegible : l.Legible a)
    (hstep : l.step a = some l') : l'.Keeping d := by
  obtain ⟨hhost, hflushed⟩ := host_of_step hstep
  refine ⟨h.switching.step hswitches hlegible hhost, fun text htext => ?_⟩
  rw [hflushed] at htext
  cases hflush : l.host.flushing a with
  | some line =>
      rw [hflush] at htext
      obtain rfl := Option.some.inj htext
      exact h.switching.recorded_of_flush hswitches hlegible hhost hflush
  | none =>
      rw [hflush] at htext
      exact h.switching.recorded_stays hswitches hlegible hhost hflush (h.recorded text htext)

/-- A `load` can make its next call. -/
theorem step_of_errand {q : Nat} {p : Process} {task : Task} {c : Call}
    {next : Response c → Sys Next} (hp : l.host.process q = some p) (hcode : p.code = .call c next)
    (hcall : p.errand.next task = some c) : ∃ choice, (l.step (.run q choice)).isSome = true := by
  have hstep : ∀ choice, (l.host.call q choice p).isSome = true →
      (l.step (.run q choice)).isSome = true := by
    intro choice hsome
    have hrun : l.host.step (.run q choice) = l.host.call q choice p := by
      show l.host.process q >>= l.host.call q choice = _
      rw [hp]
      rfl
    rw [step, Option.isSome_map, hrun]
    exact hsome
  cases hphase : p.errand with
  | sent =>
      rw [hphase] at hcall
      cases hcall
  | numbered =>
      rw [hphase] at hcall
      obtain rfl := Option.some.inj hcall
      refine ⟨.listing [], hstep _ ?_⟩
      rw [Host.call, hcode]
      rfl
  | _ =>
      rw [hphase] at hcall
      obtain rfl := Option.some.inj hcall
      refine ⟨.none, hstep _ ?_⟩
      rw [Host.call, hcode]
      rfl

/-- A process of a `load` is one on its way. -/
theorem runs_of_loads (h : l.Keeping d) {q : Nat} {p : Process} (hp : l.host.process q = some p)
    (hloads : p.Loads) : q ≠ d ∧ ∃ task, Runs d l.host.fs task p := by
  have hq : q ≠ d := by
    rintro rfl
    obtain ⟨r, hr, hloops⟩ := h.switching.daemon
    obtain rfl : p = r := Option.some.inj (hp.symm.trans hr)
    obtain ⟨watch, hphase, -⟩ := hloops.watch
    have hforeground := hloads.2
    rw [hphase] at hforeground
    exact hforeground
  rcases h.switching.roles q p hq hp with hapart | hruns
  · exact absurd hloads hapart.not_loads
  · exact ⟨hq, hruns⟩

theorem last_of_quiet (h : l.Keeping d) (hquiet : l.Quiet d) {text : List Char}
    (hflushed : l.flushed = some text) : ∃ path p, text = path.toList ++ ['\n'] ∧
      l.host.process d = some p ∧ p.loaded = some path := by
  obtain ⟨hnone, p, hp, hpending, hwaits⟩ := hquiet
  have hnobody : ∀ point, ¬l.host.Reaches d point := by
    rintro point ⟨q, r, task, -, hr, hruns, -⟩
    exact hnone q r hr hruns.loads
  rcases h.recorded text hflushed with ⟨path, -, rfl, hwrites | ⟨-, hsignals | ⟨r, hr, hlearns⟩⟩⟩
  · exact absurd hwrites (hnobody _)
  · exact absurd hsignals (hnobody _)
  · obtain rfl : p = r := Option.some.inj (hp.symm.trans hr)
    obtain ⟨t, ht, hloops⟩ := h.switching.daemon
    obtain rfl : p = t := Option.some.inj (hp.symm.trans ht)
    have hallows := vigil_allows (h.switching.sound.vigilant d p hp) hwaits
    have hidle := Host.idle_of_waits (Host.not_outside_of_loops h.switching.sound hp hloops) hallows
    have hvigil := hlearns.resolve_left hpending
    rw [hidle] at hvigil
    exact ⟨path, p, rfl, hp, hvigil⟩

theorem keeping_of_reached
    (h : Machine.Reached step (fun l a => l.Switches d a ∧ l.Legible a) (Ready d) l) : l.Keeping d :=
  h.invariant (fun _ => keeping_ready) fun _ _ _ hkeeping hok => keeping_step hkeeping hok.1 hok.2

/-- As long as no `load` finds `CONFIG_LOAD` without a word, each sends its SIGHUP after ten calls
at most, and when all have ended the daemon has loaded last what was flushed last. -/
theorem delivered (h : Machine.Reached step (fun l a => l.Switches d a ∧ l.Legible a) (Ready d) l) :
    l.Delivered d := by
  have hkeeping := keeping_of_reached h
  refine ⟨fun q p hp hloads => ?_, fun q p hp hloads hsent a l' hswitches hstep => ?_,
    fun hquiet text hflushed => last_of_quiet hkeeping hquiet hflushed⟩
  · obtain ⟨-, task, hruns⟩ := runs_of_loads hkeeping hp hloads
    cases hcode : p.code with
    | ret next => exact .inl (hruns.sent (hruns.sent_of_ret hcode))
    | call c next =>
        have hcall := hruns.next (next_of_code hcode)
        have hcalls := hruns.calls
        have hleft := Errand.left_pos hcall
        exact .inr ⟨by omega, step_of_errand hp hcode hcall⟩
  · obtain ⟨hq, task, hruns⟩ := runs_of_loads hkeeping hp hloads
    obtain ⟨hhost, -⟩ := host_of_step hstep
    obtain ⟨p', hp'⟩ := hkeeping.switching.lives hswitches hhost hq hp hruns fun hdone =>
      hsent (hruns.sent hdone)
    rw [hp']
    rfl

/-! ### Examples -/

-- a search for the instance would try all characters
instance (path : Path) : Decidable (Session.Plain path) :=
  haveI : Decidable (∀ c ∈ path.toList, isSpace c = false) := List.decidableBAll _ _
  inferInstanceAs (Decidable (_ ∧ _ ∧ _))

instance : Decidable (l.Switches d a) := match a with
  | .spawn _ cwd argv => inferInstanceAs (Decidable ((argv.length = 3 ∧ argument argv 1 = key 0 ∧
      ∃ path ∈ locateConfig l.host.fs cwd (argument argv 2), Session.Plain path) ∧ _))
  | .crash pid _ => inferInstanceAs (Decidable ((∀ p ∈ l.host.process pid, p.Apart) ∧ _))
  | .other _ | .run _ _ | .exit _ | .abort _ => inferInstanceAs (Decidable (True ∧ _))

/-- A read of `CONFIG_LOAD` finds a word. -/
def FindsWord (fs : FileSystem) : Option Call → Prop
  | some (.fread file) => file.path = configLoad → scanWord (fs.read file) ≠ []
  | _ => True

instance (fs : FileSystem) (c : Option Call) : Decidable (FindsWord fs c) := by
  unfold FindsWord
  split <;> infer_instance

instance : Decidable (l.Legible a) := match a with
  | .run pid _ => inferInstanceAs (Decidable (∀ p ∈ l.host.process pid, p.Loads →
      FindsWord l.host.fs p.next))
  | .spawn _ _ _ | .other _ | .exit _ | .abort _ | .crash _ _ => isTrue trivial

instance (fs : FileSystem) : Decidable (Served d fs) :=
  decidable_of_iff ((fs.file pidFile).content = some (decimal d ++ ['\n']) ∧
      fs.denied pidFile .r = none ∧ fs.denied configLoad .r = none ∧ fs.denied configLoad .w = none ∧
      ∃ text ∈ (fs.file configLoad).content, (scanWord text).length < 256)
    ⟨fun ⟨hnames, hfindable, hreadable, hwritable, text, hcontent, hlength⟩ =>
        ⟨hnames, hfindable, hreadable, hwritable, text, hcontent, hlength⟩,
      fun h => ⟨h.names, h.findable, h.readable, h.writable,
        h.recorded.imp fun _ hrecorded => hrecorded⟩⟩

/-- What can be computed of a host with a daemon. -/
def Serving (d : Nat) (s : Host) : Prop :=
  (∃ p ∈ s.process d, p.phase.Loops) ∧ d < 65536 ∧ Served d s.fs ∧
    ∀ q ∈ s.pids, q ≠ d → ∀ p ∈ s.process q, p.Apart

instance (s : Host) : Decidable (Serving d s) :=
  inferInstanceAs (Decidable (_ ∧ _ ∧ _ ∧ _))

theorem ready_of_run {s : Host} {files : List (Path × List Char)} {actions : List Action}
    (hrun : Machine.run Host.step (Host.ofFiles files) actions = some s) (h : Serving d s) :
    Ready d ⟨s, none⟩ := by
  obtain ⟨⟨p, hp, hloops⟩, hsmall, hserved, hothers⟩ := h
  have hreached : Machine.Reached Host.step (fun _ _ => True) Host.Idle s :=
    .run (.start (Host.idle_ofFiles files)) (Machine.along_of_forall fun _ _ => trivial) hrun
  have hlawful : s.Lawful :=
    hreached.invariant (fun _ => Host.lawful_idle) fun _ _ _ hlawful _ => Host.lawful_step hlawful
  refine ⟨hreached, ⟨p, hp, hloops⟩, hsmall, hserved, fun q r hq hr => ?_, rfl⟩
  exact hothers q (hlawful.listed q r hr) hq r hr

/-- `load` of the file in `/etc/robotd` up to the opening of `CONFIG_LOAD` for reading. -/
def arriving (pid : Nat) : List Action :=
  [.spawn pid "/etc/robotd" ["robotd", "load", "daemon.cfg"], .run pid .none, .run pid .none,
    .run pid (.listing []), .run pid .none]

/-- A `load` as a whole, and the reload of the daemon. -/
def switching (pid daemon : Nat) : List Action :=
  arriving pid ++ Host.calls pid 5 ++ [.exit pid, .run daemon (.signal .sighup)] ++
    Host.calls daemon 2 ++ [.run daemon (.load (.returned 0 true))] ++ Host.calls daemon 2

/-- A `load` reads `CONFIG_LOAD` when another has truncated it, and starts a daemon of its own. -/
def crossing (first second child : Nat) : List Action :=
  arriving first ++ Host.calls first 3 ++ arriving second ++ Host.calls second 4 ++
    [.run second (.load (.returned 0 true)), .run second (.child child)]

/-- The daemon gets the path of a `load`. -/
theorem switched_delivered : ∃ s l,
    Machine.run Host.step Host.installed (Host.loading 100 101 102) = some s ∧
      Machine.run step ⟨s, none⟩ (switching 200 101) = some l ∧
      l.flushed = some "/etc/robotd/daemon.cfg\n".toList ∧ l.Quiet 101 ∧ l.Delivered 101 := by
  have hrun : ∃ s, Machine.run Host.step Host.installed (Host.loading 100 101 102) = some s ∧
      (Serving 101 s ∧ Machine.Along step (fun l a => l.Switches 101 a ∧ l.Legible a) ⟨s, none⟩
          (switching 200 101) ∧
        ((Machine.run step ⟨s, none⟩ (switching 200 101)).any fun l =>
          decide (l.flushed = some "/etc/robotd/daemon.cfg\n".toList ∧
            (∀ q ∈ l.host.pids, ∀ p ∈ l.host.process q, ¬p.Loads) ∧
            ∃ p ∈ l.host.process 101, .sighup ∉ p.pending ∧
              p.next = some (.sigwaitinfo monitorSignals))) = true) :=
    Machine.exists_run (by decide +kernel)
  obtain ⟨s, hs, hserving, halong, htest⟩ := hrun
  obtain ⟨l, hl, htest⟩ := (Option.any_eq_true _ _).mp htest
  obtain ⟨hflushed, hended, p, hp, hpending, hwaits⟩ := of_decide_eq_true htest
  have hreached := Machine.Reached.run (.start (ready_of_run hs hserving)) halong hl
  have hkeeping : l.Keeping 101 := keeping_of_reached hreached
  refine ⟨s, l, hs, hl, hflushed, ⟨fun q r hr => ?_, p, hp, hpending, hwaits⟩, delivered hreached⟩
  exact hended q (hkeeping.switching.sound.masked.lawful.listed q r hr) r hr

/-- A `load` that reads `CONFIG_LOAD` between the truncation and the flush of another sends no
SIGHUP. -/
theorem switch_lost : ¬ ∀ d l, Machine.Reached step (fun l a => l.Switches d a) (Ready d) l →
    l.Delivered d := by
  intro hall
  have hrun : ∃ s, Machine.run Host.step Host.installed (Host.loading 100 101 102) = some s ∧
      (Serving 101 s ∧
        Machine.Along step (fun l a => l.Switches 101 a) ⟨s, none⟩ (crossing 200 201 202) ∧
        ((Machine.run step ⟨s, none⟩ (crossing 200 201 202)).any fun l =>
          decide (∃ p ∈ l.host.process 201, p.Loads ∧ ¬p.Sent 101 ∧ 10 ≤ p.past.length)) = true) :=
    Machine.exists_run (by decide +kernel)
  obtain ⟨s, hs, hserving, halong, htest⟩ := hrun
  obtain ⟨l, hl, htest⟩ := (Option.any_eq_true _ _).mp htest
  obtain ⟨p, hp, hloads, hsent, hlength⟩ := of_decide_eq_true htest
  have hreached := Machine.Reached.run (.start (ready_of_run hs hserving)) halong hl
  rcases (hall 101 l hreached).reaches 201 p hp hloads with hdone | ⟨hless, -⟩
  · exact hsent hdone
  · omega

end Ledger

end Robotd
