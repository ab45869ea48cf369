import Robotd.Lib.Amortized
import Robotd.Host.Vigilance

/-!
# How many steps a host can make

The budgets of its processes, what the pending signals may still lead to and the masters that are
still to be replaced are the potential of a host. Each step takes one from it (`potential_step`); it
grows only where a program is started or a process is lost. So the number of steps of a run is
bounded by these (`length_le_granted`), and without them the host comes to rest.
-/

namespace Robotd

open Lib Lib.CLib
open Lib.Program (Protocol Conforms)

namespace Station

/-- A pending signal: that it is taken, and what the process does then. -/
def worth : Station → Signal → Nat
  | broken, _ => 0
  | serving, _ | stopping, _ => 1 + reloadEffort
  | _, .sigchld => 1 + reapEffort
  | _, _ => 1 + hangupEffort

/-- What is kept back for the end of the process. -/
def endCost : Station → Nat
  | serving | stopping | broken => partEffort
  | _ => endEffort

theorem partEffort_le_endCost (station : Station) : partEffort ≤ station.endCost := by
  cases station <;> decide

theorem worth_sigchld_le (station : Station) : station.worth .sigchld ≤ 1 + reapEffort := by
  cases station <;> decide

theorem worth_le (station : Station) (signal : Signal) : station.worth signal ≤ 1 + hangupEffort := by
  cases station <;> cases signal <;> decide

end Station

/-- What a process may still do: its budget, the signals it has not taken and its end. -/
def Process.worth (p : Process) : Nat :=
  p.pace.left + p.pace.station.endCost + (p.pending.map p.pace.station.worth).sum

/-- What a zombie may still lead to, when it is reaped. -/
def WaitStatus.worth (status : WaitStatus) : Nat := if status = .exited 2 then 0 else forkEffort

theorem WaitStatus.worth_le (status : WaitStatus) : status.worth ≤ forkEffort := by
  unfold worth
  split
  · exact Nat.zero_le _
  · exact le_rfl

/-- A master exits with another code than `CHILD_NEED_TERMINATE`, so that its monitor starts a new
one. -/
def Process.fails (p : Process) : Bool := match p.code with
  | .ret (.exit code) => decide (p.phase = .monitoring .master ∧ code ≠ childNeedTerminate)
  | _ => false

/-! ## What a call costs -/

namespace Pace.Moves

variable {φ φ' : Pace} {e : Event} {x : Nat}

/-- The station changes only to one where no more is kept back. -/
theorem keeps_back (h : Pace.Moves φ e φ') (hchild : e ≠ ⟨.fork, .child⟩) :
    φ'.station.endCost ≤ φ.station.endCost ∧
      ∀ signal, φ'.station.worth signal ≤ φ.station.worth signal := by
  cases h with
  | daemon | master => exact absurd rfl hchild
  | loadThrows hn | servicesThrow hn =>
      exact ⟨Station.partEffort_le_endCost _, fun _ => Nat.zero_le _⟩
  | spend hprice hpos hx hplain => exact ⟨le_rfl, fun _ => le_rfl⟩
  | _ => exact ⟨le_rfl, fun signal => by cases signal <;> exact le_rfl⟩

/-- A call takes its price, unless it waits or starts a child. -/
theorem pays (h : Pace.Moves φ e φ') (hprice : φ.station.price e.1 = some x)
    (hchild : e ≠ ⟨.fork, .child⟩) (hwait : e.1 ≠ .wait) (hsignal : ∀ set, e.1 ≠ .sigwaitinfo set) :
    0 < x ∧ φ'.left + x ≤ φ.left := by
  cases h with
  | daemon | master => exact absurd rfl hchild
  | reapLast hn | reap hn hstatus => exact absurd rfl hwait
  | hangup | child | call hhup hchld | reload | stop hhup => exact absurd rfl (hsignal _)
  | spend hprice' hpos hx hplain =>
      obtain rfl := Option.some.inj (hprice.symm.trans hprice')
      exact ⟨hpos, Nat.le_of_eq (Nat.sub_add_cancel hx)⟩
  | mask hn r =>
      cases hprice
      exact ⟨by decide, Nat.le_of_eq (Nat.sub_add_cancel hn)⟩
  | tell hn r =>
      cases hprice
      exact ⟨by decide, Nat.le_of_eq (Nat.sub_add_cancel hn)⟩
  | loadThrows hn =>
      rename_i station n path
      cases station <;> cases hprice
      all_goals exact ⟨Nat.one_pos, Nat.le_trans (Nat.le_of_eq (Nat.zero_add 1)) hn⟩
  | servicesThrow hn =>
      rename_i station n
      cases station <;> cases hprice
      exact ⟨Nat.one_pos, Nat.le_trans (Nat.le_of_eq (Nat.zero_add 1)) hn⟩

/-- What is done about a signal has been kept back for it. -/
theorem takes {set : List Signal} {signal : Signal}
    (h : Pace.Moves φ ⟨.sigwaitinfo set, .ok signal⟩ φ') :
    φ'.left + 1 ≤ φ.left + φ.station.worth signal := by
  cases h with
  | spend hprice hpos hx hplain => exact absurd rfl (hplain.signal set)
  | hangup =>
      rename_i n
      exact Nat.le_add_left (hangupEffort + 1) n
  | child =>
      rename_i n
      exact Nat.le_add_left (reapEffort + 1) n
  | call hhup hchld =>
      rename_i n
      have hworth : Station.watching.worth signal = hangupEffort + 1 := by
        cases signal with
        | sighup => exact absurd rfl hhup
        | sigchld => exact absurd rfl hchld
        | _ => rfl
      show hangupEffort + 1 ≤ n + Station.watching.worth signal
      rw [hworth]
      exact Nat.le_add_left _ n
  | reload =>
      rename_i n
      exact Nat.le_add_left (reloadEffort + 1) n
  | stop hhup =>
      rename_i n
      have hworth : 1 + 1 ≤ Station.serving.worth signal := by cases signal <;> decide
      exact Nat.le_add_left_of_le hworth

/-- A child that has to be replaced has left what that costs. -/
theorem reaps {status : WaitStatus} (h : Pace.Moves φ ⟨.wait, .ok status.raw⟩ φ') :
    φ'.left + 1 ≤ φ.left + status.worth := by
  generalize hraw : status.raw = raw at h
  cases h with
  | spend hprice hpos hx hplain => exact absurd rfl hplain.wait
  | reapLast hn =>
      rename_i n
      show n - 1 + 1 ≤ n + status.worth
      omega
  | reap hn hstatus =>
      rename_i n status'
      have hlost : status ≠ .exited 2 := by
        rintro rfl
        exact hstatus (raw_eq_terminate.mp hraw.symm)
      show n - 1 + forkEffort + 1 ≤ n + status.worth
      rw [WaitStatus.worth, if_neg hlost]
      omega

/-- The budget of a child is in the price of the fork. -/
theorem starts (h : Pace.Moves φ ⟨.fork, .child⟩ φ') (hprice : φ.station.price .fork = some x) :
    φ'.left + φ'.station.endCost + 1 = x := by
  cases h with
  | spend hprice hpos hx hplain => exact absurd rfl hplain.fork
  | daemon | master =>
      cases hprice
      rfl

end Pace.Moves

/-! ## What a process is worth after a change -/

section Process

variable {p : Process} {e : Event} {signal : Signal} {m n : Nat}

theorem worth_answered {code : Sys Next} (h : Pace.Moves p.pace e (p.pace.after e))
    (hchild : e ≠ ⟨.fork, .child⟩) (hleft : (p.pace.after e).left + m ≤ p.pace.left + n) :
    (p.answered e code).worth + m ≤ p.worth + n := by
  obtain ⟨hend, hworth⟩ := h.keeps_back hchild
  have hpending : (p.pending.map (p.pace.after e).station.worth).sum ≤
      (p.pending.map p.pace.station.worth).sum :=
    List.sum_le_sum fun signal _ => hworth signal
  have hpace : (p.answered e code).pace = p.pace.after e := pace_snoc rfl
  have hanswered : (p.answered e code).worth = (p.pace.after e).left +
      (p.pace.after e).station.endCost + (p.pending.map (p.pace.after e).station.worth).sum := by
    rw [Process.worth, hpace]
    rfl
  rw [hanswered, Process.worth]
  omega

/-- A signal that is pending already is not raised again. -/
theorem worth_raised : (p.raised signal).worth ≤ p.worth + p.pace.station.worth signal := by
  have hpending : ((p.pending.insert signal).map p.pace.station.worth).sum ≤
      (p.pending.map p.pace.station.worth).sum + p.pace.station.worth signal := by
    by_cases hmem : signal ∈ p.pending
    · rw [List.insert_of_mem hmem]
      exact Nat.le_add_right _ _
    · rw [List.insert_of_not_mem hmem, List.map_cons, List.sum_cons, Nat.add_comm]
  have hraised : (p.raised signal).worth = p.pace.left + p.pace.station.endCost +
      ((p.pending.insert signal).map p.pace.station.worth).sum := rfl
  rw [hraised, Process.worth]
  omega

theorem worth_taken (h : signal ∈ p.pending) :
    ({ p with pending := p.pending.erase signal } : Process).worth + p.pace.station.worth signal =
      p.worth := by
  have hpending : p.pace.station.worth signal +
      ((p.pending.erase signal).map p.pace.station.worth).sum =
        (p.pending.map p.pace.station.worth).sum := List.sum_map_erase _ h
  have htaken : ({ p with pending := p.pending.erase signal } : Process).worth = p.pace.left +
      p.pace.station.endCost + ((p.pending.erase signal).map p.pace.station.worth).sum := rfl
  rw [htaken, Process.worth]
  omega

theorem worth_forked (code : Sys Next) (parent : Nat) : (p.forked code parent).worth =
    (p.pace.after ⟨.fork, .child⟩).left + (p.pace.after ⟨.fork, .child⟩).station.endCost := by
  have hpace : (p.forked code parent).pace = p.pace.after ⟨.fork, .child⟩ := pace_snoc rfl
  rw [Process.worth, hpace]
  rfl

end Process

namespace Host

variable {s : Host} {pid : Nat} {p : Process} {signal : Signal} {m n : Nat}

/-- What the process or zombie of this number may still do. -/
def worth (s : Host) (pid : Nat) : Nat :=
  ((s.process pid).map Process.worth).getD 0 + ((s.zombie pid).map fun z => z.2.worth).getD 0

def potential (s : Host) : Nat := ∑ pid ∈ s.pids.toFinset, s.worth pid

theorem worth_live (hp : s.process pid = some p) :
    s.worth pid = p.worth + ((s.zombie pid).map fun z => z.2.worth).getD 0 := by
  rw [worth, hp]
  rfl

/-- What comes of a change at one number. -/
theorem potential_exchange {t : Host} (hpids : t.pids = s.pids) (hpid : pid ∈ s.pids)
    (hother : ∀ q, q ≠ pid → t.worth q ≤ s.worth q) (hone : t.worth pid + m ≤ s.worth pid + n) :
    t.potential + m ≤ s.potential + n := by
  rw [potential, potential, hpids]
  exact sum_exchange (List.mem_toFinset.mpr hpid) hother hone

theorem potential_update {f : Process → Process} (hp : s.process pid = some p) (hpid : pid ∈ s.pids)
    (hf : (f p).worth + m ≤ p.worth + n) : (s.update pid f).potential + m ≤ s.potential + n := by
  refine potential_exchange rfl hpid (fun q hq => ?_) ?_
  · simp only [worth, update, if_neg hq]
    exact le_rfl
  · have hone : (s.update pid f).process pid = some (f p) := by
      simp only [update, if_pos, hp, Option.map_some]
    rw [worth_live hone, worth_live hp]
    show (f p).worth + ((s.zombie pid).map fun z => z.2.worth).getD 0 + m ≤ _
    omega

theorem potential_update_none {f : Process → Process} (hp : s.process pid = none) :
    (s.update pid f).potential = s.potential := by
  refine Finset.sum_congr rfl fun q _ => ?_
  simp only [worth, update]
  split
  · rename_i heq
    rw [heq, hp]
    rfl
  · rfl

theorem potential_add {new : Nat} (hfree : s.Free new) :
    (s.add new p).potential ≤ s.potential + p.worth := by
  have hold : ∀ q, q ≠ new → (s.add new p).worth q = s.worth q := by
    intro q hq
    simp only [worth, add, if_neg hq]
  have hnone : s.worth new = 0 := by
    rw [worth, hfree.2.1, hfree.2.2]
    rfl
  have hnew : (s.add new p).worth new = p.worth := by
    have hprocess : (s.add new p).process new = some p := if_pos rfl
    have hzombie : (s.add new p).zombie new = none := hfree.2.2
    rw [worth_live hprocess, hzombie]
    rfl
  have hpids : (s.add new p).pids.toFinset = insert new s.pids.toFinset := List.toFinset_cons
  rw [potential, hpids]
  by_cases hmem : new ∈ s.pids.toFinset
  · rw [Finset.insert_eq_of_mem hmem]
    exact sum_exchange (m := 0) hmem (fun q hq => le_of_eq (hold q hq)) (by rw [hnew, hnone]; omega)
  · rw [Finset.sum_insert hmem, hnew, Nat.add_comm]
    refine Nat.add_le_add_right (Finset.sum_le_sum fun q hq => le_of_eq (hold q ?_)) _
    rintro rfl
    exact hmem hq

theorem potential_remove (hp : s.process pid = some p) (hpid : pid ∈ s.pids) (status : WaitStatus) :
    (s.remove pid status).potential + p.worth ≤ s.potential + status.worth := by
  refine potential_exchange rfl hpid (fun q hq => ?_) ?_
  · simp only [worth, remove, if_neg hq]
    refine Nat.add_le_add (le_of_eq ?_) ?_
    · cases s.process q with
      | none => rfl
      | some r =>
          simp only [Option.map_some, Option.getD_some]
          split <;> rfl
    · cases s.zombie q with
      | none => exact le_rfl
      | some z =>
          rw [Option.filter_some]
          split
          · exact le_rfl
          · exact Nat.zero_le _
  · have hworth : (s.remove pid status).worth pid ≤ status.worth := by
      simp only [worth, remove, if_pos, hp, Option.bind_some, Option.map_none, Option.getD_none]
      cases p.parent with
      | none => exact Nat.zero_le _
      | some parent => exact le_of_eq (Nat.zero_add _)
    rw [worth_live hp]
    omega

/-- The numbers of all processes and zombies are on the list. -/
structure Listed (s : Host) : Prop where
  process : ∀ pid p, s.process pid = some p → pid ∈ s.pids
  zombie : ∀ pid z, s.zombie pid = some z → pid ∈ s.pids

theorem listed_update (h : s.Listed) (pid : Nat) (f : Process → Process) : (s.update pid f).Listed := by
  refine ⟨fun q p' hp' => ?_, h.zombie⟩
  rcases process_update hp' with ⟨r, rfl, hr, -⟩ | ⟨-, hold⟩
  · exact h.process q r hr
  · exact h.process q p' hold

theorem listed_add (h : s.Listed) (new : Nat) (p : Process) : (s.add new p).Listed := by
  refine ⟨fun q p' hp' => ?_, fun q z hz => List.mem_cons_of_mem _ (h.zombie q z hz)⟩
  rcases process_add hp' with ⟨rfl, -⟩ | ⟨-, hold⟩
  · exact List.mem_cons_self
  · exact List.mem_cons_of_mem _ (h.process q p' hold)

theorem listed_remove (h : s.Listed) (pid : Nat) (status : WaitStatus) :
    (s.remove pid status).Listed := by
  refine ⟨fun q p' hp' => ?_, fun q z hz => ?_⟩
  · obtain ⟨r, hr, -⟩ := shrinks_remove s pid status q p' hp'
    exact h.process q r hr
  · simp only [remove] at hz
    split at hz
    · obtain ⟨parent, hparent, -⟩ := Option.map_eq_some_iff.mp hz
      obtain ⟨r, hr, -⟩ := Option.bind_eq_some_iff.mp hparent
      exact h.process q r hr
    · exact h.zombie q z (Option.filter_eq_some_iff.mp hz).1

theorem listed_die (h : s.Listed) (pid : Nat) (status : WaitStatus) : (s.die pid status).Listed := by
  unfold die
  split
  · exact listed_update (listed_remove h pid status) _ _
  · exact listed_remove h pid status

theorem potential_raise (h : s.Listed)
    (hworth : ∀ p, s.process pid = some p → p.pace.station.worth signal ≤ n) :
    (s.raise pid signal).potential ≤ s.potential + n := by
  cases hp : s.process pid with
  | none =>
      rw [raise, potential_update_none hp]
      exact Nat.le_add_right _ _
  | some p =>
      refine potential_update (m := 0) hp (h.process pid p hp) ?_
      split
      · exact worth_raised.trans (Nat.add_le_add_left (hworth p hp) _)
      · exact Nat.le_add_right _ _

/-- The end of a process: it may have to be replaced, and its parent gets SIGCHLD. -/
theorem potential_die (h : s.Listed) (hp : s.process pid = some p) (status : WaitStatus) :
    (s.die pid status).potential + p.worth ≤ s.potential + status.worth + (1 + reapEffort) := by
  have hremove := potential_remove hp (h.process pid p hp) status
  unfold die
  split
  · rename_i parent hparent
    have hraise : ((s.remove pid status).raise parent .sigchld).potential ≤
        (s.remove pid status).potential + (1 + reapEffort) :=
      potential_raise (listed_remove h pid status) fun r _ => Station.worth_sigchld_le _
    omega
  · omega

theorem potential_reap {child parent : Nat} {status : WaitStatus} (h : s.Listed)
    (hzombie : s.zombie child = some (parent, status)) :
    ({ s with zombie := fun q => if q = child then none else s.zombie q } : Host).potential +
      status.worth ≤ s.potential := by
  refine potential_exchange (n := 0) rfl (h.zombie child _ hzombie) (fun q hq => ?_) ?_
  · simp only [worth, if_neg hq]
    exact le_rfl
  · simp only [worth, if_pos, hzombie, Option.map_some, Option.map_none, Option.getD_some,
      Option.getD_none]
    omega

/-! ## What every step keeps -/

/-- The live children of monitors are masters. -/
def Offspring (s : Host) : Prop := ∀ pid p m q, s.process pid = some p → p.parent = some m →
  s.process m = some q → ¬q.phase.Outside → p.phase = .monitoring .master

variable {s' : Host} {a : Action}

theorem offspring_step (h : s.Lineage) (hoffspring : s.Offspring) (hstep : s.step a = some s') :
    s'.Offspring := by
  intro pid p' m q' hp' hparent hq' hinside
  rcases parentOf_of_step hstep ((parentOf_live hp').trans hparent) with
    hold | ⟨rfl, hfree, q, hq, hfork⟩
  · obtain ⟨-, q, hq, hchild⟩ := h.parents pid m hold
    have hbefore : ¬q.phase.Outside := by
      cases course_of_step h.masked.lawful hstep hq' with
      | kept r hr hphase hoption hother =>
          obtain rfl := Option.some.inj (hq.symm.trans hr)
          rwa [hphase] at hinside
      | acted choice r e ha hr hnext hmoves hoption hanswers hfs =>
          obtain rfl := Option.some.inj (hq.symm.trans hr)
          exact Life.inside_of_moves hmoves hchild hinside
      | spawned cwd argv ha hfree | other ha hfree | born parent r ha hfree =>
          rw [hfree.2.1] at hq
          cases hq
    have hmaster : ∀ {p : Process}, s.process pid = some p → p.phase = .monitoring .master :=
      fun hp => hoffspring pid _ m q hp ((parentOf_live hp).symm.trans hold) hq hbefore
    cases course_of_step h.masked.lawful hstep hp' with
    | kept p hp hphase hoption hother => rw [hphase, hmaster hp]
    | acted choice p e ha hp hnext hmoves hoption hanswers hfs =>
        rw [hmaster hp] at hmoves
        exact Life.master_stays hmoves
    | spawned cwd argv ha hfree | other ha hfree | born parent r ha hfree =>
        rw [parentOf_free hfree] at hold
        cases hold
  · have hborn : ∀ {p : Process}, s.process pid ≠ some p := by
      intro p hp
      rw [hfree.2.1] at hp
      cases hp
    cases course_of_step h.masked.lawful hstep hp' with
    | kept p hp | acted choice p e ha hp => exact absurd hp hborn
    | spawned cwd argv ha | other ha => cases ha
    | born parent r ha hfree' hr hnext hparent' hoption hphases hfs =>
        cases ha
        obtain rfl := Option.some.inj (hq.symm.trans hr)
        rcases hphases with ⟨hstarting, -⟩ | ⟨-, hmaster⟩
        · -- what starts a daemon is no monitor
          obtain ⟨r', hr', hphase⟩ := fork_of_step hstep hq hfork
          obtain rfl := Option.some.inj (hq'.symm.trans hr')
          rw [hphase, hstarting] at hinside
          exact absurd trivial hinside
        · exact hmaster

theorem listed_answered {pid : Nat} {choice : Choice} {c : Call} {r : Response c} {t : Host}
    (h : s.Listed) (htreats : s.Treats pid choice c r t) (hpids : t.pids = s.pids) : t.Listed := by
  cases htreats with
  | plain hprocess hzombie hwait hsignal =>
      refine ⟨fun q p hp => ?_, fun q z hz => ?_⟩
      · rw [hpids]
        exact h.process q p (hprocess ▸ hp)
      · rw [hpids]
        exact h.zombie q z (hzombie ▸ hz)
  | raise | take hchoice hmember => exact listed_update h _ _
  | die hp hblocks => exact listed_die h _ _
  | reap hzombie =>
      refine ⟨h.process, fun q z hz => ?_⟩
      dsimp only at hz
      split at hz
      · cases hz
      · exact h.zombie q z hz

theorem listed_step (h : s.Listed) (hstep : s.step a = some s') : s'.Listed := by
  cases steps_of_step hstep with
  | spawn hfree | other hfree => exact listed_add h _ _
  | call hp hcode hanswer =>
      exact listed_update (listed_answered h (treats_of_answer hanswer) (answered_of_answer hanswer).pids)
        _ _
  | fork hp hcode hfree => exact listed_add (listed_update h _ _) _ _
  | exit hp hcode | abort hp hcode | crash hp => exact listed_die h _ _

/-- What every step keeps. -/
structure Solvent (s : Host) : Prop extends s.Lineage where
  heirs : s.Heirs
  offspring : s.Offspring
  listed : s.Listed

theorem solvent_step (h : s.Solvent) (hstep : s.step a = some s') : s'.Solvent where
  toLineage := lineage_step h.toLineage hstep
  heirs := heirs_step h.masked.lawful h.heirs hstep
  offspring := offspring_step h.toLineage h.offspring hstep
  listed := listed_step h.listed hstep

theorem solvent_empty (h : s.Empty) : s.Solvent := by
  have hnone : ∀ {pid p}, s.process pid ≠ some p := by
    intro pid p hp
    rw [h.1 pid] at hp
    cases hp
  refine ⟨lineage_empty h, fun _ _ _ _ hp => absurd hp hnone, fun _ _ _ _ hp => absurd hp hnone,
    fun _ _ hp => absurd hp hnone, fun pid z hz => ?_⟩
  rw [h.2 pid] at hz
  cases hz

/-! ## One step -/

theorem endCost_le_worth (p : Process) : p.pace.left + p.pace.station.endCost ≤ p.worth :=
  Nat.le_add_right _ _

theorem potential_congr {t : Host} (hpids : t.pids = s.pids) (hprocess : t.process = s.process)
    (hzombie : t.zombie = s.zombie) : t.potential = s.potential := by
  rw [potential, potential, hpids]
  refine Finset.sum_congr rfl fun q _ => ?_
  rw [worth, worth, hprocess, hzombie]

/-- A signal is paid for by its sender: a monitor signals a master, and a command a process of any
kind. -/
theorem kill_paid (h : s.Solvent) (hp : s.process pid = some p) {target : Int} {signal : Signal}
    (hnext : p.next = some (.kill target signal)) {x : Nat}
    (hprice : p.pace.station.price (.kill target signal) = some x) {r : Process}
    (hr : s.process target.toNat = some r) : r.pace.station.worth signal + 1 ≤ x ∧
      (r.blocks signal = false → x = orderEffort) := by
  have hchild : ¬p.phase.Outside → r.phase = .monitoring .master := by
    intro hinside
    have hparent := target_of_kill h.masked.lawful h.heirs hp hinside hnext
    exact h.offspring target.toNat r pid p hr ((parentOf_live hr).symm.trans hparent) hp hinside
  have hmaster : r.phase = .monitoring .master → r.pace.station.worth signal + 1 ≤ tellEffort ∧
      r.blocks signal = true := by
    intro hphase
    have hagrees := h.budgeted.agrees target.toNat r hr
    rw [hphase] at hagrees
    refine ⟨?_, (h.masked.blocks target.toNat r hr signal).mpr (by rw [hphase]; exact id)⟩
    rcases hagrees.of_master with hstation | hstation | hstation <;> rw [hstation] <;>
      cases signal <;> decide
  have hagrees := h.budgeted.agrees pid p hp
  unfold Pace.Agrees at hagrees
  cases hstation : p.pace.station with
  | command =>
      rw [hstation] at hprice
      cases hprice
      exact ⟨Nat.add_le_add_right (Station.worth_le _ _) 1, fun _ => rfl⟩
  | watching | called =>
      rw [hstation] at hprice hagrees
      cases hprice
      obtain ⟨watch, heq, -⟩ := hagrees
      obtain ⟨hworth, hblocks⟩ := hmaster (hchild (by rw [heq]; exact id))
      refine ⟨hworth, fun hfalse => ?_⟩
      rw [hblocks] at hfalse
      cases hfalse
  | _ =>
      rw [hstation] at hprice
      cases hprice

/-- A call lowers the potential. -/
theorem potential_call (h : s.Solvent) (hp : s.process pid = some p) {choice : Choice} {c : Call}
    {next : Response c → Sys Next} (hcode : p.code = .call c next) {r : Response c} {t : Host}
    (hanswer : s.answer pid choice c = some (r, t)) :
    (t.update pid fun p => p.answered ⟨c, r⟩ (next r)).potential + 1 ≤ s.potential := by
  have hnext := next_of_code hcode
  have hanswered := answered_of_answer hanswer
  obtain ⟨x, hprice, hx⟩ := pace_allows (h.budgeted.paced pid p hp) hnext
  have hmoves : Pace.Moves p.pace ⟨c, r⟩ (p.pace.after ⟨c, r⟩) :=
    pace_moves ⟨x, hprice, hx⟩ (expects_of_answers hanswered.answers).1
  have hfork : (⟨c, r⟩ : Event) ≠ ⟨.fork, .child⟩ := by
    intro heq
    cases heq
    cases hanswer
  have hlisted : t.Listed := listed_answered h.listed (treats_of_answer hanswer) hanswered.pids
  -- what the caller itself pays in the host that the answer leaves
  have hpay : ∀ {m n : Nat}, (t.process pid).isSome = true →
      (p.pace.after ⟨c, r⟩).left + m ≤ p.pace.left + n →
        (t.update pid fun p => p.answered ⟨c, r⟩ (next r)).potential + m ≤ t.potential + n := by
    intro m n hlive hleft
    obtain ⟨q, hq⟩ := Option.isSome_iff_exists.mp hlive
    obtain ⟨p₀, hp₀, hsame⟩ := hanswered.process pid q hq
    obtain rfl : p = p₀ := Option.some.inj (hp.symm.trans hp₀)
    rw [← hsame.pace] at hmoves hleft
    exact potential_update hq (hlisted.process pid q hq) (worth_answered hmoves hfork hleft)
  have hlive : (s.process pid).isSome = true := by rw [hp]; rfl
  cases treats_of_answer hanswer with
  | plain hprocess hzombie hwait hsignal =>
      obtain ⟨hpos, hleft⟩ := hmoves.pays hprice hfork hwait hsignal
      have hcaller := hpay (n := 0) (by rwa [hprocess]) hleft
      rw [potential_congr hanswered.pids hprocess hzombie] at hcaller
      omega
  | raise =>
      rename_i target signal r
      obtain ⟨hpos, hleft⟩ := hmoves.pays hprice hfork nofun nofun
      have hcaller := hpay (n := 0) (by rwa [raise, process_update_isSome]) hleft
      have hraise : (s.raise target.toNat signal).potential ≤ s.potential + (x - 1) :=
        potential_raise h.listed fun r hr => by
          have hworth := (kill_paid h hp hnext hprice hr).1
          omega
      omega
  | die hkilled hblocks =>
      rename_i target signal r killed
      obtain rfl := (kill_paid h hp hnext hprice hkilled).2 hblocks
      have hdie := potential_die h.listed hkilled (.signaled signal.number false)
      have hstatus := (WaitStatus.signaled signal.number false).worth_le
      have hkept := endCost_le_worth killed
      have hend := killed.pace.station.partEffort_le_endCost
      have hbudget : forkEffort + (1 + reapEffort) + 1 ≤ orderEffort + partEffort := by decide
      by_cases htarget : pid = target.toNat
      · -- the command has killed itself
        subst htarget
        obtain rfl : p = killed := Option.some.inj (hp.symm.trans hkilled)
        rw [potential_update_none (process_die_self _ _)]
        omega
      · obtain ⟨hpos, hleft⟩ := hmoves.pays hprice hfork nofun nofun
        have hcaller := hpay (n := 0) (by rwa [process_die_isSome htarget]) hleft
        omega
  | take hchoice hmember =>
      rename_i set signal
      have htaken := worth_taken (hmember p hp)
      have htake : (s.update pid fun p => { p with pending := p.pending.erase signal }).potential +
          p.pace.station.worth signal ≤ s.potential + 0 :=
        potential_update hp (h.listed.process pid p hp) (by omega)
      have hcaller := hpay (by rwa [process_update_isSome]) hmoves.takes
      omega
  | reap hzombie =>
      have hreap := potential_reap h.listed hzombie
      have hcaller := hpay hlive hmoves.reaps
      omega

/-- A `fork` leaves its child what it has taken for it. -/
theorem potential_fork (h : s.Solvent) (hp : s.process pid = some p) {child : Nat}
    {next : Response .fork → Sys Next} (hcode : p.code = .call .fork next) (hfree : s.Free child) :
    ((s.update pid fun p => p.answered ⟨.fork, .parent child⟩ (next (.parent child))).add child
      (p.forked (next .child) pid)).potential + 1 ≤ s.potential := by
  obtain ⟨x, hprice, hx⟩ := pace_allows (h.budgeted.paced pid p hp) (next_of_code hcode)
  have hmoves : Pace.Moves p.pace ⟨.fork, .parent child⟩ (p.pace.after ⟨.fork, .parent child⟩) :=
    pace_moves ⟨x, hprice, hx⟩ (.inr ⟨child, hfree.1, rfl⟩)
  have hchild : Pace.Moves p.pace ⟨.fork, .child⟩ (p.pace.after ⟨.fork, .child⟩) :=
    pace_moves ⟨x, hprice, hx⟩ (.inl rfl)
  have hstarts := hchild.starts hprice
  obtain ⟨hpos, hleft⟩ := hmoves.pays hprice nofun nofun nofun
  have hparent : (s.update pid fun p =>
      p.answered ⟨.fork, .parent child⟩ (next (.parent child))).potential + x ≤ s.potential + 0 :=
    potential_update hp (h.listed.process pid p hp) (worth_answered hmoves nofun hleft)
  have hfree' : (s.update pid fun p =>
      p.answered ⟨.fork, .parent child⟩ (next (.parent child))).Free child := by
    refine ⟨hfree.1, ?_, hfree.2.2⟩
    simp only [update, hfree.2.1, Option.map_none, ite_self]
  have hadd := potential_add (p := p.forked (next .child) pid) hfree'
  rw [worth_forked] at hadd
  omega

/-- What is granted in a step: for a program that is started, and for a process that is lost, which
is killed or aborted or a master that fails. -/
def grant (s : Host) : Action → Nat
  | .spawn _ _ _ | .other _ => 1 + (commandEffort + endEffort)
  | .crash _ _ | .abort _ => forkEffort
  | .exit pid => if (s.process pid).any Process.fails then forkEffort else 0
  | .run _ _ => 0

/-- What an exit leaves to be done has been kept back, or it is granted. -/
theorem exit_paid (h : s.Solvent) (hp : s.process pid = some p) {code : Int}
    (hcode : p.code = .ret (.exit code)) :
    (WaitStatus.exited (Fin.ofNat 256 (code % 256).toNat)).worth + (1 + reapEffort) + 1 ≤
      p.pace.station.endCost + s.grant (.exit pid) := by
  have hobeys := h.budgeted.paced pid p hp
  unfold Process.Obeys at hobeys
  rw [hcode] at hobeys
  have hrests : p.pace.Rests (.exit code) := hobeys
  have hagrees := h.budgeted.agrees pid p hp
  have hworth := (WaitStatus.exited (Fin.ofNat 256 (code % 256).toNat)).worth_le
  have hpart : 1 + reapEffort + 1 ≤ partEffort := by decide
  have hend : forkEffort + (1 + reapEffort) + 1 ≤ endEffort := by decide
  have hlast : code = childNeedTerminate →
      (WaitStatus.exited (Fin.ofNat 256 (code % 256).toNat)).worth = 0 := by
    rintro rfl
    rfl
  unfold Pace.Rests at hrests
  unfold Pace.Agrees at hagrees
  cases hstation : p.pace.station with
  | command | leaving =>
      show _ ≤ endEffort + _
      omega
  | watching =>
      rw [hstation] at hrests
      obtain ⟨vars, hexit, -⟩ := hrests
      cases hexit
  | serving =>
      rw [hstation] at hagrees
      have hmaster : p.phase = .monitoring .master := hagrees
      have hgrant : s.grant (.exit pid) = if code ≠ childNeedTerminate then forkEffort else 0 := by
        simp [grant, hp, Process.fails, hcode, hmaster]
      rw [hgrant]
      show _ ≤ partEffort + _
      by_cases hterminate : code = childNeedTerminate
      · rw [hlast hterminate]
        omega
      · rw [if_pos hterminate]
        omega
  | stopping =>
      rw [hstation] at hrests
      have hexit : Next.exit code = .exit childNeedTerminate := hrests
      rw [hlast (Next.exit.inj hexit)]
      show _ ≤ partEffort + _
      omega
  | called | broken =>
      rw [hstation] at hrests
      exact absurd hrests id

/-- Each step takes one from the potential, but for what it is granted. -/
theorem potential_step (h : s.Solvent) (hstep : s.step a = some s') :
    s'.potential + 1 ≤ s.potential + s.grant a := by
  have hlost : ∀ {pid p} (status : WaitStatus), s.process pid = some p →
      (s.die pid status).potential + 1 ≤ s.potential + forkEffort := by
    intro pid p status hp
    have hdie := potential_die h.listed hp status
    have hworth := status.worth_le
    have hkept := endCost_le_worth p
    have hend := p.pace.station.partEffort_le_endCost
    have hpart : 1 + reapEffort + 1 ≤ partEffort := by decide
    omega
  cases steps_of_step hstep with
  | spawn hfree =>
      rename_i pid cwd argv
      have hadd := potential_add (p := .ofCommand cwd argv) hfree
      have hworth : (Process.ofCommand cwd argv).worth = commandEffort + endEffort := rfl
      show _ ≤ s.potential + (1 + (commandEffort + endEffort))
      omega
  | other hfree =>
      have hadd := potential_add (p := .other) hfree
      have hworth : Process.other.worth = commandEffort + endEffort := rfl
      show _ ≤ s.potential + (1 + (commandEffort + endEffort))
      omega
  | call hp hcode hanswer => exact potential_call h hp hcode hanswer
  | fork hp hcode hfree => exact potential_fork h hp hcode hfree
  | exit hp hcode =>
      rename_i pid p code
      have hdie := potential_die h.listed hp (.exited (Fin.ofNat 256 (code % 256).toNat))
      have hpaid := exit_paid h hp hcode
      have hkept := endCost_le_worth p
      omega
  | abort hp hcode => exact hlost _ hp
  | crash hp => exact hlost _ hp

theorem potential_empty (h : s.Empty) : s.potential = 0 := by
  refine Finset.sum_eq_zero fun q _ => ?_
  rw [worth, h.1 q, h.2 q]
  rfl

/-- Every run is as long as what its steps have been granted, at most. -/
theorem length_le_granted {actions : List Action} (hempty : s.Empty)
    (hrun : Machine.run step s actions = some s') :
    actions.length ≤ Machine.granted step grant s actions := by
  have hlength : actions.length + s'.potential ≤ s.potential + Machine.granted step grant s actions :=
    Machine.length_le (fun _ _ _ => solvent_step) (fun _ _ _ => potential_step) (solvent_empty hempty)
      hrun
  rw [potential_empty hempty] at hlength
  omega

/-- A `load`, and a master that is killed and replaced. -/
theorem replaced_master_paid : ∃ s,
    Machine.run step installed (loading 100 101 102 ++ replacing) = some s ∧
      (loading 100 101 102 ++ replacing).length ≤
        Machine.granted step grant installed (loading 100 101 102 ++ replacing) ∧
      Machine.granted step grant installed (loading 100 101 102 ++ replacing) = 103 + 14 := by
  have hrun : ∃ s, Machine.run step installed (loading 100 101 102 ++ replacing) = some s ∧ True :=
    Machine.exists_run (by decide +kernel)
  obtain ⟨s, hrun, -⟩ := hrun
  exact ⟨s, hrun, length_le_granted (empty_ofFiles _) hrun, by decide +kernel⟩

end Host

end Robotd
