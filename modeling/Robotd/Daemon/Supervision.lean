import Robotd.Daemon.Protocol

/-!
# Every run of a monitor

The whole run of one `monitor_proc`, with the kernel's list of the children it has not reaped and
the history of its calls. `watched_of_reached` says that the history keeps the protocol, and
`monitor_supervises` what this comes to for the forks, the signals and the reaped children.
-/

namespace Robotd

open Lib Lib.CLib
open Lib.Program (Protocol Conforms)

/-- What the kernel may answer to a process with these unreaped children, and the children it has
then. Waiting for a signal and forking do not fail. -/
inductive Kernel : List Nat → Event → List Nat → Prop where
  | fork {children : List Nat} {pid : Nat} (hpid : 0 < pid) (hnew : pid ∉ children) :
      Kernel children ⟨.fork, .parent pid⟩ (pid :: children)
  | sigwaitinfo {children : List Nat} {set : List Signal} {signal : Signal} (hset : signal ∈ set) :
      Kernel children ⟨.sigwaitinfo set, .ok signal⟩ children
  | wait {children : List Nat} {pid : Nat} (hpid : pid ∈ children) (status : WaitStatus) :
      Kernel children ⟨.wait, .ok status.raw⟩ (children.erase pid)
  | other {children : List Nat} {c : Call} (hfork : c ≠ .fork) (hwait : c ≠ .wait)
      (hsignal : ∀ set, c ≠ .sigwaitinfo set) (r : Response c) :
      Kernel children ⟨c, r⟩ children

/-- A completed call with the children that were not reaped when it was made. -/
structure Moment where
  children : List Nat
  event : Event

/-- A process that runs `monitor_proc`: the code to come, its unreaped children, and what it has
called so far. -/
structure Watcher where
  code : Sys Next
  children : List Nat
  past : List Moment

namespace Watcher

inductive Step : Watcher → Watcher → Prop where
  | call {c : Call} {next : Response c → Sys Next} {children children' : List Nat}
      {past : List Moment} (r : Response c) (hkernel : Kernel children ⟨c, r⟩ children') :
      Step ⟨.call c next, children, past⟩ ⟨next r, children', past ++ [⟨children, ⟨c, r⟩⟩]⟩
  | loop {n : Next} {code : Sys Next} {children : List Nat} {past : List Moment}
      (hresume : n.resume = some code) : Step ⟨.ret n, children, past⟩ ⟨code, children, past⟩

/-- A process at the start of `monitor_proc` has no children. -/
def start : Watcher := ⟨monitorProc.program, [], []⟩

def Reached (w : Watcher) : Prop := Relation.ReflTransGen Step start w

end Watcher

/-! ## Runs -/

/-- Where the monitor stands after these calls. -/
def Watch.afterAll (watch : Watch) (past : List Moment) : Watch :=
  past.foldl (fun watch m => watch.after m.event) watch

/-- The calls were allowed and answered by the kernel, and the unreaped children those of the
protocol. -/
def Watch.Keeps : Watch → List Moment → Prop
  | _, [] => True
  | watch, m :: rest => m.children = watch.children ∧ watch.allows m.event.1 ∧
      (∃ children, Kernel m.children m.event children) ∧ (watch.after m.event).Keeps rest

@[simp] theorem Watch.afterAll_cons (watch : Watch) (m : Moment) (rest : List Moment) :
    watch.afterAll (m :: rest) = (watch.after m.event).afterAll rest := rfl

theorem Watch.afterAll_append (watch : Watch) (xs ys : List Moment) :
    watch.afterAll (xs ++ ys) = (watch.afterAll xs).afterAll ys :=
  List.foldl_append

theorem Watch.keeps_append {watch : Watch} {xs ys : List Moment} :
    watch.Keeps (xs ++ ys) ↔ watch.Keeps xs ∧ (watch.afterAll xs).Keeps ys := by
  induction xs generalizing watch with
  | nil => exact (and_iff_right trivial).symm
  | cons m rest ih => simp only [List.cons_append, Keeps, ih, afterAll_cons, and_assoc]

theorem expected_of_kernel {before after : List Nat} {e : Event} (h : Kernel before e after) :
    Expected e := by
  cases h with
  | fork hpid hnew => exact .inr ⟨_, hpid, rfl⟩
  | sigwaitinfo hset => exact ⟨_, hset, rfl⟩
  | wait hpid status => exact ⟨status, rfl⟩
  | other hfork hwait hsignal r =>
      rename_i c
      cases c with
      | fork => exact absurd rfl hfork
      | wait => exact absurd rfl hwait
      | sigwaitinfo set => exact absurd rfl (hsignal set)
      | _ => trivial

/-- Other calls leave the kernel's children alone. -/
theorem kernel_other {before after : List Nat} {c : Call} {r : Response c}
    (h : Kernel before ⟨c, r⟩ after) (hfork : c ≠ .fork) (hwait : c ≠ .wait) : after = before := by
  cases h with
  | fork hpid hnew => exact absurd rfl hfork
  | wait hpid status => exact absurd rfl hwait
  | _ => rfl

/-- Of one child, `wait` leaves none. -/
theorem kernel_wait {pid : Nat} {after : List Nat} {r : Response .wait}
    (h : Kernel [pid] ⟨.wait, r⟩ after) : after = [] := by
  generalize hbefore : [pid] = before at h
  cases h with
  | wait hpid status =>
      rw [← hbefore] at hpid ⊢
      rw [List.mem_singleton.mp hpid]
      exact List.erase_cons_head pid []
  | other hfork hwait hsignal r => exact absurd rfl hwait

/-- The kernel's children are those of the protocol. -/
theorem kernel_children {watch after : Watch} {e : Event} {children : List Nat}
    (hmoves : Moves watch e after) (h : Kernel watch.children e children) :
    children = after.children := by
  cases hmoves with
  | background hcalm hc r =>
      refine kernel_other h ?_ ?_ <;> intro hcall <;> rw [hcall] at hc <;> cases hc
  | forked hpid =>
      generalize hbefore : Watch.forking.children = before at h
      cases h with
      | fork hpid hnew => rw [← hbefore]; rfl
      | other hfork hwait hsignal r => exact absurd rfl hfork
  | child =>
      cases h with
      | other hfork hwait hsignal r => exact absurd rfl hfork
  | signal hwatch signal =>
      rw [kernel_other h nofun nofun]
      rcases hwatch with rfl | rfl <;> rfl
  | reapLast | reap => exact kernel_wait h
  | _ => exact kernel_other h nofun nofun

/-- What the kernel answers to an allowed call moves the monitor. -/
theorem moves_of_kernel {watch : Watch} {e : Event} {before after : List Nat}
    (hallows : watch.allows e.1) (h : Kernel before e after) : Moves watch e (watch.after e) :=
  moves hallows (expected_of_kernel h)

/-- The kernel tells the monitor that it is the parent. -/
theorem not_kernel_child {before after : List Nat} : ¬Kernel before ⟨.fork, .child⟩ after := by
  intro h
  cases h with
  | other hfork hwait hsignal r => exact hfork rfl

/-- The process is a monitor, and has one unreaped child at most. -/
def Watch.Single (watch : Watch) : Prop := watch ≠ .master ∧ watch.children.length ≤ 1

theorem single_of_moves {watch next : Watch} {e : Event} {before after : List Nat}
    (h : watch.Single) (hmoves : Moves watch e next) (hkernel : Kernel before e after) :
    next.Single := by
  cases hmoves with
  | child => exact absurd hkernel not_kernel_child
  | background hcalm hc r => exact h
  | masterSignal signal => exact h
  | unlink hleaving r => exact ⟨nofun, h.2⟩
  | reapLast | reap => exact ⟨nofun, Nat.zero_le 1⟩
  | _ => exact ⟨nofun, Nat.le_refl 1⟩

theorem single_of_keeps {watch : Watch} {past : List Moment} (h : watch.Single)
    (hkeeps : watch.Keeps past) : (watch.afterAll past).Single := by
  induction past generalizing watch with
  | nil => exact h
  | cons m rest ih =>
      obtain ⟨-, hallows, ⟨children, hkernel⟩, hrest⟩ := hkeeps
      exact ih (single_of_moves h (moves_of_kernel hallows hkernel) hkernel) hrest

/-- The invariant of a run. -/
structure Watcher.Watched (w : Watcher) : Prop where
  keeps : Watch.forking.Keeps w.past
  children : w.children = (Watch.forking.afterAll w.past).children
  conforms : Conforms supervision Watch.Rests (Watch.forking.afterAll w.past) w.code

namespace Watcher

theorem watched_start : start.Watched := by
  refine ⟨trivial, rfl, conforms_program ?_⟩
  have hcalm : Watch.forking.Calm := nofun
  exact conforms_background hcalm rfl fun _ => .inl ⟨rfl, rfl⟩

theorem watched_step {w w' : Watcher} (h : w.Watched) (hstep : Step w w') : w'.Watched := by
  cases hstep with
  | call r hkernel =>
      rename_i c next children children' past
      obtain ⟨hkeeps, hchildren, hconforms⟩ := h
      dsimp only at hkeeps hchildren hconforms
      obtain ⟨hallows, hnext⟩ := hconforms
      rw [hchildren] at hkernel
      refine ⟨?_, ?_, ?_⟩
      · rw [← hchildren] at hkernel
        exact Watch.keeps_append.mpr ⟨hkeeps, hchildren, hallows, ⟨children', hkernel⟩, trivial⟩
      · rw [Watch.afterAll_append]
        exact kernel_children (moves_of_kernel hallows hkernel) hkernel
      · rw [Watch.afterAll_append]
        exact hnext r (expected_of_kernel hkernel)
  | loop hresume => exact ⟨h.keeps, h.children, conforms_resume h.conforms hresume⟩

/-- The run lemma. -/
theorem watched_of_reached {w : Watcher} (h : Reached w) : w.Watched := by
  induction h with
  | refl => exact watched_start
  | tail _ hstep ih => exact watched_step ih hstep

end Watcher

/-! ## What the protocol says of a history -/

/-- The wait for a signal. -/
def Call.awaits : Call → Bool
  | .sigwaitinfo _ => true
  | _ => false

/-- The calls up to the next wait for a signal. -/
def round (past : List Moment) : List Moment := past.takeWhile fun m => !m.event.1.awaits

def forks (past : List Moment) : Nat := past.countP fun m => m.event.1 = .fork

theorem round_await {m : Moment} {rest : List Moment} (h : m.event.1.awaits = true) :
    round (m :: rest) = [] := by
  simp [round, h]

theorem round_other {m : Moment} {rest : List Moment} (h : m.event.1.awaits = false) :
    round (m :: rest) = m :: round rest := by
  simp [round, h]

theorem forks_other {m : Moment} {past : List Moment} (h : m.event.1 ≠ .fork) :
    forks (m :: past) = forks past := by
  simp [forks, h]

theorem forks_fork {m : Moment} {past : List Moment} (h : m.event.1 = .fork) :
    forks (m :: past) = forks past + 1 := by
  simp [forks, h]

/-- A call in the background is none of those that are counted. -/
theorem background_ne {c : Call} (h : c.background = true) : c.awaits = false ∧ c ≠ .fork := by
  refine ⟨?_, fun hfork => ?_⟩
  · cases c <;> first | rfl | cases h
  · rw [hfork] at h
    cases h

/-- A monitor that has come to its end neither forks nor awaits a signal. -/
theorem keeps_ending {watch : Watch} {past : List Moment}
    (hwatch : watch = .ending ∨ watch = .unlinked []) (h : watch.Keeps past) :
    (∀ m ∈ past, m.event.1 ≠ .fork ∧ m.event.1.awaits = false) ∧
      (watch.afterAll past = .ending ∨ watch.afterAll past = .unlinked []) := by
  induction past generalizing watch with
  | nil => exact ⟨fun _ hm => absurd hm List.not_mem_nil, hwatch⟩
  | cons m rest ih =>
      obtain ⟨children, e⟩ := m
      obtain ⟨-, hallows, ⟨after, hkernel⟩, hrest⟩ := h
      have hmoves := moves_of_kernel hallows hkernel
      have hstays : (e.1 ≠ .fork ∧ e.1.awaits = false) ∧
          (watch.after e = .ending ∨ watch.after e = .unlinked []) := by
        revert hmoves
        generalize watch.after e = next
        intro hmoves
        cases hmoves with
        | background hcalm hc r => exact ⟨(background_ne hc).symm, hwatch⟩
        | unlink hleaving r =>
            refine ⟨⟨nofun, rfl⟩, .inr ?_⟩
            rcases hwatch with rfl | rfl <;> rfl
        | signal hstands signal =>
            rcases hwatch with rfl | rfl <;> rcases hstands with hne | hne <;> cases hne
        | _ => rcases hwatch with hne | hne <;> cases hne
      obtain ⟨hmem, hafter⟩ := ih hstays.2 hrest
      refine ⟨?_, hafter⟩
      intro m hm
      rcases List.mem_cons.mp hm with rfl | hm
      · exact hstays.1
      · exact hmem m hm

/-- Up to the next signal, a monitor that waits for one does not fork. -/
theorem keeps_waits {watch : Watch} {past : List Moment} (hwaits : watch.Waits)
    (h : watch.Keeps past) :
    forks (round past) = 0 ∧ (round past = past → watch.afterAll past = watch) := by
  induction past with
  | nil => exact ⟨rfl, fun _ => rfl⟩
  | cons m rest ih =>
      obtain ⟨children, e⟩ := m
      obtain ⟨-, hallows, ⟨after, hkernel⟩, hrest⟩ := h
      by_cases hawaits : e.1.awaits = true
      · rw [round_await hawaits]
        exact ⟨rfl, fun heq => by cases heq⟩
      have hawaits : e.1.awaits = false := by simpa using hawaits
      have hmoves := moves_of_kernel hallows hkernel
      have hstays : e.1 ≠ .fork ∧ watch.after e = watch := by
        revert hmoves
        generalize watch.after e = next
        intro hmoves
        cases hmoves with
        | background hcalm hc r => exact ⟨(background_ne hc).2, rfl⟩
        | forward r => exact ⟨nofun, rfl⟩
        | stop hleaving r => exact ⟨nofun, rfl⟩
        | signal hstands signal => cases hawaits
        | masterSignal signal => cases hawaits
        | unlink hleaving r => exact absurd hleaving hwaits.not_leaving
        | _ => exact absurd hwaits id
      rw [hstays.2] at hrest
      obtain ⟨hforks, hafter⟩ := ih hrest
      rw [round_other hawaits, forks_other hstays.1, Watch.afterAll_cons, hstays.2]
      exact ⟨hforks, fun heq => hafter (List.cons.inj heq).2⟩

/-- Up to the next signal, a monitor that is to fork does so exactly once. -/
theorem keeps_forking {past : List Moment} (h : Watch.forking.Keeps past) :
    forks (round past) ≤ 1 ∧ (round past ≠ past → forks (round past) = 1) ∧
      (round past = past → Watch.forking.afterAll past = .forking ∨
        ∃ pid, Watch.forking.afterAll past = .waiting pid) := by
  induction past with
  | nil => exact ⟨Nat.zero_le 1, fun hne => absurd rfl hne, fun _ => .inl rfl⟩
  | cons m rest ih =>
      obtain ⟨children, e⟩ := m
      obtain ⟨-, hallows, ⟨after, hkernel⟩, hrest⟩ := h
      have hmoves := moves_of_kernel hallows hkernel
      rw [Watch.afterAll_cons]
      dsimp only at hrest ⊢
      generalize Watch.forking.after e = next at hmoves hrest
      cases hmoves with
      | background hcalm hc r =>
          obtain ⟨hone, hexact, hends⟩ := ih hrest
          obtain ⟨hawaits, hfork⟩ := background_ne hc
          rw [round_other hawaits, forks_other hfork]
          exact ⟨hone, fun hne => hexact fun heq => hne (congrArg (List.cons _) heq),
            fun heq => hends (List.cons.inj heq).2⟩
      | forked hpid =>
          rename_i pid
          have hwaits : (Watch.waiting pid).Waits := trivial
          obtain ⟨hforks, hafter⟩ := keeps_waits hwaits hrest
          rw [round_other rfl, forks_fork rfl, hforks]
          exact ⟨Nat.le_refl 1, fun _ => rfl,
            fun heq => .inr ⟨pid, hafter (List.cons.inj heq).2⟩⟩
      | child => exact absurd hkernel not_kernel_child
      | signal hstands signal => rcases hstands with hne | hne <;> cases hne
      | unlink hleaving r => exact absurd hleaving id

/-! ## Supervision -/

/-- What follows the reaping of a child. After an exit with `CHILD_NEED_TERMINATE` the loop is
left. After any other end it goes on, and exactly one child is forked before the next signal is
awaited. -/
def Follows (status : WaitStatus) (past : List Moment) (code : Sys Next) : Prop :=
  if status = .exited 2 then
    (∀ m ∈ past, m.event.1 ≠ .fork ∧ m.event.1.awaits = false) ∧
      ∀ vars, code ≠ .ret (.monitor vars)
  else
    forks (round past) ≤ 1 ∧ (round past ≠ past → forks (round past) = 1) ∧
      (round past = past → ∀ exitCode, code ≠ .ret (.exit exitCode))

/-- The history of a monitor that supervises one child at a time. -/
structure Supervises (w : Watcher) : Prop where
  atMostOne : w.children.length ≤ 1
  forks : ∀ m ∈ w.past, m.event.1 = .fork → m.children = []
  kills : ∀ m ∈ w.past, ∀ pid signal, m.event.1 = .kill pid signal →
    ∃ child : Nat, m.children = [child] ∧ pid = child
  reaps : ∀ before children set past,
    w.past = before ++ ⟨children, ⟨.sigwaitinfo set, .ok .sigchld⟩⟩ :: past →
    past = [] ∨ ∃ status rest,
      past = ⟨children, ⟨.wait, .ok (WaitStatus.raw status)⟩⟩ :: rest ∧ Follows status rest w.code
  hangups : ∀ before children set past,
    w.past = before ++ ⟨children, ⟨.sigwaitinfo set, .ok .sighup⟩⟩ :: past →
    Robotd.forks (round past) = 0

/-- Every call of a history was allowed where the monitor stood. -/
theorem Watch.Keeps.moment {watch : Watch} {past : List Moment} (h : watch.Keeps past) {m : Moment}
    (hm : m ∈ past) : ∃ stands : Watch, m.children = stands.children ∧ stands.allows m.event.1 := by
  induction past generalizing watch with
  | nil => exact absurd hm List.not_mem_nil
  | cons first rest ih =>
      obtain ⟨hchildren, hallows, -, hrest⟩ := h
      rcases List.mem_cons.mp hm with rfl | hm
      · exact ⟨watch, hchildren, hallows⟩
      · exact ih hrest hm

/-- A signal is only awaited by a monitor with a child, and leads to its handling. -/
theorem keeps_signal {watch : Watch} {children : List Nat} {set : List Signal} {signal : Signal}
    {past : List Moment} (hmonitor : watch ≠ .master)
    (h : watch.Keeps (⟨children, ⟨.sigwaitinfo set, .ok signal⟩⟩ :: past)) :
    ∃ pid, children = [pid] ∧ (Watch.got pid signal).Keeps past ∧
      watch.afterAll (⟨children, ⟨.sigwaitinfo set, .ok signal⟩⟩ :: past) =
        (Watch.got pid signal).afterAll past := by
  obtain ⟨hchildren, hallows, ⟨after, hkernel⟩, hrest⟩ := h
  have hmoves := moves_of_kernel hallows hkernel
  rw [Watch.afterAll_cons]
  dsimp only at hchildren hrest ⊢
  generalize watch.after ⟨.sigwaitinfo set, .ok signal⟩ = next at hmoves hrest
  cases hmoves with
  | background hcalm hc r => cases hc
  | signal hstands signal =>
      rename_i pid
      refine ⟨pid, ?_, hrest, rfl⟩
      rcases hstands with rfl | rfl <;> exact hchildren
  | masterSignal signal => exact absurd rfl hmonitor

/-- A SIGCHLD is followed by the reaping of the child. -/
theorem keeps_sigchld {pid : Nat} {past : List Moment} {code : Sys Next}
    (h : (Watch.got pid .sigchld).Keeps past)
    (hcode : Conforms supervision Watch.Rests ((Watch.got pid .sigchld).afterAll past) code) :
    past = [] ∨ ∃ status rest, past = ⟨[pid], ⟨.wait, .ok (WaitStatus.raw status)⟩⟩ :: rest ∧
      Follows status rest code := by
  cases past with
  | nil => exact .inl rfl
  | cons m rest =>
      obtain ⟨children, e⟩ := m
      obtain ⟨rfl, hallows, ⟨after, hkernel⟩, hrest⟩ := h
      have hmoves := moves_of_kernel hallows hkernel
      rw [Watch.afterAll_cons] at hcode
      dsimp only at hrest hcode
      generalize (Watch.got pid .sigchld).after e = next at hmoves hrest hcode
      cases hmoves with
      | background hcalm hc r => exact absurd rfl (hcalm pid)
      | signal hstands signal => rcases hstands with hne | hne <;> cases hne
      | stop hleaving r => exact absurd rfl hleaving.2
      | unlink hleaving r => exact absurd rfl hleaving.2
      | reapLast =>
          refine .inr ⟨.exited 2, rest, rfl, ?_⟩
          obtain ⟨hmem, hends⟩ := keeps_ending (.inl rfl) hrest
          rw [Follows, if_pos rfl]
          refine ⟨hmem, fun vars hret => ?_⟩
          rw [hret] at hcode
          rcases hends with hends | hends <;> rw [hends] at hcode <;>
            rcases hcode with ⟨_, hstands⟩ | ⟨_, _, _, _, hstands | hstands⟩ <;> cases hstands
      | reap hstatus =>
          rename_i status
          refine .inr ⟨status, rest, rfl, ?_⟩
          obtain ⟨hone, hexact, hends⟩ := keeps_forking hrest
          rw [Follows, if_neg hstatus]
          refine ⟨hone, hexact, fun heq exitCode hret => ?_⟩
          rw [hret] at hcode
          rcases hends heq with hstands | ⟨child, hstands⟩ <;> rw [hstands] at hcode <;>
            rcases hcode with ⟨_, hleft⟩ | hleft <;> cases hleft

/-- Every run of `monitor_proc` supervises one child at a time. -/
theorem monitor_supervises {w : Watcher} (h : w.Reached) : Supervises w := by
  obtain ⟨hkeeps, hchildren, hconforms⟩ := Watcher.watched_of_reached h
  have hstart : Watch.forking.Single := ⟨nofun, Nat.zero_le 1⟩
  refine ⟨?_, ?_, ?_, ?_, ?_⟩
  · rw [hchildren]
    exact (single_of_keeps hstart hkeeps).2
  · intro m hm hfork
    obtain ⟨stands, hstands, hallows⟩ := hkeeps.moment hm
    rw [hfork] at hallows
    obtain rfl : stands = .forking := hallows
    exact hstands
  · intro m hm pid signal hkill
    obtain ⟨stands, hstands, hallows⟩ := hkeeps.moment hm
    rw [hkill] at hallows
    rcases hallows with ⟨child, hpid, ⟨_, rfl⟩ | ⟨_, _, rfl, _⟩⟩
    · exact ⟨child, hstands, hpid⟩
    · exact ⟨child, hstands, hpid⟩
  · intro before children set past hpast
    rw [hpast, Watch.keeps_append] at hkeeps
    have hmonitor := (single_of_keeps hstart hkeeps.1).1
    obtain ⟨pid, rfl, hrest, hafter⟩ := keeps_signal hmonitor hkeeps.2
    rw [hpast, Watch.afterAll_append, hafter] at hconforms
    exact keeps_sigchld hrest hconforms
  · intro before children set past hpast
    rw [hpast, Watch.keeps_append] at hkeeps
    have hmonitor := (single_of_keeps hstart hkeeps.1).1
    obtain ⟨pid, -, hrest, -⟩ := keeps_signal hmonitor hkeeps.2
    have hwaits : (Watch.got pid .sighup).Waits := trivial
    exact (keeps_waits hwaits hrest).1

/-- A monitor whose child 4322 has ended, and which has forked 4323. -/
theorem second_child_supervised : ∃ w : Watcher, w.children = [4323] ∧ w.past.length = 5 ∧
    Supervises w := by
  have hkernel : Kernel [] ⟨.sigprocmask monitorSignals, ()⟩ [] :=
    .other (c := .sigprocmask monitorSignals) nofun nofun nofun ()
  have hmask : Watcher.Step Watcher.start ⟨.ret (.monitor ⟨true, 0, 0, none⟩), [],
      [⟨[], ⟨.sigprocmask monitorSignals, ()⟩⟩]⟩ :=
    .call (c := .sigprocmask monitorSignals) () hkernel
  have hloops : ∃ w : Watcher, Relation.ReflTransGen Watcher.Step
      ⟨.ret (.monitor ⟨true, 0, 0, none⟩), [], [⟨[], ⟨.sigprocmask monitorSignals, ()⟩⟩]⟩ w ∧
        w.children = [4323] ∧ w.past.length = 5 :=
    ⟨_, .head (.loop rfl) <|
      .head (.call (c := .fork) (.parent 4322) (.fork (by decide) (by decide))) <|
      .head (.call (c := .sigwaitinfo monitorSignals) (.ok .sigchld) (.sigwaitinfo (by decide))) <|
      .head (.call (c := .wait) (.ok (WaitStatus.exited 0).raw)
        (.wait (show 4322 ∈ [4322] by decide) _)) <|
      .head (.loop rfl) <|
      .single (.call (c := .fork) (.parent 4323) (.fork (by decide) (by decide))), rfl, rfl⟩
  obtain ⟨w, hrun, hchildren, hlength⟩ := hloops
  exact ⟨w, hchildren, hlength, monitor_supervises (.head hmask hrun)⟩

end Robotd
