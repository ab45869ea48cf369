import Robotd.Lib.Machine
import Robotd.Log.Sink

/-!
# The writers of the log file

The sinks of a monitor and its master on one `LogName.log`, after `monitor_proc`,
`daemon_load_config` and the constructor of `service`. A fork copies the sink of the monitor, a
reload makes a new one on the same name, and the loggers of the slaves keep the one they were made
with. `log_bounded_iff` says in which orders of the writes the file keeps to `Size` bytes, whatever
the messages are.
-/

namespace Robotd

open Lib

inductive Writer where
  | monitor
  | master
  | slaves
  deriving DecidableEq, Repr

/-- What happens next: a message is written, a process reloads the configuration, the monitor forks
a master, the master ends. -/
inductive Turn where
  | write (writer : Writer)
  | reloadMonitor
  | reloadMaster
  | fork
  | masterEnds
  deriving DecidableEq, Repr

/-- Which sink each logger has: the sinks are numbered in the order in which they are made.
`counted` are the sinks that have counted all that was written to `LogName.log`. -/
structure Sinks where
  next : Nat
  monitor : Nat
  master : Option (Nat × Nat)
  counted : List Nat
  deriving DecidableEq, Repr

namespace Sinks

/-- The sink that a process logs to. -/
def of (r : Sinks) : Writer → Option Nat
  | .monitor => some r.monitor
  | .master => r.master.map Prod.fst
  | .slaves => r.master.map Prod.snd

def step (r : Sinks) : Turn → Option Sinks
  | .write writer => (r.of writer).map fun k => { r with counted := [k] }
  | .reloadMonitor =>
      some { r with next := r.next + 1, monitor := r.next, counted := r.next :: r.counted }
  | .reloadMaster => r.master.map fun (_, slaves) =>
      { r with next := r.next + 1, master := some (r.next, slaves), counted := r.next :: r.counted }
  | .fork => match r.master with
      | some _ => none
      | none => some { r with
          next := r.next + 1
          master := some (r.next, r.next)
          counted := if r.monitor ∈ r.counted then r.next :: r.counted else r.counted }
  | .masterEnds => r.master.map fun _ => { r with master := none }

/-- A monitor that has loaded its configuration. -/
def start : Sinks := ⟨1, 0, none, [0]⟩

/-- Who writes has counted what others have written: no other sink has written since this one was
opened or wrote last. -/
def Counts (r : Sinks) : Turn → Prop
  | .write writer => ∀ k ∈ r.of writer, k ∈ r.counted
  | _ => True

end Sinks

/-- The log file, the objects of the sinks, and who has which. -/
structure Logs where
  disk : Disk
  sinks : Nat → RotatingSink
  roles : Sinks

namespace Logs

/-- A new sink. -/
def reload (limit : Nat) (s : Logs) (roles : Sinks) : Logs :=
  let (sink, disk) := RotatingSink.make limit 1 s.disk
  ⟨disk, Function.update s.sinks s.roles.next sink, roles⟩

/-- A message of `n` bytes. -/
def write (s : Logs) (k n : Nat) (roles : Sinks) : Logs :=
  let (sink, disk) := (s.sinks k).sinkIt n s.disk
  ⟨disk, Function.update s.sinks k sink, roles⟩

/-- One step, with the length of the message. -/
def step (limit : Nat) (s : Logs) (a : Turn × Nat) : Option Logs := do
  let roles ← s.roles.step a.1
  match a.1 with
  | .write writer => return s.write (← s.roles.of writer) a.2 roles
  | .reloadMonitor | .reloadMaster => return s.reload limit roles
  | .fork =>
    return { s with
      sinks := Function.update s.sinks s.roles.next (s.sinks s.roles.monitor)
      roles := roles }
  | .masterEnds => return { s with roles := roles }

/-- A monitor that has opened a `LogName.log` of this size. -/
def start (limit size : Nat) : Logs :=
  let (sink, disk) := RotatingSink.make limit 1
    ⟨Function.update (fun _ => none) 0 (some 0), fun _ => size, fun _ => ⟨0, true, 0⟩, 1⟩
  ⟨disk, fun _ => sink, .start⟩

/-- `LogName.log` has at most `limit` bytes. -/
def Bounded (limit : Nat) (s : Logs) : Prop :=
  ∀ inode ∈ s.disk.name 0, s.disk.size inode ≤ limit

variable {limit : Nat} {s s' : Logs}

/-! ## Writers that count -/

/-- The sinks that have counted everything know the size of the file, which keeps to the limit. -/
structure Sound (limit : Nat) (s : Logs) : Prop where
  size : ∃ inode, s.disk.name 0 = some inode ∧ s.disk.size inode ≤ limit ∧
    ∀ k ∈ s.roles.counted, (s.disk.opened (s.sinks k).file).inode = inode ∧
      (s.sinks k).currentSize = s.disk.size inode ∧
      s.disk.position (s.sinks k).file = s.disk.size inode
  sinks : ∀ k, (s.sinks k).maxSize = limit ∧ (s.sinks k).maxFiles = 1 ∧ (s.sinks k).file < s.disk.next
  counted : ∀ k ∈ s.roles.counted, k < s.roles.next

theorem Sound.bounded (h : s.Sound limit) : s.Bounded limit := by
  obtain ⟨inode, hname, hsize, -⟩ := h.size
  intro inode' hname'
  rw [hname] at hname'
  cases hname'
  exact hsize

theorem sound_start {size : Nat} (h : size ≤ limit) : (start limit size).Sound limit := by
  have hname : (Function.update (fun _ => none) 0 (some 0) : Nat → Option Nat) 0 = some 0 :=
    Function.update_self ..
  refine ⟨⟨0, ?_, ?_, ?_⟩, ?_, ?_⟩
  all_goals simp [start, RotatingSink.make, Disk.fopen, Disk.position, Sinks.start, h]

/-- A message leaves the limits of the sinks, and their handles are those of the disk. -/
theorem sinks_write {k n : Nat} {roles : Sinks} (h : s.Sound limit) (k' : Nat) :
    ((s.write k n roles).sinks k').maxSize = limit ∧ ((s.write k n roles).sinks k').maxFiles = 1 ∧
      ((s.write k n roles).sinks k').file < (s.write k n roles).disk.next := by
  obtain ⟨hmax, hone, hfile⟩ := h.sinks k
  obtain ⟨hmax', hone', hfile', hnext⟩ := RotatingSink.sinkIt_keeps (n := n) hone hfile
  by_cases hk : k' = k
  · subst hk
    simp only [write, Function.update_self]
    exact ⟨hmax'.trans hmax, hone', hfile'⟩
  · simp only [write, Function.update_of_ne hk]
    obtain ⟨hmax'', hone'', hfile''⟩ := h.sinks k'
    exact ⟨hmax'', hone'', hfile''.trans_le hnext⟩

/-- A message of a sink that has counted everything. -/
theorem sound_write {k n : Nat} {roles : Sinks} (h : s.Sound limit) (hk : k ∈ s.roles.counted)
    (hn : n ≤ limit) (hroles : roles.counted = [k]) (hnext : roles.next = s.roles.next) :
    (s.write k n roles).Sound limit := by
  obtain ⟨inode, hname, hsize, hcounted⟩ := h.size
  obtain ⟨hinode, hcount, hend⟩ := hcounted k hk
  obtain ⟨hmax, hone, hfile⟩ := h.sinks k
  have hmine : ∀ k' ∈ (s.write k n roles).roles.counted, k' = k := by
    intro k' hk'
    exact List.mem_singleton.mp (hroles ▸ hk')
  refine ⟨?_, sinks_write h, ?_⟩
  · by_cases hfits : (s.sinks k).currentSize + n ≤ (s.sinks k).maxSize
    · have hlonger := Disk.fwrite_end (n := n) (hend.trans (congrArg s.disk.size hinode.symm))
      rw [hinode] at hlonger
      have hlimit : s.disk.size inode + n ≤ limit := by rwa [hmax, hcount] at hfits
      rw [write, RotatingSink.sinkIt_fits hfits] at hmine ⊢
      refine ⟨inode, hname, hlonger.1.trans_le hlimit, fun k' hk' => ?_⟩
      rw [hmine k' hk']
      dsimp only
      rw [Function.update_self, hlonger.1, ← hcount]
      refine ⟨(Disk.fwrite_inode _).trans hinode, rfl, ?_⟩
      rw [hcount]
      exact hlonger.2
    · obtain ⟨hsink, hname', hsize', hinode', hend', -⟩ :=
        RotatingSink.sinkIt_rotates (d := s.disk) (Nat.not_le.mp hfits) hone
      refine ⟨s.disk.next, hname', hsize'.trans_le hn, fun k' hk' => ?_⟩
      rw [hmine k' hk']
      simp only [write, Function.update_self, hsink]
      exact ⟨hinode', hsize'.symm, hend'.trans hsize'.symm⟩
  · intro k' hk'
    rw [hmine k' hk']
    exact (h.counted k hk).trans_eq hnext.symm

/-- A new sink has counted everything. -/
theorem sound_reload {roles : Sinks} (h : s.Sound limit)
    (hroles : roles.counted = s.roles.next :: s.roles.counted)
    (hnext : roles.next = s.roles.next + 1) : (s.reload limit roles).Sound limit := by
  obtain ⟨inode, hname, hsize, hcounted⟩ := h.size
  rw [reload, RotatingSink.make_existing hname]
  refine ⟨⟨inode, hname, hsize, fun k hk => ?_⟩, fun k => ?_, fun k hk => ?_⟩
  · by_cases hnew : k = s.roles.next
    · simp [hnew, Disk.position]
    · have hold : k ∈ s.roles.counted := by simpa [hroles, hnew] using hk
      have hfile : (s.sinks k).file ≠ s.disk.next := (h.sinks k).2.2.ne
      obtain ⟨hinode, hcount, hend⟩ := hcounted k hold
      simp only [Function.update_of_ne hnew, Function.update_of_ne hfile, Disk.position]
      exact ⟨hinode, hcount, hend⟩
  · by_cases hnew : k = s.roles.next
    · simp [hnew]
    · obtain ⟨hmax, hone, hfile⟩ := h.sinks k
      simp only [Function.update_of_ne hnew]
      exact ⟨hmax, hone, hfile.trans (Nat.lt_succ_self _)⟩
  · have hk : k = s.roles.next ∨ k ∈ s.roles.counted := by simpa [hroles] using hk
    show k < roles.next
    rw [hnext]
    rcases hk with rfl | hold
    · exact Nat.lt_succ_self _
    · exact (h.counted k hold).trans (Nat.lt_succ_self _)

/-- The copy of a sink has counted what the sink has. -/
theorem sound_fork {roles : Sinks} (h : s.Sound limit)
    (hroles : roles.counted =
      if s.roles.monitor ∈ s.roles.counted then s.roles.next :: s.roles.counted else s.roles.counted)
    (hnext : roles.next = s.roles.next + 1) :
    Sound limit { s with
      sinks := Function.update s.sinks s.roles.next (s.sinks s.roles.monitor)
      roles := roles } := by
  obtain ⟨inode, hname, hsize, hcounted⟩ := h.size
  have hwho : ∀ k ∈ roles.counted, k = s.roles.next ∧ s.roles.monitor ∈ s.roles.counted ∨
      k ≠ s.roles.next ∧ k ∈ s.roles.counted := by
    intro k hk
    by_cases hmonitor : s.roles.monitor ∈ s.roles.counted
    · rw [hroles, if_pos hmonitor, List.mem_cons] at hk
      rcases hk with rfl | hold
      · exact .inl ⟨rfl, hmonitor⟩
      · exact .inr ⟨(h.counted k hold).ne, hold⟩
    · rw [hroles, if_neg hmonitor] at hk
      exact .inr ⟨(h.counted k hk).ne, hk⟩
  refine ⟨⟨inode, hname, hsize, fun k hk => ?_⟩, fun k => ?_, fun k hk => ?_⟩
  · rcases hwho k hk with ⟨rfl, hmonitor⟩ | ⟨hne, hold⟩
    · simp only [Function.update_self]
      exact hcounted _ hmonitor
    · simp only [Function.update_of_ne hne]
      exact hcounted k hold
  · by_cases hnew : k = s.roles.next
    · simp only [hnew, Function.update_self]
      exact h.sinks _
    · simp only [Function.update_of_ne hnew]
      exact h.sinks k
  · show k < roles.next
    rw [hnext]
    rcases hwho k hk with ⟨rfl, -⟩ | ⟨-, hold⟩
    · exact Nat.lt_succ_self _
    · exact (h.counted k hold).trans (Nat.lt_succ_self _)

/-- The step lemma. -/
theorem sound_step {turn : Turn} {n : Nat} (h : s.Sound limit) (hcounts : s.roles.Counts turn)
    (hn : n ≤ limit) (hstep : step limit s (turn, n) = some s') :
    s'.Sound limit ∧ s.roles.step turn = some s'.roles := by
  obtain ⟨roles, hroles, hrest⟩ := Option.bind_eq_some_iff.mp hstep
  cases turn with
  | write writer =>
      obtain ⟨k, hk, hs'⟩ := Option.bind_eq_some_iff.mp hrest
      cases hs'
      obtain ⟨k', hk', hset⟩ := Option.map_eq_some_iff.mp hroles
      rw [hk] at hk'
      cases hk'
      subst hset
      exact ⟨sound_write h (hcounts k hk) hn rfl rfl, hroles⟩
  | reloadMonitor =>
      cases hrest
      cases hroles
      exact ⟨sound_reload h rfl rfl, rfl⟩
  | reloadMaster =>
      cases hrest
      obtain ⟨master, hmaster, hset⟩ := Option.map_eq_some_iff.mp hroles
      subst hset
      exact ⟨sound_reload h rfl rfl, hroles⟩
  | fork =>
      cases hrest
      refine ⟨?_, hroles⟩
      rw [Sinks.step] at hroles
      split at hroles
      · cases hroles
      · cases hroles
        exact sound_fork h rfl rfl
  | masterEnds =>
      cases hrest
      obtain ⟨master, hmaster, hset⟩ := Option.map_eq_some_iff.mp hroles
      subst hset
      exact ⟨⟨h.size, h.sinks, h.counted⟩, hroles⟩

/-- Where every writer counts, the file keeps to the limit. -/
theorem always_bounded {turns : List Turn} {messages : List Nat} (h : s.Sound limit)
    (hcounts : Machine.Along Sinks.step Sinks.Counts s.roles turns)
    (hn : ∀ n ∈ messages, n ≤ limit) :
    Machine.Always (step limit) (Bounded limit) s (turns.zip messages) := by
  induction turns generalizing s messages with
  | nil => exact h.bounded
  | cons turn rest ih => cases messages with
      | nil => exact h.bounded
      | cons n messages =>
          rw [List.zip_cons_cons, Machine.Always]
          refine ⟨h.bounded, ?_⟩
          cases hstep : step limit s (turn, n) with
          | none => trivial
          | some s' =>
              obtain ⟨hok, hrest⟩ := hcounts
              obtain ⟨hsound, hroles⟩ := sound_step h hok (hn n List.mem_cons_self) hstep
              rw [hroles] at hrest
              exact ih hsound hrest fun n' hn' => hn n' (List.mem_cons_of_mem n hn')

/-! ## A writer that does not count -/

/-- A sink has the first file open to append, and has counted no more than there is. -/
structure Appends (limit : Nat) (disk : Disk) (sink : RotatingSink) : Prop where
  maxSize : sink.maxSize = limit
  inode : (disk.opened sink.file).inode = 0
  append : (disk.opened sink.file).append = true
  file : sink.file < disk.next
  count : sink.currentSize ≤ disk.size 0

/-- All sinks append to the first file, and those that have not counted everything have counted
less than there is. -/
structure Light (limit : Nat) (s : Logs) : Prop where
  name : s.disk.name 0 = some 0
  sinks : ∀ k < s.roles.next, Appends limit s.disk (s.sinks k)
  behind : ∀ k < s.roles.next, k ∉ s.roles.counted → (s.sinks k).currentSize < s.disk.size 0
  roles : ∀ writer, ∀ k ∈ s.roles.of writer, k < s.roles.next

theorem Appends.position {disk : Disk} {sink : RotatingSink} (h : Appends limit disk sink) :
    disk.position sink.file = disk.size 0 := by
  rw [Disk.position, if_pos h.append, h.inode]

/-- A message that fits makes the file longer. -/
theorem write_fits {k n : Nat} (roles : Sinks) (h : Appends limit s.disk (s.sinks k))
    (hfits : (s.sinks k).currentSize + n ≤ limit) :
    s.write k n roles = ⟨s.disk.fwrite (s.sinks k).file n, Function.update s.sinks k
      { s.sinks k with currentSize := (s.sinks k).currentSize + n }, roles⟩ ∧
        (s.write k n roles).disk.size 0 = s.disk.size 0 + n := by
  have hfits' : (s.sinks k).currentSize + n ≤ (s.sinks k).maxSize := hfits.trans_eq h.maxSize.symm
  have hlonger := Disk.fwrite_end (n := n) (h.position.trans (congrArg s.disk.size h.inode.symm))
  rw [h.inode] at hlonger
  rw [write, RotatingSink.sinkIt_fits hfits']
  exact ⟨rfl, hlonger.1⟩

theorem light_start (limit : Nat) : (start limit 0).Light limit := by
  refine ⟨?_, fun k _ => ⟨?_, ?_, ?_, ?_, ?_⟩, fun k hk hnot => ?_, fun writer k hk => ?_⟩
  · simp [start, RotatingSink.make, Disk.fopen]
  · simp [start, RotatingSink.make]
  · simp [start, RotatingSink.make, Disk.fopen]
  · simp [start, RotatingSink.make, Disk.fopen]
  · simp [start, RotatingSink.make, Disk.fopen]
  · simp [start, RotatingSink.make, Disk.fopen]
  · exact absurd (List.mem_singleton.mpr (Nat.lt_one_iff.mp hk)) hnot
  · cases writer with
    | monitor =>
        cases hk
        exact Nat.zero_lt_one
    | _ => cases hk

/-- A message of one byte. -/
theorem light_write {k : Nat} (roles : Sinks) (h : s.Light limit) (hk : k < s.roles.next)
    (hsize : s.disk.size 0 < limit) (hcounted : roles.counted = [k])
    (hsame : ∀ writer, roles.of writer = s.roles.of writer) (hnext : roles.next = s.roles.next) :
    (s.write k 1 roles).Light limit ∧ (s.write k 1 roles).disk.size 0 = s.disk.size 0 + 1 := by
  have hmine := h.sinks k hk
  have hcount : (s.sinks k).currentSize + 1 ≤ limit := (Nat.succ_le_succ hmine.count).trans hsize
  obtain ⟨hwrite, hlonger⟩ := write_fits roles hmine hcount
  refine ⟨?_, hlonger⟩
  rw [hwrite] at hlonger ⊢
  dsimp only at hlonger
  refine ⟨h.name, fun k' hk' => ?_, fun k' hk' hnot => ?_, fun writer k' hk' => ?_⟩
  · have hkeeps : ∀ sink, Appends limit s.disk sink →
        Appends limit (s.disk.fwrite (s.sinks k).file 1) sink := by
      intro sink hsink
      exact ⟨hsink.maxSize, (Disk.fwrite_inode _).trans hsink.inode,
        (Disk.fwrite_append _).trans hsink.append, hsink.file,
        (hsink.count.trans (Nat.le_succ _)).trans_eq hlonger.symm⟩
    dsimp only
    by_cases hme : k' = k
    · obtain ⟨hmax, hinode, happend, hfile, -⟩ := hkeeps _ hmine
      rw [hme, Function.update_self]
      exact ⟨hmax, hinode, happend, hfile, hlonger ▸ Nat.succ_le_succ hmine.count⟩
    · rw [Function.update_of_ne hme]
      exact hkeeps _ (h.sinks k' (hnext ▸ hk'))
  · have hne : k' ≠ k := fun heq => hnot (by rw [hcounted, heq]; exact List.mem_singleton_self k)
    dsimp only
    rw [Function.update_of_ne hne, hlonger]
    exact Nat.lt_succ_of_le (h.sinks k' (hnext ▸ hk')).count
  · rw [hsame] at hk'
    exact (h.roles writer k' hk').trans_eq hnext.symm

/-- A new sink, opened before the file has rotated. -/
theorem light_reload {roles : Sinks} (h : s.Light limit)
    (hcounted : roles.counted = s.roles.next :: s.roles.counted)
    (hroles : ∀ writer, ∀ k ∈ roles.of writer, k = s.roles.next ∨ k ∈ s.roles.of writer)
    (hnext : roles.next = s.roles.next + 1) :
    (s.reload limit roles).Light limit ∧ (s.reload limit roles).disk.size 0 = s.disk.size 0 := by
  rw [reload, RotatingSink.make_existing h.name]
  refine ⟨⟨h.name, fun k hk => ?_, fun k hk hnot => ?_, fun writer k hk => ?_⟩, rfl⟩
  · by_cases hnew : k = s.roles.next
    · constructor <;> simp [hnew]
    · have hold : k < s.roles.next := by
        have hk' : k < roles.next := hk
        omega
      obtain ⟨hmax, hinode, happend, hfile, hcount⟩ := h.sinks k hold
      dsimp only
      rw [Function.update_of_ne hnew]
      have hother := Function.update_of_ne hfile.ne ⟨0, true, 0⟩ s.disk.opened
      exact ⟨hmax, (congrArg OpenFile.inode hother).trans hinode,
        (congrArg OpenFile.append hother).trans happend, hfile.trans (Nat.lt_succ_self _), hcount⟩
  · have hnot' : k ≠ s.roles.next ∧ k ∉ s.roles.counted := by
      have hmem : k ∉ roles.counted := hnot
      simpa [hcounted] using hmem
    have hold : k < s.roles.next := by
      have hk' : k < roles.next := hk
      omega
    dsimp only
    rw [Function.update_of_ne hnot'.1]
    exact h.behind k hold hnot'.2
  · show k < roles.next
    rw [hnext]
    rcases hroles writer k hk with rfl | hold
    · exact Nat.lt_succ_self _
    · exact (h.roles writer k hold).trans (Nat.lt_succ_self _)

/-- The copy of a sink. -/
theorem light_fork {roles : Sinks} (h : s.Light limit)
    (hcounted : roles.counted =
      if s.roles.monitor ∈ s.roles.counted then s.roles.next :: s.roles.counted else s.roles.counted)
    (hroles : ∀ writer, ∀ k ∈ roles.of writer, k = s.roles.next ∨ k ∈ s.roles.of writer)
    (hnext : roles.next = s.roles.next + 1) :
    Light limit { s with
      sinks := Function.update s.sinks s.roles.next (s.sinks s.roles.monitor)
      roles := roles } := by
  have hmonitor : s.roles.monitor < s.roles.next := h.roles .monitor _ rfl
  refine ⟨h.name, fun k hk => ?_, fun k hk hnot => ?_, fun writer k hk => ?_⟩
  · by_cases hnew : k = s.roles.next
    · simp only [hnew, Function.update_self]
      exact h.sinks _ hmonitor
    · have hold : k < s.roles.next := by
        have hk' : k < roles.next := hk
        omega
      simp only [Function.update_of_ne hnew]
      exact h.sinks k hold
  · have hnot' : k ∉ roles.counted := hnot
    rw [hcounted] at hnot'
    by_cases hnew : k = s.roles.next
    · simp only [hnew, Function.update_self]
      refine h.behind _ hmonitor fun hmem => hnot' ?_
      rw [if_pos hmem, hnew]
      exact List.mem_cons_self
    · have hold : k < s.roles.next := by
        have hk' : k < roles.next := hk
        omega
      simp only [Function.update_of_ne hnew]
      refine h.behind k hold fun hmem => hnot' ?_
      split_ifs
      · exact List.mem_cons_of_mem _ hmem
      · exact hmem
  · show k < roles.next
    rw [hnext]
    rcases hroles writer k hk with rfl | hold
    · exact Nat.lt_succ_self _
    · exact (h.roles writer k hold).trans (Nat.lt_succ_self _)

/-- A turn whose message, if there is one, has one byte. -/
theorem light_step {turn : Turn} {roles : Sinks} (h : s.Light limit)
    (hroles : s.roles.step turn = some roles) (hsize : s.disk.size 0 < limit) :
    ∃ s', step limit s (turn, 1) = some s' ∧ s'.roles = roles ∧ s'.Light limit ∧
      s'.disk.size 0 ≤ s.disk.size 0 + 1 := by
  cases turn with
  | write writer =>
      obtain ⟨k, hk, rfl⟩ := Option.map_eq_some_iff.mp hroles
      have hlt : k < s.roles.next := h.roles writer k hk
      have hsame : ∀ w, ({ s.roles with counted := [k] } : Sinks).of w = s.roles.of w := by
        intro w
        cases w <;> rfl
      obtain ⟨hlight, hlonger⟩ := light_write { s.roles with counted := [k] } h hlt hsize rfl hsame rfl
      refine ⟨_, ?_, rfl, hlight, hlonger.le⟩
      simp [step, hroles, hk]
  | reloadMonitor =>
      cases hroles
      have hof : ∀ writer, ∀ k ∈ ({ s.roles with
          next := s.roles.next + 1
          monitor := s.roles.next
          counted := s.roles.next :: s.roles.counted } : Sinks).of writer,
          k = s.roles.next ∨ k ∈ s.roles.of writer := by
        intro writer k hk
        cases writer with
        | monitor => exact .inl (Option.some.inj hk).symm
        | _ => exact .inr hk
      obtain ⟨hlight, hkept⟩ := light_reload h rfl hof rfl
      exact ⟨_, rfl, rfl, hlight, hkept.le.trans (Nat.le_succ _)⟩
  | reloadMaster =>
      obtain ⟨⟨log, slaves⟩, hmaster, rfl⟩ := Option.map_eq_some_iff.mp hroles
      have hof : ∀ writer, ∀ k ∈ ({ s.roles with
          next := s.roles.next + 1
          master := some (s.roles.next, slaves)
          counted := s.roles.next :: s.roles.counted } : Sinks).of writer,
          k = s.roles.next ∨ k ∈ s.roles.of writer := by
        intro writer k hk
        cases writer with
        | monitor => exact .inr hk
        | master => exact .inl (Option.some.inj hk).symm
        | slaves =>
            right
            rw [Sinks.of, hmaster]
            exact hk
      obtain ⟨hlight, hkept⟩ := light_reload h rfl hof rfl
      refine ⟨_, ?_, rfl, hlight, hkept.le.trans (Nat.le_succ _)⟩
      simp [step, hroles]
  | fork =>
      cases hmaster : s.roles.master with
      | some master => simp [Sinks.step, hmaster] at hroles
      | none =>
          have hroles' : roles = { s.roles with
              next := s.roles.next + 1
              master := some (s.roles.next, s.roles.next)
              counted := if s.roles.monitor ∈ s.roles.counted then s.roles.next :: s.roles.counted
                else s.roles.counted } := by
            simpa [Sinks.step, hmaster] using hroles.symm
          have hof : ∀ writer, ∀ k ∈ roles.of writer, k = s.roles.next ∨ k ∈ s.roles.of writer := by
            rw [hroles']
            intro writer k hk
            cases writer with
            | monitor => exact .inr hk
            | _ => exact .inl (Option.some.inj hk).symm
          have hcounted := congrArg Sinks.counted hroles'
          have hnext := congrArg Sinks.next hroles'
          refine ⟨_, ?_, ?_, light_fork h hcounted hof hnext, Nat.le_succ _⟩
          · simp [step, hroles]
          · rfl
  | masterEnds =>
      obtain ⟨master, hmaster, rfl⟩ := Option.map_eq_some_iff.mp hroles
      refine ⟨{ s with roles := { s.roles with master := none } }, ?_, rfl,
        ⟨h.name, h.sinks, h.behind, fun writer k hk => ?_⟩, Nat.le_succ _⟩
      · simp [step, hroles]
      · cases writer with
        | monitor => exact h.roles .monitor k hk
        | _ => cases hk

/-- Turns with messages of one byte. -/
theorem light_run {turns : List Turn} {roles : Sinks} (h : s.Light limit)
    (hroles : Machine.run Sinks.step s.roles turns = some roles)
    (hsize : s.disk.size 0 + turns.length ≤ limit) :
    ∃ s', Machine.run (step limit) s (turns.map fun turn => (turn, 1)) = some s' ∧
      s'.roles = roles ∧ s'.Light limit ∧ s'.disk.size 0 ≤ s.disk.size 0 + turns.length := by
  induction turns generalizing s with
  | nil =>
      cases hroles
      exact ⟨s, rfl, rfl, h, le_rfl⟩
  | cons turn rest ih =>
      obtain ⟨next, hnext, hrest⟩ := Option.bind_eq_some_iff.mp hroles
      rw [List.length_cons] at hsize
      obtain ⟨s₁, hstep, rfl, hlight, hlonger⟩ := light_step h hnext (by omega)
      obtain ⟨s', hrun, hroles', hlight', hsize'⟩ := ih hlight hrest (by omega)
      refine ⟨s', ?_, hroles', hlight', ?_⟩
      · rw [List.map_cons, Machine.run, hstep]
        exact hrun
      · rw [List.length_cons]
        omega

/-- A sink that has not counted everything writes past any limit. -/
theorem exists_not_bounded {writer : Writer} {k : Nat} (h : s.Light limit)
    (hk : k ∈ s.roles.of writer) (hnot : k ∉ s.roles.counted) (hsize : s.disk.size 0 ≤ limit) :
    ∃ n s', 0 < n ∧ n ≤ limit ∧ step limit s (.write writer, n) = some s' ∧ ¬s'.Bounded limit := by
  have hlt := h.roles writer k hk
  have hbehind := h.behind k hlt hnot
  have hfits : (s.sinks k).currentSize + (limit - (s.sinks k).currentSize) ≤ limit := by omega
  obtain ⟨hwrite, hlonger⟩ := write_fits { s.roles with counted := [k] } (h.sinks k hlt) hfits
  refine ⟨limit - (s.sinks k).currentSize,
    s.write k (limit - (s.sinks k).currentSize) { s.roles with counted := [k] }, by omega,
    Nat.sub_le _ _, ?_, fun hbounded => ?_⟩
  · have hroles : s.roles.step (.write writer) = some { s.roles with counted := [k] } := by
      rw [Sinks.step, show s.roles.of writer = some k from hk]
      rfl
    simp only [step, hroles, Option.bind_eq_bind, Option.bind_some]
    rw [show s.roles.of writer = some k from hk]
    rfl
  · have hname : (s.write k (limit - (s.sinks k).currentSize)
        { s.roles with counted := [k] }).disk.name 0 = some 0 := by
      rw [hwrite]
      exact h.name
    have hle := hbounded 0 hname
    omega

/-- The log file keeps to its size in all runs with this order of turns exactly when every writer
has counted what the others have written. -/
theorem log_bounded_iff (turns : List Turn) :
    (∀ limit size messages, size ≤ limit → (∀ n ∈ messages, 0 < n ∧ n ≤ limit) →
      Machine.Always (step limit) (Bounded limit) (start limit size) (turns.zip messages)) ↔
    Machine.Along Sinks.step Sinks.Counts Sinks.start turns := by
  constructor
  · intro hall
    by_contra hnot
    obtain ⟨first, turn, rest, roles, rfl, hroles, hcounts⟩ := Machine.exists_of_not_along hnot
    cases turn with
    | write writer =>
        have hbehind : ∃ k ∈ roles.of writer, k ∉ roles.counted := by simpa [Sinks.Counts] using hcounts
        obtain ⟨k, hk, hout⟩ := hbehind
        -- One byte a message, and room for all of them: no sink rotates on the way.
        have hempty : (start (first.length + 1) 0).disk.size 0 = 0 := by
          simp [start, RotatingSink.make, Disk.fopen]
        obtain ⟨s, hrun, rfl, hlight, hsize⟩ := light_run (light_start (first.length + 1)) hroles
          (by omega)
        obtain ⟨n, s', hpos, hle, hstep, hlong⟩ := exists_not_bounded hlight hk hout (by omega)
        have hmessages : ∀ m ∈ first.map (fun _ => 1) ++ [n], 0 < m ∧ m ≤ first.length + 1 := by
          intro m hm
          rcases List.mem_append.mp hm with hone | hlast
          · obtain ⟨turn, -, rfl⟩ := List.mem_map.mp hone
            exact ⟨Nat.one_pos, Nat.le_add_left 1 _⟩
          · rw [List.mem_singleton.mp hlast]
            exact ⟨hpos, hle⟩
        have hzip : (first ++ .write writer :: rest).zip (first.map (fun _ => 1) ++ [n]) =
            first.map (fun turn => (turn, 1)) ++ [(.write writer, n)] := by
          rw [List.zip_append (List.length_map _).symm, List.map_prod_left_eq_zip, List.zip_cons_cons,
            List.zip_nil_right]
        have halways := hall (first.length + 1) 0 _ (Nat.zero_le _) hmessages
        rw [hzip] at halways
        have hlast := halways.rest hrun
        rw [Machine.Always, hstep] at hlast
        exact hlong hlast.2
    | _ => exact hcounts trivial
  · intro hcounts limit size messages hsize hn
    exact always_bounded (sound_start hsize) hcounts fun n hmem => (hn n hmem).2

instance (s : Logs) : Decidable (s.Bounded limit) := inferInstanceAs (Decidable (∀ inode ∈ _, _))

/-- A master and then its monitor write a message of 50 bytes each to a file of 40900, and it comes
to have more than the 40k that it may have. -/
theorem two_writers_not_bounded : ¬ ∀ (turns : List Turn) limit size messages, size ≤ limit →
    (∀ n ∈ messages, 0 < n ∧ n ≤ limit) →
      Machine.Always (step limit) (Bounded limit) (start limit size) (turns.zip messages) := by
  intro hall
  have hlong : ((Machine.run (step 40960) (start 40960 40900)
      ([.fork, .write .master, .write .monitor].zip [50, 50, 50])).any
        fun s => decide ¬s.Bounded 40960) = true := by
    decide +kernel
  obtain ⟨s, hrun, hnot⟩ := Machine.exists_run hlong
  have halways := hall [.fork, .write .master, .write .monitor] 40960 40900 [50, 50, 50] (by decide)
    (by decide)
  rw [← List.append_nil (List.zip _ _)] at halways
  exact hnot (halways.rest hrun)

end Logs

end Robotd
