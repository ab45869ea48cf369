import Robotd.Log.Bound

/-!
# Files that sinks share

A file that a rotation has made is not open to append: each message goes to where the one before it
ended, whatever others have written since. `Sharing` follows the sinks that have such a file, and
those that have been opened on it since; `along_atEnd_iff` says in which orders of the turns all
messages go to the end of their files.
-/

namespace Robotd

open Lib

/-- From a message on, with which a new file may have been made: the sinks that may have this file,
those that have been opened on it, and whether one of these has written. -/
structure Sharing where
  roles : Sinks
  own : List Nat
  others : List Nat
  grown : Bool
  deriving DecidableEq, Repr

namespace Sharing

/-- The writer has made a file. -/
def begin (r : Sinks) (writer : Writer) : Option Sharing := do
  let k ← r.of writer
  let roles ← r.step (.write writer)
  return ⟨roles, [k], [], false⟩

/-- The copies of sinks have what the sinks have. -/
def copied (r : Sinks) (sinks : List Nat) : List Nat :=
  if r.monitor ∈ sinks then r.next :: sinks else sinks

def step (t : Sharing) (turn : Turn) : Option Sharing := do
  let roles ← t.roles.step turn
  match turn with
  | .write writer =>
    let k ← t.roles.of writer
    return { t with roles := roles, grown := t.grown || k ∈ t.others }
  | .reloadMonitor | .reloadMaster => return { t with roles := roles, others := t.roles.next :: t.others }
  | .fork => return { t with
      roles := roles
      own := copied t.roles t.own
      others := copied t.roles t.others }
  | .masterEnds => return { t with roles := roles }

theorem mem_copied {r : Sinks} {sinks : List Nat} {k : Nat} (h : k ∈ copied r sinks) :
    k = r.next ∧ r.monitor ∈ sinks ∨ k ∈ sinks := by
  rw [copied] at h
  split_ifs at h with hmonitor
  · exact (List.mem_cons.mp h).imp_left fun hk => ⟨hk, hmonitor⟩
  · exact .inr h

/-- Who writes has another file, or no other has written to it. -/
def Clear (t : Sharing) : Turn → Prop
  | .write writer => t.grown = true → ∀ k ∈ t.roles.of writer, k ∉ t.own
  | _ => True

end Sharing

namespace Disk

variable {d : Disk} {handle other n : Nat}

/-- A write to another open file. -/
theorem fwrite_position (happend : (d.opened handle).append = false) (hne : handle ≠ other) :
    (d.fwrite other n).position handle = d.position handle := by
  simp [position, fwrite, Function.update_of_ne hne, happend]

/-- A write makes no file shorter. -/
theorem size_le_fwrite (inode : Nat) : d.size inode ≤ (d.fwrite handle n).size inode := by
  by_cases h : inode = (d.opened handle).inode
  · simp [fwrite, h]
  · simp [fwrite, Function.update_of_ne h]

end Disk

/-- A rotation leaves the files and the open files that there were. -/
theorem RotatingSink.sinkIt_rotates_old {sink : RotatingSink} {d : Disk} {n : Nat}
    (h : sink.maxSize < sink.currentSize + n) (hone : sink.maxFiles = 1) :
    ((sink.sinkIt n d).2.opened d.next).append = false ∧
      ∀ old < d.next, (sink.sinkIt n d).2.opened old = d.opened old ∧
        (sink.sinkIt n d).2.size old = d.size old := by
  have hmissing : ({ d with name := Disk.shift 1 d.name } : Disk).name 0 = none := Disk.shift_one d.name
  simp only [sinkIt, h, if_true, rotate, hone, Disk.fopen_missing hmissing, Disk.fwrite]
  refine ⟨by simp, fun old hold => ?_⟩
  simp [hold.ne]

namespace Logs

/-- A message goes to a new file or to the end of one. -/
def AtEnd (s : Logs) (a : Turn × Nat) : Prop :=
  match a.1 with
  | .write writer => ∀ k ∈ s.roles.of writer, (s.sinks k).currentSize + a.2 ≤ (s.sinks k).maxSize →
      s.disk.position (s.sinks k).file = s.disk.size (s.disk.opened (s.sinks k).file).inode
  | _ => True

/-! ## Files that are followed -/

/-- What is followed of a file that is not open to append. -/
structure Follows (s : Logs) (handle : Nat) (t : Sharing) : Prop where
  roles : t.roles = s.roles
  own : ∀ k < s.roles.next, (s.sinks k).file = handle → k ∈ t.own
  others : ∀ k < s.roles.next, (s.sinks k).file ≠ handle →
    (s.disk.opened (s.sinks k).file).inode = (s.disk.opened handle).inode → k ∈ t.others
  grown : t.grown = false → s.disk.position handle = s.disk.size (s.disk.opened handle).inode

/-- The file has been made with one of the messages, and has been followed since. -/
def Made (done : List Turn) (s : Logs) (handle : Nat) : Prop :=
  ∃ before writer after r t, done = before ++ .write writer :: after ∧
    (Machine.run Sinks.step .start before >>= fun roles => Sharing.begin roles writer) = some r ∧
    Machine.run Sharing.step r after = some t ∧ s.Follows handle t

/-- All files that are not open to append are followed. -/
structure Tracked (done : List Turn) (s : Logs) : Prop where
  name : ∃ inode, s.disk.name 0 = some inode ∧ inode < s.disk.next
  sinks : ∀ k, (s.sinks k).maxFiles = 1 ∧ (s.sinks k).file < s.disk.next
  inodes : ∀ handle < s.disk.next, (s.disk.opened handle).inode < s.disk.next
  live : ∀ writer, ∀ k ∈ s.roles.of writer, k < s.roles.next
  run : Machine.run Sinks.step .start done = some s.roles
  made : ∀ handle < s.disk.next, (s.disk.opened handle).append = false → s.Made done handle

variable {limit : Nat} {s s' : Logs} {done : List Turn} {turn : Turn} {handle : Nat}

/-- One more step of the followed file. -/
theorem Made.concat (h : s.Made done handle) (hstep : ∀ t, s.Follows handle t →
    ∃ t', t.step turn = some t' ∧ s'.Follows handle t') : s'.Made (done ++ [turn]) handle := by
  obtain ⟨before, writer, after, r, t, rfl, hbegin, hrun, hfollows⟩ := h
  obtain ⟨t', hnext, hfollows'⟩ := hstep t hfollows
  refine ⟨before, writer, after ++ [turn], r, t', by simp, hbegin, ?_, hfollows'⟩
  rw [Machine.run_concat, hrun]
  exact hnext

theorem run_concat_roles (h : s.Tracked done) {roles : Sinks} (hroles : s.roles.step turn = some roles) :
    Machine.run Sinks.step .start (done ++ [turn]) = some roles := by
  rw [Machine.run_concat, h.run]
  exact hroles

theorem tracked_start (limit size : Nat) : (start limit size).Tracked [] := by
  refine ⟨⟨0, ?_, ?_⟩, fun k => ⟨?_, ?_⟩, fun handle hlt => ?_, fun writer k hk => ?_, rfl,
    fun handle hlt happend => ?_⟩
  · simp [start, RotatingSink.make, Disk.fopen]
  · simp [start, RotatingSink.make, Disk.fopen]
  · simp [start, RotatingSink.make]
  · simp [start, RotatingSink.make, Disk.fopen]
  · by_cases hone : handle = 1 <;> simp [start, RotatingSink.make, Disk.fopen, hone]
  · cases writer with
    | monitor =>
        cases hk
        exact Nat.zero_lt_one
    | _ => cases hk
  · by_cases hone : handle = 1 <;> simp [start, RotatingSink.make, Disk.fopen] at happend

/-! ### Messages -/

/-- The writer of a followed file, when it may write. -/
theorem position_of_clear {t : Sharing} {writer : Writer} {k : Nat} (hfollows : s.Follows handle t)
    (hclear : t.Clear (.write writer)) (hk : k ∈ s.roles.of writer) (hlt : k < s.roles.next)
    (hfile : (s.sinks k).file = handle) :
    s.disk.position handle = s.disk.size (s.disk.opened handle).inode := by
  refine hfollows.grown ?_
  by_contra hgrown
  exact hclear (Bool.eq_true_of_not_eq_false hgrown) k (hfollows.roles ▸ hk) (hfollows.own k hlt hfile)

/-- A message changes who has counted, and nothing else of who has what. -/
theorem roles_write {r roles : Sinks} {writer : Writer} {k : Nat} (hk : k ∈ r.of writer)
    (hroles : r.step (.write writer) = some roles) :
    roles.next = r.next ∧ ∀ w, roles.of w = r.of w := by
  rw [Sinks.step, show r.of writer = some k from hk, Option.map_some] at hroles
  obtain rfl := Option.some.inj hroles
  exact ⟨rfl, fun w => by cases w <;> rfl⟩

theorem sharing_write {t : Sharing} {roles : Sinks} {writer : Writer} {k : Nat}
    (hk : k ∈ t.roles.of writer) (hroles : t.roles.step (.write writer) = some roles) :
    t.step (.write writer) =
      some { t with roles := roles, grown := t.grown || decide (k ∈ t.others) } := by
  rw [Sharing.step, hroles, Option.bind_eq_bind, Option.bind_some]
  dsimp only
  rw [show t.roles.of writer = some k from hk]
  rfl

/-- A message at the end of the file that is open. -/
theorem tracked_fits {writer : Writer} {k n : Nat} {roles : Sinks} (h : s.Tracked done)
    (hk : k ∈ s.roles.of writer) (hroles : s.roles.step (.write writer) = some roles)
    (hfits : (s.sinks k).currentSize + n ≤ (s.sinks k).maxSize)
    (hend : s.disk.position (s.sinks k).file = s.disk.size (s.disk.opened (s.sinks k).file).inode) :
    (s.write k n roles).Tracked (done ++ [.write writer]) := by
  have hlive := h.live writer k hk
  obtain ⟨hnext, hof⟩ := roles_write hk hroles
  obtain ⟨hlonger, hafter⟩ := Disk.fwrite_end (n := n) hend
  have hfile : ∀ j, (Function.update s.sinks k
      { s.sinks k with currentSize := (s.sinks k).currentSize + n } j).file = (s.sinks j).file := by
    intro j
    by_cases hj : j = k
    · rw [hj, Function.update_self]
    · rw [Function.update_of_ne hj]
  rw [write, RotatingSink.sinkIt_fits hfits]
  refine ⟨h.name, fun j => ?_, fun handle hlt => ?_, fun w j hj => ?_, run_concat_roles h hroles,
    fun handle hlt happend => ?_⟩
  · refine ⟨?_, (hfile j).trans_lt (h.sinks j).2⟩
    show (Function.update s.sinks k _ j).maxFiles = 1
    by_cases hj : j = k
    · rw [hj, Function.update_self]
      exact (h.sinks k).1
    · rw [Function.update_of_ne hj]
      exact (h.sinks j).1
  · exact (Disk.fwrite_inode handle).trans_lt (h.inodes handle hlt)
  · exact (h.live w j (hof w ▸ hj)).trans_eq hnext.symm
  · rw [Disk.fwrite_append] at happend
    refine (h.made handle hlt happend).concat fun t hfollows => ?_
    have hk' : k ∈ t.roles.of writer := hfollows.roles ▸ hk
    refine ⟨_, sharing_write hk' (hfollows.roles ▸ hroles), rfl, fun j hj hown => ?_,
      fun j hj hother hinode => ?_, fun hgrown => ?_⟩
    · exact hfollows.own j (hj.trans_eq hnext) ((hfile j).symm.trans hown)
    · rw [hfile] at hother hinode
      rw [Disk.fwrite_inode, Disk.fwrite_inode] at hinode
      exact hfollows.others j (hj.trans_eq hnext) hother hinode
    · obtain ⟨hold, hnot⟩ := Bool.or_eq_false_iff.mp hgrown
      dsimp only
      rw [Disk.fwrite_inode]
      by_cases hmine : handle = (s.sinks k).file
      · rw [hmine, hlonger, hafter]
      · -- the file that is written to is another one
        have hinode : (s.disk.opened handle).inode ≠ (s.disk.opened (s.sinks k).file).inode := by
          intro heq
          exact of_decide_eq_false hnot (hfollows.others k hlive (Ne.symm hmine) heq.symm)
        have hplace := hfollows.grown hold
        rw [Disk.position] at hplace ⊢
        simp only [Disk.fwrite, Function.update_of_ne hmine, Function.update_of_ne hinode]
        exact hplace

/-- A message that is the first one of a new file, which is followed from there on. -/
theorem tracked_rotates {writer : Writer} {k n : Nat} {roles : Sinks} (h : s.Tracked done)
    (hk : k ∈ s.roles.of writer) (hroles : s.roles.step (.write writer) = some roles)
    (hfull : (s.sinks k).maxSize < (s.sinks k).currentSize + n) :
    (s.write k n roles).Tracked (done ++ [.write writer]) := by
  obtain ⟨hnext, hof⟩ := roles_write hk hroles
  obtain ⟨hsink, hname, hsize, hinode, hend, hfree⟩ :=
    RotatingSink.sinkIt_rotates (d := s.disk) hfull (h.sinks k).1
  obtain ⟨hmode, hold⟩ := RotatingSink.sinkIt_rotates_old (d := s.disk) hfull (h.sinks k).1
  have hdisk : (s.write k n roles).disk = ((s.sinks k).sinkIt n s.disk).2 := rfl
  have hmine : (s.write k n roles).sinks k = { s.sinks k with currentSize := n, file := s.disk.next } := by
    rw [← hsink]
    exact Function.update_self k _ s.sinks
  have hother : ∀ j ≠ k, (s.write k n roles).sinks j = s.sinks j := by
    intro j hj
    exact Function.update_of_ne hj _ s.sinks
  have hposition : ∀ old < s.disk.next, (s.write k n roles).disk.position old = s.disk.position old := by
    intro old hlt
    rw [Disk.position, Disk.position, hdisk, (hold old hlt).1, (hold _ (h.inodes old hlt)).2]
  refine ⟨⟨s.disk.next, hname, ?_⟩, fun j => ?_, fun old hlt => ?_, fun w j hj => ?_,
    run_concat_roles h hroles, fun old hlt happend => ?_⟩
  · rw [hdisk, hfree]
    exact Nat.lt_succ_self _
  · rw [hdisk, hfree]
    by_cases hj : j = k
    · rw [hj, hmine]
      exact ⟨(h.sinks k).1, Nat.lt_succ_self _⟩
    · rw [hother j hj]
      exact ⟨(h.sinks j).1, (h.sinks j).2.trans (Nat.lt_succ_self _)⟩
  · rw [hdisk, hfree] at hlt ⊢
    rcases Nat.lt_succ_iff_lt_or_eq.mp hlt with hlt | rfl
    · rw [(hold old hlt).1]
      exact (h.inodes old hlt).trans (Nat.lt_succ_self _)
    · rw [hinode]
      exact Nat.lt_succ_self _
  · exact (h.live w j (hof w ▸ hj)).trans_eq hnext.symm
  · rw [hdisk, hfree] at hlt
    rcases Nat.lt_succ_iff_lt_or_eq.mp hlt with hlt | rfl
    · -- a file that has been made before
      rw [hdisk, (hold old hlt).1] at happend
      refine (h.made old hlt happend).concat fun t hfollows => ?_
      have hk' : k ∈ t.roles.of writer := hfollows.roles ▸ hk
      refine ⟨_, sharing_write hk' (hfollows.roles ▸ hroles), rfl, fun j hj hown => ?_,
        fun j hj hfile hsame => ?_, fun hgrown => ?_⟩
      · have hne : j ≠ k := by
          rintro rfl
          rw [hmine] at hown
          exact hlt.ne' hown
        rw [hother j hne] at hown
        exact hfollows.own j (hj.trans_eq hnext) hown
      · have hne : j ≠ k := by
          rintro rfl
          rw [hmine, hdisk, hinode, (hold old hlt).1] at hsame
          exact (h.inodes old hlt).ne' hsame
        rw [hother j hne] at hfile hsame
        rw [hdisk, (hold _ (h.sinks j).2).1, (hold old hlt).1] at hsame
        exact hfollows.others j (hj.trans_eq hnext) hfile hsame
      · rw [hposition old hlt, hdisk, (hold old hlt).1, (hold _ (h.inodes old hlt)).2]
        exact hfollows.grown (Bool.or_eq_false_iff.mp hgrown).1
    · refine ⟨done, writer, [], ⟨roles, [k], [], false⟩, ⟨roles, [k], [], false⟩, rfl, ?_, rfl, rfl,
        fun j _ hown => ?_, fun j _ hfile hsame => ?_, fun _ => ?_⟩
      · rw [h.run, Option.bind_eq_bind, Option.bind_some, Sharing.begin, hroles,
          show s.roles.of writer = some k from hk]
        rfl
      · by_contra hnot
        have hne : j ≠ k := fun heq => hnot (heq ▸ List.mem_singleton_self k)
        rw [hother j hne] at hown
        exact (h.sinks j).2.ne hown
      · have hne : j ≠ k := by
          rintro rfl
          rw [hmine] at hfile
          exact hfile rfl
        rw [hother j hne, hdisk, hinode, (hold _ (h.sinks j).2).1] at hsame
        exact absurd hsame (h.inodes _ (h.sinks j).2).ne
      · rw [hdisk, hend, hinode, hsize]

/-! ### Reloads and forks -/

theorem sharing_reload {t : Sharing} {roles : Sinks} (hturn : turn = .reloadMonitor ∨ turn = .reloadMaster)
    (hroles : t.roles.step turn = some roles) :
    t.step turn = some { t with roles := roles, others := t.roles.next :: t.others } := by
  rcases hturn with rfl | rfl
  all_goals
    rw [Sharing.step, hroles]
    rfl

theorem sharing_fork {t : Sharing} {roles : Sinks} (hroles : t.roles.step .fork = some roles) :
    t.step .fork = some { t with
      roles := roles
      own := Sharing.copied t.roles t.own
      others := Sharing.copied t.roles t.others } := by
  rw [Sharing.step, hroles]
  rfl

/-- A sink that is opened on the file of the name. -/
theorem tracked_reload {roles : Sinks} (h : s.Tracked done) (hroles : s.roles.step turn = some roles)
    (hof : ∀ writer, ∀ k ∈ roles.of writer, k = s.roles.next ∨ k ∈ s.roles.of writer)
    (hnext : roles.next = s.roles.next + 1)
    (hshare : ∀ t : Sharing, t.roles = s.roles →
      t.step turn = some { t with roles := roles, others := t.roles.next :: t.others }) :
    (s.reload limit roles).Tracked (done ++ [turn]) := by
  obtain ⟨inode, hname, hinode⟩ := h.name
  have hold : ∀ old < s.disk.next,
      Function.update s.disk.opened s.disk.next ⟨inode, true, 0⟩ old = s.disk.opened old := by
    intro old hlt
    exact Function.update_of_ne hlt.ne _ s.disk.opened
  rw [reload, RotatingSink.make_existing hname]
  refine ⟨⟨inode, hname, hinode.trans (Nat.lt_succ_self _)⟩, fun j => ?_, fun old hlt => ?_,
    fun w j hj => ?_, run_concat_roles h hroles, fun old hlt happend => ?_⟩
  · by_cases hj : j = s.roles.next
    · simp [hj]
    · simp only [Function.update_of_ne hj]
      exact ⟨(h.sinks j).1, (h.sinks j).2.trans (Nat.lt_succ_self _)⟩
  · rcases Nat.lt_succ_iff_lt_or_eq.mp hlt with hlt | rfl
    · simp only [hold old hlt]
      exact (h.inodes old hlt).trans (Nat.lt_succ_self _)
    · simp only [Function.update_self]
      exact hinode.trans (Nat.lt_succ_self _)
  · show j < roles.next
    rw [hnext]
    rcases hof w j hj with rfl | hj
    · exact Nat.lt_succ_self _
    · exact (h.live w j hj).trans (Nat.lt_succ_self _)
  · rcases Nat.lt_succ_iff_lt_or_eq.mp hlt with hlt | rfl
    · simp only [hold old hlt] at happend
      refine (h.made old hlt happend).concat fun t hfollows => ?_
      have hne : ∀ j ≠ s.roles.next, j < roles.next → j < t.roles.next := by
        intro j hj hlt
        rw [hfollows.roles]
        omega
      refine ⟨_, hshare t hfollows.roles, rfl, fun j hj hown => ?_, fun j hj hfile hsame => ?_,
        fun hgrown => ?_⟩
      · have hj' : j ≠ s.roles.next := by
          rintro rfl
          simp only [Function.update_self] at hown
          exact hlt.ne' hown
        simp only [Function.update_of_ne hj'] at hown
        exact hfollows.own j (hfollows.roles ▸ hne j hj' hj) hown
      · by_cases hj' : j = s.roles.next
        · rw [hj', ← hfollows.roles]
          exact List.mem_cons_self
        · simp only [Function.update_of_ne hj', hold _ (h.sinks j).2, hold old hlt] at hfile hsame
          exact List.mem_cons_of_mem _
            (hfollows.others j (hfollows.roles ▸ hne j hj' hj) hfile hsame)
      · have hplace := hfollows.grown hgrown
        simp only [Disk.position, hold old hlt] at hplace ⊢
        exact hplace
    · simp at happend

/-- A copy of the sink of the monitor. -/
theorem tracked_fork {roles : Sinks} (h : s.Tracked done) (hroles : s.roles.step .fork = some roles)
    (hof : ∀ writer, ∀ k ∈ roles.of writer, k = s.roles.next ∨ k ∈ s.roles.of writer)
    (hnext : roles.next = s.roles.next + 1) :
    Tracked (done ++ [.fork]) { s with
      sinks := Function.update s.sinks s.roles.next (s.sinks s.roles.monitor)
      roles := roles } := by
  have hmonitor := h.live .monitor _ rfl
  refine ⟨h.name, fun j => ?_, h.inodes, fun w j hj => ?_, run_concat_roles h hroles,
    fun old hlt happend => ?_⟩
  · by_cases hj : j = s.roles.next
    · simp only [hj, Function.update_self]
      exact h.sinks _
    · simp only [Function.update_of_ne hj]
      exact h.sinks j
  · show j < roles.next
    rw [hnext]
    rcases hof w j hj with rfl | hj
    · exact Nat.lt_succ_self _
    · exact (h.live w j hj).trans (Nat.lt_succ_self _)
  · refine (h.made old hlt happend).concat fun t hfollows => ?_
    -- what the sink of the monitor is among, its copy is among
    have hcopied : ∀ (among : List Nat) (P : RotatingSink → Prop),
        (∀ j < s.roles.next, P (s.sinks j) → j ∈ among) → ∀ j < roles.next,
          P (Function.update s.sinks s.roles.next (s.sinks s.roles.monitor) j) →
            j ∈ Sharing.copied t.roles among := by
      intro among P hamong j hj hP
      rw [Sharing.copied, hfollows.roles]
      by_cases hj' : j = s.roles.next
      · rw [hj', Function.update_self] at hP
        rw [if_pos (hamong _ hmonitor hP), hj']
        exact List.mem_cons_self
      · rw [Function.update_of_ne hj'] at hP
        have hmem := hamong j (by omega) hP
        split_ifs
        · exact List.mem_cons_of_mem _ hmem
        · exact hmem
    refine ⟨_, sharing_fork (hfollows.roles ▸ hroles), rfl,
      hcopied t.own (fun sink => sink.file = old) hfollows.own,
      fun j hj hfile hsame => ?_, hfollows.grown⟩
    exact hcopied t.others
      (fun sink => sink.file ≠ old ∧ (s.disk.opened sink.file).inode = (s.disk.opened old).inode)
      (fun i hi hP => hfollows.others i hi hP.1 hP.2) j hj ⟨hfile, hsame⟩

/-! ### Runs -/

/-- The sinks that log after a step are those from before and a new one. -/
theorem of_step {r roles : Sinks} (hroles : r.step turn = some roles) (writer : Writer) :
    ∀ k ∈ roles.of writer, k = r.next ∨ k ∈ r.of writer := by
  intro k hk
  cases turn with
  | write w =>
      obtain ⟨j, -, rfl⟩ := Option.map_eq_some_iff.mp hroles
      cases writer <;> exact .inr hk
  | reloadMonitor =>
      cases hroles
      cases writer with
      | monitor => exact .inl (Option.some.inj hk).symm
      | _ => exact .inr hk
  | reloadMaster =>
      obtain ⟨⟨log, slaves⟩, hmaster, rfl⟩ := Option.map_eq_some_iff.mp hroles
      cases writer with
      | monitor => exact .inr hk
      | master => exact .inl (Option.some.inj hk).symm
      | slaves =>
          right
          rw [Sinks.of, hmaster]
          exact hk
  | fork =>
      rw [Sinks.step] at hroles
      split at hroles
      · cases hroles
      · cases hroles
        cases writer with
        | monitor => exact .inr hk
        | _ => exact .inl (Option.some.inj hk).symm
  | masterEnds =>
      obtain ⟨master, -, rfl⟩ := Option.map_eq_some_iff.mp hroles
      cases writer with
      | monitor => exact .inr hk
      | _ => cases hk

/-- What a step does. -/
theorem step_cases {n : Nat} (hstep : step limit s (turn, n) = some s') :
    s.roles.step turn = some s'.roles ∧
      ((∃ writer, ∃ k ∈ s.roles.of writer, turn = .write writer ∧ s' = s.write k n s'.roles) ∨
        ((turn = .reloadMonitor ∨ turn = .reloadMaster) ∧ s' = s.reload limit s'.roles) ∨
        (turn = .fork ∧ s' = { s with
          sinks := Function.update s.sinks s.roles.next (s.sinks s.roles.monitor)
          roles := s'.roles }) ∨
        (turn = .masterEnds ∧ s' = { s with roles := s'.roles })) := by
  obtain ⟨roles, hroles, hrest⟩ := Option.bind_eq_some_iff.mp hstep
  cases turn with
  | write writer =>
      obtain ⟨k, hk, hs'⟩ := Option.bind_eq_some_iff.mp hrest
      cases hs'
      exact ⟨hroles, .inl ⟨writer, k, hk, rfl, rfl⟩⟩
  | reloadMonitor =>
      cases hrest
      exact ⟨hroles, .inr (.inl ⟨.inl rfl, rfl⟩)⟩
  | reloadMaster =>
      cases hrest
      exact ⟨hroles, .inr (.inl ⟨.inr rfl, rfl⟩)⟩
  | fork =>
      cases hrest
      exact ⟨hroles, .inr (.inr (.inl ⟨rfl, rfl⟩))⟩
  | masterEnds =>
      cases hrest
      exact ⟨hroles, .inr (.inr (.inr ⟨rfl, rfl⟩))⟩

/-- A reload and a fork make a sink. -/
def nextSink (r : Sinks) : Turn → Nat
  | .write _ | .masterEnds => r.next
  | .reloadMonitor | .reloadMaster | .fork => r.next + 1

theorem next_step {r roles : Sinks} (hroles : r.step turn = some roles) :
    roles.next = nextSink r turn := by
  cases turn with
  | reloadMonitor =>
      cases hroles
      rfl
  | fork =>
      rw [Sinks.step] at hroles
      split at hroles <;> cases hroles
      rfl
  | _ =>
      obtain ⟨_, -, rfl⟩ := Option.map_eq_some_iff.mp hroles
      rfl

/-- The step lemma. -/
theorem tracked_step {n : Nat} (h : s.Tracked done) (hend : s.AtEnd (turn, n))
    (hstep : step limit s (turn, n) = some s') : s'.Tracked (done ++ [turn]) := by
  obtain ⟨hroles, hcases⟩ := step_cases hstep
  have hof := of_step hroles
  have hnext := next_step hroles
  rcases hcases with ⟨writer, k, hk, rfl, hs'⟩ | ⟨hturn, hs'⟩ | ⟨rfl, hs'⟩ | ⟨rfl, hs'⟩
  · rw [hs']
    by_cases hfits : (s.sinks k).currentSize + n ≤ (s.sinks k).maxSize
    · exact tracked_fits h hk hroles hfits (hend k hk hfits)
    · exact tracked_rotates h hk hroles (Nat.not_le.mp hfits)
  · rw [hs']
    refine tracked_reload h hroles hof ?_ fun t ht => sharing_reload hturn (ht ▸ hroles)
    rcases hturn with rfl | rfl <;> exact hnext
  · rw [hs']
    exact tracked_fork h hroles hof hnext
  · have hdisk := congrArg disk hs'
    have hsinks := congrArg sinks hs'
    have hless : ∀ w, ∀ k ∈ s'.roles.of w, k < s'.roles.next := by
      obtain ⟨master, -, hset⟩ := Option.map_eq_some_iff.mp hroles
      rw [← hset]
      intro w k hk
      cases w with
      | monitor => exact h.live .monitor k hk
      | _ => cases hk
    rw [hs']
    refine ⟨h.name, h.sinks, h.inodes, hless, run_concat_roles h hroles,
      fun handle hlt happend => (h.made handle hlt happend).concat fun t hfollows => ?_⟩
    refine ⟨{ t with roles := s'.roles }, ?_, rfl, fun j hj => hfollows.own j (hj.trans_eq hnext),
      fun j hj => hfollows.others j (hj.trans_eq hnext), hfollows.grown⟩
    rw [Sharing.step, hfollows.roles, hroles]
    rfl

/-- In this order of the turns no sink writes to a file that it shares after one that opened the
file later has written. -/
def AllClear (turns : List Turn) : Prop :=
  ∀ before writer after r, turns = before ++ .write writer :: after →
    (Machine.run Sinks.step .start before >>= fun roles => Sharing.begin roles writer) = some r →
      Machine.Along Sharing.step Sharing.Clear r after

theorem atEnd_of_clear {rest : List Turn} {n : Nat} (h : s.Tracked done)
    (hclear : AllClear (done ++ turn :: rest)) : s.AtEnd (turn, n) := by
  cases turn with
  | write writer =>
      intro k hk _
      by_cases happend : (s.disk.opened (s.sinks k).file).append = true
      · exact if_pos happend
      · have hnew := Bool.eq_false_iff.mpr happend
        obtain ⟨before, first, after, r, t, rfl, hbegin, hrun, hfollows⟩ :=
          h.made _ (h.sinks k).2 hnew
        have halong := hclear before first (after ++ .write writer :: rest) r (by simp) hbegin
        exact position_of_clear hfollows (halong.next hrun) hk (h.live writer k hk) rfl
  | _ => trivial

theorem along_atEnd {turns : List Turn} {messages : List Nat} (h : s.Tracked done)
    (hclear : AllClear (done ++ turns)) :
    Machine.Along (step limit) AtEnd s (turns.zip messages) := by
  induction turns generalizing s done messages with
  | nil => trivial
  | cons turn rest ih => cases messages with
      | nil => trivial
      | cons n messages =>
          have hend : s.AtEnd (turn, n) := atEnd_of_clear h hclear
          refine ⟨hend, ?_⟩
          cases hstep : step limit s (turn, n) with
          | none => trivial
          | some s' =>
              refine ih (tracked_step h hend hstep) ?_
              rwa [List.append_assoc]

/-! ## A message that is written over -/

/-- The named file and the counts of the sinks are between these sizes. -/
structure Calm (limit low high : Nat) (s : Logs) : Prop where
  size : ∀ inode ∈ s.disk.name 0, low ≤ s.disk.size inode ∧ s.disk.size inode ≤ high
  sinks : ∀ k, (s.sinks k).maxSize = limit ∧
    low ≤ (s.sinks k).currentSize ∧ (s.sinks k).currentSize ≤ high

variable {low high : Nat}

theorem calm_start (limit size : Nat) : (start limit size).Calm limit size size := by
  refine ⟨fun inode hname => ?_, fun k => ?_⟩
  · simp [start, RotatingSink.make, Disk.fopen]
  · simp [start, RotatingSink.make, Disk.fopen]

/-- A message that does not fill the file. -/
theorem write_calm {writer : Writer} {k n : Nat} (roles : Sinks) (h : s.Calm limit low high)
    (hroom : high + n ≤ limit) (hk : k ∈ s.roles.of writer) (hend : s.AtEnd (.write writer, n)) :
    s.write k n roles = ⟨s.disk.fwrite (s.sinks k).file n, Function.update s.sinks k
      { s.sinks k with currentSize := (s.sinks k).currentSize + n }, roles⟩ ∧
        s.disk.position (s.sinks k).file = s.disk.size (s.disk.opened (s.sinks k).file).inode := by
  obtain ⟨hmax, -, hhigh⟩ := h.sinks k
  have hfits : (s.sinks k).currentSize + n ≤ (s.sinks k).maxSize := by omega
  refine ⟨?_, hend k hk hfits⟩
  rw [write, RotatingSink.sinkIt_fits hfits]

/-- A turn whose message, if there is one, has one byte. -/
theorem calm_step (h : s.Calm limit low high) (htracked : s.Tracked done) (hroom : high + 1 ≤ limit)
    (hend : s.AtEnd (turn, 1)) (hstep : step limit s (turn, 1) = some s') :
    s'.Calm limit low (high + 1) := by
  have hwider : ∀ k, (s.sinks k).maxSize = limit ∧
      low ≤ (s.sinks k).currentSize ∧ (s.sinks k).currentSize ≤ high + 1 := by
    intro k
    obtain ⟨hmax, hlow, hhigh⟩ := h.sinks k
    exact ⟨hmax, hlow, hhigh.trans (Nat.le_succ high)⟩
  have hlonger : ∀ inode ∈ s.disk.name 0, low ≤ s.disk.size inode ∧ s.disk.size inode ≤ high + 1 := by
    intro inode hname
    obtain ⟨hlow, hhigh⟩ := h.size inode hname
    exact ⟨hlow, hhigh.trans (Nat.le_succ high)⟩
  obtain ⟨-, hcases⟩ := step_cases hstep
  rcases hcases with ⟨writer, k, hk, rfl, hs'⟩ | ⟨-, hs'⟩ | ⟨-, hs'⟩ | ⟨-, hs'⟩
  · obtain ⟨hwrite, hplace⟩ := write_calm s'.roles h hroom hk hend
    obtain ⟨hsize, -⟩ := Disk.fwrite_end (n := 1) hplace
    rw [hs', hwrite]
    refine ⟨fun inode hname => ?_, fun j => ?_⟩
    · by_cases hmine : inode = (s.disk.opened (s.sinks k).file).inode
      · obtain ⟨hlow, hhigh⟩ := h.size inode hname
        rw [hmine] at hlow hhigh ⊢
        dsimp only
        omega
      · simp only [Disk.fwrite, Function.update_of_ne hmine]
        exact hlonger inode hname
    · by_cases hj : j = k
      · obtain ⟨hmax, hlow, hhigh⟩ := h.sinks k
        simp only [hj, Function.update_self]
        omega
      · simp only [Function.update_of_ne hj]
        exact hwider j
  · obtain ⟨inode, hname, -⟩ := htracked.name
    rw [hs', reload, RotatingSink.make_existing hname]
    refine ⟨hlonger, fun j => ?_⟩
    by_cases hj : j = s.roles.next
    · simp only [hj, Function.update_self]
      exact ⟨trivial, hlonger inode hname⟩
    · simp only [Function.update_of_ne hj]
      exact hwider j
  · rw [hs']
    refine ⟨hlonger, fun j => ?_⟩
    by_cases hj : j = s.roles.next
    · simp only [hj, Function.update_self]
      exact hwider _
    · simp only [Function.update_of_ne hj]
      exact hwider j
  · rw [hs']
    exact ⟨hlonger, hwider⟩

/-- The file of this handle is the named one and is not open to append; the sinks that may have it
have it, and the others are open on it to append. -/
structure Shared (s : Logs) (handle : Nat) (t : Sharing) : Prop where
  roles : t.roles = s.roles
  name : s.disk.name 0 = some (s.disk.opened handle).inode
  append : (s.disk.opened handle).append = false
  place : s.disk.position handle ≤ s.disk.size (s.disk.opened handle).inode
  grown : t.grown = true → s.disk.position handle < s.disk.size (s.disk.opened handle).inode
  own : ∀ k ∈ t.own, k < s.roles.next ∧ (s.sinks k).file = handle
  others : ∀ k ∈ t.others, k < s.roles.next ∧ (s.disk.opened (s.sinks k).file).append = true ∧
    (s.disk.opened (s.sinks k).file).inode = (s.disk.opened handle).inode

/-- The writer of a file that has grown does not write at its end. -/
theorem clear_of_atEnd {t : Sharing} {n : Nat} (h : s.Shared handle t) (hcalm : s.Calm limit low high)
    (hroom : high + n ≤ limit) (hend : s.AtEnd (turn, n)) : t.Clear turn := by
  cases turn with
  | write writer =>
      intro hgrown k hk hown
      rw [h.roles] at hk
      obtain ⟨-, hplace⟩ := write_calm s.roles hcalm hroom hk hend
      rw [(h.own k hown).2] at hplace
      exact (h.grown hgrown).ne hplace
  | _ => trivial

theorem shared_write {t : Sharing} {writer : Writer} {k : Nat} {roles : Sinks} (h : s.Shared handle t)
    (hcalm : s.Calm limit low high) (hroom : high + 1 ≤ limit) (hend : s.AtEnd (.write writer, 1))
    (hk : k ∈ s.roles.of writer) (hnext : roles.next = s.roles.next) :
    (s.write k 1 roles).Shared handle
      { t with roles := roles, grown := t.grown || decide (k ∈ t.others) } := by
  obtain ⟨hwrite, hplace⟩ := write_calm roles hcalm hroom hk hend
  obtain ⟨hlonger, hafter⟩ := Disk.fwrite_end (n := 1) hplace
  have hfile : ∀ j, (Function.update s.sinks k
      { s.sinks k with currentSize := (s.sinks k).currentSize + 1 } j).file = (s.sinks j).file := by
    intro j
    by_cases hj : j = k
    · rw [hj, Function.update_self]
    · rw [Function.update_of_ne hj]
  rw [hwrite]
  refine ⟨rfl, ?_, ?_, ?_, fun hgrown => ?_, fun j hj => ?_, fun j hj => ?_⟩
  · dsimp only
    rw [Disk.fwrite_inode]
    exact h.name
  · exact (Disk.fwrite_append handle).trans h.append
  · dsimp only
    rw [Disk.fwrite_inode]
    by_cases hmine : handle = (s.sinks k).file
    · rw [hmine, hlonger, hafter]
    · rw [Disk.fwrite_position h.append hmine]
      exact h.place.trans (Disk.size_le_fwrite _)
  · dsimp only at hgrown ⊢
    rw [Disk.fwrite_inode]
    by_cases hmine : handle = (s.sinks k).file
    · -- its writer finds it as it was left
      exfalso
      rw [← hmine] at hplace
      rcases (Bool.or_eq_true _ _).mp hgrown with hold | hnew
      · exact (h.grown hold).ne hplace
      · have happend := (h.others k (of_decide_eq_true hnew)).2.1
        rw [← hmine, h.append] at happend
        cases happend
    · rw [Disk.fwrite_position h.append hmine]
      rcases (Bool.or_eq_true _ _).mp hgrown with hold | hnew
      · exact (h.grown hold).trans_le (Disk.size_le_fwrite _)
      · have hsame := (h.others k (of_decide_eq_true hnew)).2.2
        rw [← hsame, hlonger, hsame]
        exact Nat.lt_succ_of_le h.place
  · rw [hnext, hfile]
    exact h.own j hj
  · rw [hnext, hfile, Disk.fwrite_append, Disk.fwrite_inode, Disk.fwrite_inode]
    exact h.others j hj

/-- A turn whose message, if there is one, has one byte. -/
theorem shared_step {t t' : Sharing} (h : s.Shared handle t) (htracked : s.Tracked done)
    (hlt : handle < s.disk.next) (hcalm : s.Calm limit low high) (hroom : high + 1 ≤ limit)
    (hend : s.AtEnd (turn, 1)) (hstep : step limit s (turn, 1) = some s') (hshare : t.step turn = some t') :
    s'.Shared handle t' ∧ s.disk.next ≤ s'.disk.next := by
  obtain ⟨hroles, hcases⟩ := step_cases hstep
  have hnext := next_step hroles
  have hroles' : t.roles.step turn = some s'.roles := h.roles ▸ hroles
  rcases hcases with ⟨writer, k, hk, rfl, hs'⟩ | ⟨hturn, hs'⟩ | ⟨rfl, hs'⟩ | ⟨rfl, hs'⟩
  · rw [sharing_write (h.roles ▸ hk) hroles'] at hshare
    obtain rfl := Option.some.inj hshare
    have hwrite := (write_calm s'.roles hcalm hroom hk hend).1
    refine ⟨?_, ?_⟩
    · rw [hs']
      exact shared_write h hcalm hroom hend hk hnext
    · rw [hs', hwrite]
      exact le_rfl
  · rw [sharing_reload hturn hroles'] at hshare
    obtain rfl := Option.some.inj hshare
    have hnext' : s'.roles.next = s.roles.next + 1 := by
      rcases hturn with rfl | rfl <;> exact hnext
    have hhandle : Function.update s.disk.opened s.disk.next
        ⟨(s.disk.opened handle).inode, true, 0⟩ handle = s.disk.opened handle :=
      Function.update_of_ne hlt.ne _ s.disk.opened
    rw [hs', reload, RotatingSink.make_existing h.name]
    refine ⟨⟨rfl, ?_, ?_, ?_, fun hgrown => ?_, fun k hk => ?_, fun k hk => ?_⟩, Nat.le_succ _⟩
    · simp only [hhandle]
      exact h.name
    · simp only [hhandle]
      exact h.append
    · simp only [Disk.position, hhandle]
      exact h.place
    · simp only [Disk.position, hhandle]
      exact h.grown hgrown
    · obtain ⟨hlive, hfile⟩ := h.own k hk
      simp only [Function.update_of_ne hlive.ne, hnext']
      exact ⟨hlive.trans (Nat.lt_succ_self _), hfile⟩
    · rw [h.roles] at hk
      rcases List.mem_cons.mp hk with rfl | hk
      · simp only [Function.update_self, hhandle, hnext']
        exact ⟨Nat.lt_succ_self _, trivial, trivial⟩
      · obtain ⟨hlive, happend, hinode⟩ := h.others k hk
        have hold : Function.update s.disk.opened s.disk.next
            ⟨(s.disk.opened handle).inode, true, 0⟩ (s.sinks k).file =
              s.disk.opened (s.sinks k).file :=
          Function.update_of_ne (htracked.sinks k).2.ne _ s.disk.opened
        simp only [Function.update_of_ne hlive.ne, hhandle, hold, hnext']
        exact ⟨hlive.trans (Nat.lt_succ_self _), happend, hinode⟩
  · rw [sharing_fork hroles'] at hshare
    obtain rfl := Option.some.inj hshare
    rw [hs']
    refine ⟨⟨rfl, h.name, h.append, h.place, h.grown, fun k hk => ?_, fun k hk => ?_⟩, le_rfl⟩
    · rw [hnext]
      rcases Sharing.mem_copied hk with ⟨rfl, hmonitor⟩ | hold
      · rw [h.roles] at hmonitor ⊢
        simp only [Function.update_self]
        exact ⟨Nat.lt_succ_self _, (h.own _ hmonitor).2⟩
      · obtain ⟨hlive, hfile⟩ := h.own k hold
        simp only [Function.update_of_ne hlive.ne]
        exact ⟨hlive.trans (Nat.lt_succ_self _), hfile⟩
    · rw [hnext]
      rcases Sharing.mem_copied hk with ⟨rfl, hmonitor⟩ | hold
      · rw [h.roles] at hmonitor ⊢
        simp only [Function.update_self]
        exact ⟨Nat.lt_succ_self _, (h.others _ hmonitor).2⟩
      · obtain ⟨hlive, hfile⟩ := h.others k hold
        simp only [Function.update_of_ne hlive.ne]
        exact ⟨hlive.trans (Nat.lt_succ_self _), hfile⟩
  · have hstep' : t.step .masterEnds = some { t with roles := s'.roles } := by
      rw [Sharing.step, hroles']
      rfl
    rw [hstep'] at hshare
    obtain rfl := Option.some.inj hshare
    rw [hs']
    refine ⟨⟨rfl, h.name, h.append, h.place, h.grown, fun k hk => ?_, fun k hk => ?_⟩, le_rfl⟩
    · rw [hnext]
      exact h.own k hk
    · rw [hnext]
      exact h.others k hk

/-- A turn that the loggers can take is one of the logs. -/
theorem exists_step (limit n : Nat) {roles : Sinks} (hroles : s.roles.step turn = some roles) :
    ∃ s', step limit s (turn, n) = some s' := by
  cases turn with
  | write writer =>
      obtain ⟨k, hk, -⟩ := Option.map_eq_some_iff.mp hroles
      have hk' : s.roles.of writer = some k := hk
      exact ⟨s.write k n roles, by simp [step, hroles, hk']⟩
  | _ => exact ⟨_, by rw [step, hroles]; rfl⟩

/-- Where the messages after the one that a file was made with have one byte and go to the ends of
their files, no sink writes over what another has written. -/
theorem along_clear {turns : List Turn} {t : Sharing} (h : s.Shared handle t) (htracked : s.Tracked done)
    (hlt : handle < s.disk.next) (hcalm : s.Calm limit low high) (hroom : high + turns.length ≤ limit)
    (hend : Machine.Along (step limit) AtEnd s (turns.map fun turn => (turn, 1))) :
    Machine.Along Sharing.step Sharing.Clear t turns := by
  induction turns generalizing s done t high with
  | nil => trivial
  | cons turn rest ih =>
      rw [List.length_cons] at hroom
      rw [List.map_cons, Machine.Along] at hend
      obtain ⟨hnow, hlater⟩ := hend
      refine ⟨clear_of_atEnd h hcalm (by omega) hnow, ?_⟩
      cases hshare : t.step turn with
      | none => trivial
      | some t' =>
          obtain ⟨roles, hroles, -⟩ := Option.bind_eq_some_iff.mp hshare
          rw [h.roles] at hroles
          obtain ⟨s', hstep⟩ := exists_step limit 1 hroles
          rw [hstep] at hlater
          obtain ⟨hshared, hmore⟩ := shared_step h htracked hlt hcalm (by omega) hnow hstep hshare
          exact ih hshared (tracked_step htracked hnow hstep) (hlt.trans_le hmore)
            (calm_step hcalm htracked (by omega) hnow hstep) (by omega) hlater

/-- Turns before a file is made. -/
theorem calm_run {turns : List Turn} {roles : Sinks} (htracked : s.Tracked done)
    (hcalm : s.Calm limit low high) (hroom : high + turns.length ≤ limit)
    (hroles : Machine.run Sinks.step s.roles turns = some roles)
    (hend : Machine.Along (step limit) AtEnd s (turns.map fun turn => (turn, 1))) :
    ∃ s', Machine.run (step limit) s (turns.map fun turn => (turn, 1)) = some s' ∧ s'.roles = roles ∧
      s'.Tracked (done ++ turns) ∧ s'.Calm limit low (high + turns.length) := by
  induction turns generalizing s done high with
  | nil =>
      cases hroles
      exact ⟨s, rfl, rfl, by rwa [List.append_nil], hcalm⟩
  | cons turn rest ih =>
      rw [List.length_cons] at hroom
      obtain ⟨next, hnext, hrest⟩ := Option.bind_eq_some_iff.mp hroles
      obtain ⟨s₁, hstep⟩ := exists_step limit 1 hnext
      rw [List.map_cons, Machine.Along, hstep] at hend
      obtain ⟨hnow, hlater⟩ := hend
      have hset := (step_cases hstep).1
      rw [hnext] at hset
      obtain rfl := Option.some.inj hset
      obtain ⟨s', hrun, hroles', htracked', hcalm'⟩ := ih (tracked_step htracked hnow hstep)
        (calm_step hcalm htracked (by omega) hnow hstep) (by omega) hrest hlater
      refine ⟨s', ?_, hroles', ?_, ?_⟩
      · rw [List.map_cons, Machine.run, hstep]
        exact hrun
      · rwa [List.append_assoc] at htracked'
      · rw [List.length_cons, Nat.add_comm rest.length, ← Nat.add_assoc]
        exact hcalm'

/-- The message that a file is made with. -/
theorem shared_rotates {writer : Writer} {k n : Nat} {roles : Sinks} (htracked : s.Tracked done)
    (hcalm : s.Calm limit low high) (hk : k ∈ s.roles.of writer) (hnext : roles.next = s.roles.next)
    (hfull : limit < low + n) (hn : n ≤ high) :
    (s.write k n roles).Shared s.disk.next ⟨roles, [k], [], false⟩ ∧
      s.disk.next < (s.write k n roles).disk.next ∧ (s.write k n roles).Calm limit 0 high := by
  obtain ⟨hmax, hlow, hhigh⟩ := hcalm.sinks k
  have hrotates : (s.sinks k).maxSize < (s.sinks k).currentSize + n := by omega
  obtain ⟨hsink, hname, hsize, hinode, hend, hfree⟩ :=
    RotatingSink.sinkIt_rotates (d := s.disk) hrotates (htracked.sinks k).1
  have hmode := (RotatingSink.sinkIt_rotates_old (d := s.disk) hrotates (htracked.sinks k).1).1
  have hdisk : (s.write k n roles).disk = ((s.sinks k).sinkIt n s.disk).2 := rfl
  have hmine : (s.write k n roles).sinks k = { s.sinks k with currentSize := n, file := s.disk.next } := by
    rw [← hsink]
    exact Function.update_self k _ s.sinks
  refine ⟨⟨rfl, ?_, hmode, ?_, fun hgrown => ?_, fun j hj => ?_, fun j hj => ?_⟩, ?_,
    fun inode hinode' => ?_, fun j => ?_⟩
  · rw [hdisk, hname, hinode]
  · rw [hdisk, hend, hinode, hsize]
  · cases hgrown
  · rw [List.mem_singleton.mp hj, hmine]
    exact ⟨(htracked.live writer k hk).trans_eq hnext.symm, rfl⟩
  · cases hj
  · rw [hdisk, hfree]
    exact Nat.lt_succ_self _
  · rw [hdisk, hname] at hinode'
    obtain rfl := Option.some.inj hinode'
    rw [hdisk, hsize]
    exact ⟨Nat.zero_le _, hn⟩
  · by_cases hj : j = k
    · rw [hj, hmine]
      exact ⟨hmax, Nat.zero_le _, hn⟩
    · have hother : (s.write k n roles).sinks j = s.sinks j := Function.update_of_ne hj _ s.sinks
      rw [hother]
      exact ⟨(hcalm.sinks j).1, Nat.zero_le _, (hcalm.sinks j).2.2⟩

/-- In all runs with this order of turns every message goes to the end of its file, exactly when no
sink writes to a file that it has made, or a copy of it has, after one that opened the file later
has written. -/
theorem along_atEnd_iff (turns : List Turn) :
    (∀ limit size messages, size ≤ limit → (∀ n ∈ messages, 0 < n ∧ n ≤ limit) →
      Machine.Along (step limit) AtEnd (start limit size) (turns.zip messages)) ↔ AllClear turns := by
  constructor
  · intro hall before writer after r hturns hbegin
    obtain ⟨roles, hroles, hbegin⟩ := Option.bind_eq_some_iff.mp hbegin
    obtain ⟨k, hk, hbegin⟩ := Option.bind_eq_some_iff.mp hbegin
    obtain ⟨roles', hwrite, hbegin⟩ := Option.bind_eq_some_iff.mp hbegin
    obtain rfl := Option.some.inj hbegin
    -- One long message is the first of its file, and there is room for all others.
    have hlength : turns.length = before.length + (after.length + 1) := by
      rw [hturns, List.length_append, List.length_cons]
    have hmessages : ∀ m ∈ before.map (fun _ => 1) ++ (2 * turns.length + 1) :: after.map (fun _ => 1),
        0 < m ∧ m ≤ 3 * turns.length + 1 := by
      intro m hm
      rcases List.mem_append.mp hm with hm | hm
      · obtain ⟨-, -, rfl⟩ := List.mem_map.mp hm
        omega
      · rcases List.mem_cons.mp hm with rfl | hm
        · omega
        · obtain ⟨-, -, rfl⟩ := List.mem_map.mp hm
          omega
    have hzip : turns.zip (before.map (fun _ => 1) ++ (2 * turns.length + 1) :: after.map (fun _ => 1)) =
        before.map (fun turn => (turn, 1)) ++
          (.write writer, 2 * turns.length + 1) :: after.map (fun turn => (turn, 1)) := by
      rw [List.map_prod_left_eq_zip, List.map_prod_left_eq_zip, ← List.zip_cons_cons,
        ← List.zip_append (List.length_map _).symm, ← hturns]
    have hend := hall (3 * turns.length + 1) (turns.length + 1) _ (by omega) hmessages
    rw [hzip] at hend
    obtain ⟨hfirst, hrest⟩ := hend.append
    have hsinks : Machine.run Sinks.step (start (3 * turns.length + 1) (turns.length + 1)).roles before =
        some roles := hroles
    obtain ⟨s, hrun, rfl, htracked, hcalm⟩ :=
      calm_run (tracked_start _ _) (calm_start _ _) (by omega) hsinks hfirst
    have hlater := hrest s hrun
    have hstep : step (3 * turns.length + 1) s (.write writer, 2 * turns.length + 1) =
        some (s.write k (2 * turns.length + 1) roles') := by
      simp [step, hwrite, hk]
    have hcalm' : s.Calm (3 * turns.length + 1) (turns.length + 1) (2 * turns.length + 1) := by
      refine ⟨fun inode hname => ?_, fun j => ?_⟩
      · obtain ⟨hlow, hhigh⟩ := hcalm.size inode hname
        omega
      · obtain ⟨hmax, hlow, hhigh⟩ := hcalm.sinks j
        omega
    rw [Machine.Along, hstep] at hlater
    obtain ⟨hshared, hlt, hcalm''⟩ := shared_rotates htracked hcalm' hk (next_step hwrite) (by omega) le_rfl
    exact along_clear hshared (tracked_step htracked hlater.1 hstep) hlt hcalm'' (by omega) hlater.2
  · intro hclear limit size messages hsize hn
    exact along_atEnd (tracked_start limit size) hclear

/-- Only a sink that a reload has made writes to a file of another. -/
theorem allClear_of_no_reload {turns : List Turn}
    (h : ∀ turn ∈ turns, turn ≠ .reloadMonitor ∧ turn ≠ .reloadMaster) : AllClear turns := by
  intro before writer after r hturns hbegin
  have hafter : ∀ turn ∈ after, turn ≠ .reloadMonitor ∧ turn ≠ .reloadMaster := by
    intro turn hmem
    exact h turn (by rw [hturns]; exact List.mem_append_right _ (List.mem_cons_of_mem _ hmem))
  have halone : r.others = [] ∧ r.grown = false := by
    obtain ⟨roles, -, hbegin⟩ := Option.bind_eq_some_iff.mp hbegin
    obtain ⟨k, -, hbegin⟩ := Option.bind_eq_some_iff.mp hbegin
    obtain ⟨roles', -, hbegin⟩ := Option.bind_eq_some_iff.mp hbegin
    obtain rfl := Option.some.inj hbegin
    exact ⟨rfl, rfl⟩
  clear hturns hbegin h
  induction after generalizing r with
  | nil => trivial
  | cons turn rest ih =>
      obtain ⟨hothers, hgrown⟩ := halone
      refine ⟨?_, ?_⟩
      · cases turn with
        | write writer => exact fun htrue => absurd (hgrown.symm.trans htrue) Bool.false_ne_true
        | _ => trivial
      · cases hstep : r.step turn with
        | none => trivial
        | some r' =>
            refine ih r' (fun a ha => hafter a (List.mem_cons_of_mem turn ha)) ?_
            obtain ⟨roles, hroles, hrest⟩ := Option.bind_eq_some_iff.mp hstep
            obtain ⟨hmonitor, hmaster⟩ := hafter turn List.mem_cons_self
            cases turn with
            | write writer =>
                obtain ⟨k, -, hset⟩ := Option.bind_eq_some_iff.mp hrest
                obtain rfl := Option.some.inj hset
                simp [hothers, hgrown]
            | reloadMonitor => exact absurd rfl hmonitor
            | reloadMaster => exact absurd rfl hmaster
            | fork =>
                obtain rfl := Option.some.inj hrest
                simp [Sharing.copied, hothers, hgrown]
            | masterEnds =>
                obtain rfl := Option.some.inj hrest
                exact ⟨hothers, hgrown⟩

/-- The master writes to a file that it has made after the monitor, which has opened that file
since. -/
example : ¬AllClear [.fork, .write .master, .reloadMonitor, .write .monitor, .write .master] := by
  intro h
  have hlast := h [.fork] .master [.reloadMonitor, .write .monitor, .write .master] _ rfl rfl
  exact hlast.2.2.1 rfl 1 rfl List.mem_cons_self

end Logs

end Robotd
