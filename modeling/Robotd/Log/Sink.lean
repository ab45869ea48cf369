import Mathlib

/-!
# The rotating log file

`rotating_file_sink` and `file_helper`, after the vendored `file_sinks.h` and `file_helper.h`, over
a disk that knows the sizes of the files. A sink counts the bytes that it finds when it opens
`LogName.log` and those that it writes; several sinks may have the file open at once, and after a
rotation each has the file that it opened.

The file operations on the log do not fail here.
-/

namespace Robotd

/-- An open file. In the mode `ab` a write goes to the end, in the mode `wb` to the position, which
the copies of the open file in other processes share. -/
structure OpenFile where
  inode : Nat
  append : Bool
  position : Nat

/-- The files `LogName.log` (0) and `LogName.i.log` (i) with their inodes, the sizes of the inodes,
the open files, and a number from which on inodes and handles are free. -/
structure Disk where
  name : Nat → Option Nat
  size : Nat → Nat
  opened : Nat → OpenFile
  next : Nat

namespace Disk

/-- `fopen` of `LogName.log`, in the mode `wb` if `truncate` and else `ab`. The handle is `next`. -/
def fopen (truncate : Bool) (d : Disk) : Disk where
  name := Function.update d.name 0 (some ((d.name 0).getD d.next))
  size := if truncate || (d.name 0).isNone then
      Function.update d.size ((d.name 0).getD d.next) 0
    else
      d.size
  opened := Function.update d.opened d.next ⟨(d.name 0).getD d.next, !truncate, 0⟩
  next := d.next + 1

/-- Where the next write to an open file goes. -/
def position (d : Disk) (handle : Nat) : Nat :=
  if (d.opened handle).append then d.size (d.opened handle).inode else (d.opened handle).position

/-- `fwrite` of `n` bytes, which are flushed at once. -/
def fwrite (handle n : Nat) (d : Disk) : Disk :=
  let file := d.opened handle
  let final := d.position handle + n
  { d with
    size := Function.update d.size file.inode (max (d.size file.inode) final)
    opened := Function.update d.opened handle { file with position := final } }

/-- The loop of `_rotate`: `LogName.i.log` gets the number `i + 1`, and the last one is removed. -/
def shift : Nat → (Nat → Option Nat) → Nat → Option Nat
  | 0, name => name
  | i + 1, name => match name i with
    | some inode => shift i (Function.update (Function.update name (i + 1) (some inode)) i none)
    | none => shift i (Function.update name (i + 1) none)

variable {d : Disk} {inode handle n : Nat}

/-- A file that exists is opened to append. -/
theorem fopen_existing (hname : d.name 0 = some inode) : d.fopen false =
    { d with
      opened := Function.update d.opened d.next ⟨inode, true, 0⟩
      next := d.next + 1 } := by
  simp only [fopen, hname, Option.getD_some, Option.isNone_some, Bool.or_self, Bool.not_false,
    Bool.false_eq_true, if_false]
  rw [← hname, Function.update_eq_self]

/-- A file that does not exist is made. -/
theorem fopen_missing (hname : d.name 0 = none) (truncate : Bool) : d.fopen truncate =
    { name := Function.update d.name 0 (some d.next)
      size := Function.update d.size d.next 0
      opened := Function.update d.opened d.next ⟨d.next, !truncate, 0⟩
      next := d.next + 1 } := by
  simp [fopen, hname]

/-- A rotation of one file leaves no `LogName.log`. -/
theorem shift_one (name : Nat → Option Nat) : shift 1 name 0 = none := by
  cases hname : name 0 with
  | none => simp [shift, hname]
  | some inode => simp [shift, hname]

theorem fwrite_inode (other : Nat) :
    ((d.fwrite handle n).opened other).inode = (d.opened other).inode := by
  by_cases h : other = handle <;> simp [fwrite, h]

theorem fwrite_append (other : Nat) :
    ((d.fwrite handle n).opened other).append = (d.opened other).append := by
  by_cases h : other = handle <;> simp [fwrite, h]

/-- A write at the end of the file makes it longer. -/
theorem fwrite_end (hend : d.position handle = d.size (d.opened handle).inode) :
    (d.fwrite handle n).size (d.opened handle).inode = d.size (d.opened handle).inode + n ∧
      (d.fwrite handle n).position handle = d.size (d.opened handle).inode + n := by
  have hsize : (d.fwrite handle n).size (d.opened handle).inode = d.size (d.opened handle).inode + n := by
    simp only [fwrite, Function.update_self, hend]
    exact Nat.max_eq_right (Nat.le_add_right _ n)
  refine ⟨hsize, ?_⟩
  rw [position, fwrite_append, fwrite_inode]
  by_cases happend : (d.opened handle).append = true
  · rw [if_pos happend, hsize]
  · rw [if_neg happend]
    simp [fwrite, hend]

end Disk

/-- `rotating_file_sink`. -/
structure RotatingSink where
  maxSize : Nat
  maxFiles : Nat
  currentSize : Nat
  file : Nat

namespace RotatingSink

/-- The constructor. -/
def make (maxSize maxFiles : Nat) (d : Disk) : RotatingSink × Disk :=
  let d' := d.fopen false
  (⟨maxSize, maxFiles, d'.size (d'.opened d.next).inode, d.next⟩, d')

/-- `_rotate`. -/
def rotate (sink : RotatingSink) (d : Disk) : RotatingSink × Disk :=
  ({ sink with file := d.next }, { d with name := Disk.shift sink.maxFiles d.name }.fopen true)

/-- `_sink_it`, of a message of `n` bytes. -/
def sinkIt (n : Nat) (sink : RotatingSink) (d : Disk) : RotatingSink × Disk :=
  let sink := { sink with currentSize := sink.currentSize + n }
  if sink.maxSize < sink.currentSize then
    let (sink, d) := sink.rotate d
    ({ sink with currentSize := n }, d.fwrite sink.file n)
  else
    (sink, d.fwrite sink.file n)

variable {sink : RotatingSink} {d : Disk} {n : Nat}

/-- A sink on a file that exists counts its bytes. -/
theorem make_existing {inode maxSize maxFiles : Nat} (hname : d.name 0 = some inode) :
    make maxSize maxFiles d = (⟨maxSize, maxFiles, d.size inode, d.next⟩,
      { d with
        opened := Function.update d.opened d.next ⟨inode, true, 0⟩
        next := d.next + 1 }) := by
  simp [make, Disk.fopen_existing hname]

/-- A message that fits is written to the file that the sink has open. -/
theorem sinkIt_fits (h : sink.currentSize + n ≤ sink.maxSize) :
    sink.sinkIt n d = ({ sink with currentSize := sink.currentSize + n }, d.fwrite sink.file n) := by
  simp [sinkIt, Nat.not_lt.mpr h]

/-- A message that does not fit is the first one of a new file. -/
theorem sinkIt_rotates (h : sink.maxSize < sink.currentSize + n) (hone : sink.maxFiles = 1) :
    (sink.sinkIt n d).1 = { sink with currentSize := n, file := d.next } ∧
      (sink.sinkIt n d).2.name 0 = some d.next ∧ (sink.sinkIt n d).2.size d.next = n ∧
      ((sink.sinkIt n d).2.opened d.next).inode = d.next ∧
      (sink.sinkIt n d).2.position d.next = n ∧ (sink.sinkIt n d).2.next = d.next + 1 := by
  have hmissing : ({ d with name := Disk.shift 1 d.name } : Disk).name 0 = none := Disk.shift_one d.name
  simp only [sinkIt, h, if_true, rotate, hone, Disk.fopen_missing hmissing]
  simp [Disk.fwrite, Disk.position]

/-- The limits of a sink stay, and its handle is one of the disk. -/
theorem sinkIt_keeps (hone : sink.maxFiles = 1) (hfile : sink.file < d.next) :
    (sink.sinkIt n d).1.maxSize = sink.maxSize ∧ (sink.sinkIt n d).1.maxFiles = 1 ∧
      (sink.sinkIt n d).1.file < (sink.sinkIt n d).2.next ∧ d.next ≤ (sink.sinkIt n d).2.next := by
  by_cases hfits : sink.currentSize + n ≤ sink.maxSize
  · rw [sinkIt_fits hfits]
    exact ⟨rfl, hone, hfile, le_rfl⟩
  · obtain ⟨hsink, -, -, -, -, hnext⟩ := sinkIt_rotates (d := d) (Nat.not_le.mp hfits) hone
    rw [hsink, hnext]
    exact ⟨rfl, hone, Nat.lt_succ_self _, Nat.le_succ _⟩

end RotatingSink

end Robotd
