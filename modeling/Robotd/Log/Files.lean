import Robotd.Log.Sink

/-!
# The bytes of the log files

`rotating_file_sink` and `file_helper` over a disk that has the bytes of the files and whose
operations may fail. A file is known by its number in `calc_filename`. Without failures the sizes of
the files are those of `Disk` (`log_disk`).

A message is logged by a destructor, so an exception on the way ends the process; a sink that throws
is no more.
-/

namespace Robotd

/-- Which operations on files fail: the tries to open `LogName.log`, to remove the file with a
number, to rename it to the next; and how many bytes a write comes to, if not all. -/
structure Faults where
  opens : Nat → Bool
  removes : Nat → Bool
  renames : Nat → Bool
  writes : Option Nat

namespace Faults

/-- Nothing fails. -/
def none : Faults := ⟨fun _ => false, fun _ => false, fun _ => false, .none⟩

/-- `file_helper::open_tries`. -/
def openTries : Nat := 5

/-- Whether one of the tries of `file_helper::open` succeeds. -/
def opened (faults : Faults) : Bool := (List.range openTries).any fun tries => !faults.opens tries

/-- How much of a message is written. -/
def written (faults : Faults) (text : List Char) : List Char := faults.writes.elim text text.take

end Faults

/-- A `Disk` with the bytes of the files, and all that has been written, in order. -/
structure Store where
  name : Nat → Option Nat
  content : Nat → List Char
  opened : Nat → OpenFile
  next : Nat
  trace : List (List Char)

namespace Store

/-- The sizes of the files. -/
def disk (d : Store) : Disk := ⟨d.name, fun inode => (d.content inode).length, d.opened, d.next⟩

/-- `fopen` of `LogName.log`, in the mode `wb` if `truncate` and else `ab`. The handle is `next`. -/
def fopen (truncate : Bool) (d : Store) : Store :=
  { d with
    name := Function.update d.name 0 (some ((d.name 0).getD d.next))
    content := if truncate || (d.name 0).isNone then
        Function.update d.content ((d.name 0).getD d.next) []
      else
        d.content
    opened := Function.update d.opened d.next ⟨(d.name 0).getD d.next, !truncate, 0⟩
    next := d.next + 1 }

/-- Where the next write to an open file goes. -/
def position (d : Store) (handle : Nat) : Nat := d.disk.position handle

/-- The bytes from a position on are replaced; zeros fill what lies between the end and there. -/
def overwrite (position : Nat) (text content : List Char) : List Char :=
  (content ++ List.replicate (position - content.length) (Char.ofNat 0)).take position ++ text ++
    content.drop (position + text.length)

/-- `fwrite` of a text that is not empty, which is flushed at once. -/
def fwrite (handle : Nat) (text : List Char) (d : Store) : Store :=
  let file := d.opened handle
  { d with
    content := Function.update d.content file.inode
      (overwrite (d.position handle) text (d.content file.inode))
    opened := Function.update d.opened handle { file with position := d.position handle + text.length }
    trace := d.trace ++ [text] }

/-- The loop of `_rotate`, and whether it comes to its end. -/
def shift (faults : Faults) : Nat → (Nat → Option Nat) → (Nat → Option Nat) × Bool
  | 0, name => (name, true)
  | i + 1, name =>
      if (name (i + 1)).isSome && faults.removes (i + 1) then (name, false)
      else match name i with
        | some inode =>
            if faults.renames i then (Function.update name (i + 1) none, false)
            else shift faults i (Function.update (Function.update name (i + 1) (some inode)) i none)
        | none => shift faults i (Function.update name (i + 1) none)

end Store

namespace RotatingSink

/-- The constructor. -/
def construct (faults : Faults) (maxSize maxFiles : Nat) (d : Store) : Option RotatingSink × Store :=
  if faults.opened then
    let d' := d.fopen false
    (some ⟨maxSize, maxFiles, (d'.content (d'.opened d.next).inode).length, d.next⟩, d')
  else
    (none, d)

/-- `_rotate`. -/
def rotateFiles (faults : Faults) (sink : RotatingSink) (d : Store) : Option RotatingSink × Store :=
  let (name, done) := Store.shift faults sink.maxFiles d.name
  let d := { d with name := name }
  if done && faults.opened then (some { sink with file := d.next }, d.fopen true) else (none, d)

/-- `file_helper::write`. -/
def write (faults : Faults) (text : List Char) (sink : RotatingSink) (d : Store) :
    Option RotatingSink × Store :=
  (if (faults.written text).length = text.length then some sink else none,
    d.fwrite sink.file (faults.written text))

/-- `_sink_it`. -/
def log (faults : Faults) (text : List Char) (sink : RotatingSink) (d : Store) :
    Option RotatingSink × Store :=
  let sink := { sink with currentSize := sink.currentSize + text.length }
  if sink.maxSize < sink.currentSize then
    match sink.rotateFiles faults d with
    | (some sink, d) => { sink with currentSize := text.length }.write faults text d
    | (none, d) => (none, d)
  else
    sink.write faults text d

/-! ## What is written -/

theorem trace_rotateFiles (faults : Faults) (sink : RotatingSink) (d : Store) :
    (sink.rotateFiles faults d).2.trace = d.trace := by
  rw [rotateFiles]
  dsimp only
  split_ifs <;> rfl

/-- A sink writes its message, or a part of it, or nothing, and then it is no more. -/
theorem trace_log (faults : Faults) (text : List Char) (sink : RotatingSink) (d : Store) :
    (sink.log faults text d).2.trace = d.trace ++ [faults.written text] ∧
        ((faults.written text).length = text.length ∨ (sink.log faults text d).1 = none) ∨
      (sink.log faults text d).2.trace = d.trace ∧ (sink.log faults text d).1 = none := by
  have hwrite : ∀ (sink : RotatingSink) (d : Store),
      (faults.written text).length = text.length ∨ (sink.write faults text d).1 = none := by
    intro sink d
    rw [write]
    by_cases hwhole : (faults.written text).length = text.length
    · exact .inl hwhole
    · exact .inr (if_neg hwhole)
  rw [log]
  dsimp only
  split
  · have htrace := trace_rotateFiles faults
      { sink with currentSize := sink.currentSize + text.length } d
    split
    · rename_i hrotate
      rw [hrotate] at htrace
      exact .inl ⟨congrArg (· ++ [faults.written text]) htrace, hwrite _ _⟩
    · rename_i hrotate
      rw [hrotate] at htrace
      exact .inr ⟨htrace, rfl⟩
  · exact .inl ⟨rfl, hwrite _ _⟩

end RotatingSink

/-! ## Without failures -/

/-- A rotation gives each file the next number, and `LogName.log` is free. -/
theorem Disk.shift_apply (n : Nat) (name : Nat → Option Nat) (j : Nat) : Disk.shift (n + 1) name j =
    if j = 0 then none else if j ≤ n + 1 then name (j - 1) else name j := by
  induction n generalizing name with
  | zero =>
      rw [Disk.shift]
      by_cases hzero : j = 0
      · cases hname : name 0 <;> simp [Disk.shift, hzero, hname]
      · by_cases hone : j = 1
        · cases hname : name 0 <;> simp [Disk.shift, hone, hname]
        · have hout : ¬ j ≤ 0 + 1 := by omega
          cases name 0 <;> simp [Disk.shift, hzero, hone, hout]
  | succ n ih =>
      rw [Disk.shift]
      have hrest : ∀ name' : Nat → Option Nat, (∀ k, k ≤ n → name' k = name k) →
          name' (n + 2) = name (n + 1) → (∀ k, n + 2 < k → name' k = name k) →
          Disk.shift (n + 1) name' j =
            if j = 0 then none else if j ≤ n + 1 + 1 then name (j - 1) else name j := by
        intro name' hbelow hlast habove
        rw [ih]
        by_cases hzero : j = 0
        · rw [if_pos hzero, if_pos hzero]
        · rw [if_neg hzero, if_neg hzero]
          by_cases hinner : j ≤ n + 1
          · rw [if_pos hinner, if_pos (by omega), hbelow _ (by omega)]
          · by_cases hedge : j = n + 2
            · rw [if_neg hinner, if_pos (by omega), hedge, hlast]
              rfl
            · rw [if_neg hinner, if_neg (by omega), habove _ (by omega)]
      cases hname : name (n + 1) with
      | some inode =>
          refine hrest _ (fun k hk => ?_) ?_ fun k hk => ?_
          · rw [Function.update_of_ne (by omega), Function.update_of_ne (by omega)]
          · rw [Function.update_of_ne (by omega), Function.update_self, hname]
          · rw [Function.update_of_ne (by omega), Function.update_of_ne (by omega)]
      | none =>
          refine hrest _ (fun k hk => ?_) ?_ fun k hk => ?_
          · rw [Function.update_of_ne (by omega)]
          · rw [Function.update_self, hname]
          · rw [Function.update_of_ne (by omega)]

namespace Store

variable {d : Store} {handle : Nat} {text content : List Char} {sink : RotatingSink}

theorem opened_none : Faults.none.opened = true := rfl

theorem written_none (text : List Char) : Faults.none.written text = text := rfl

/-- The loop comes to its end and does what that of `Disk` does. -/
theorem shift_none (n : Nat) (name : Nat → Option Nat) :
    shift .none n name = (Disk.shift n name, true) := by
  induction n generalizing name with
  | zero => rfl
  | succ i ih =>
      rw [shift, Disk.shift, if_neg (by simp [Faults.none])]
      cases name i with
      | some inode => exact (if_neg Bool.false_ne_true).trans (ih _)
      | none => exact ih _

theorem length_overwrite (position : Nat) : (overwrite position text content).length =
    max content.length (position + text.length) := by
  simp only [overwrite, List.length_append, List.length_take, List.length_replicate, List.length_drop]
  omega

/-- At the end of the file the text is appended. -/
theorem overwrite_end : overwrite content.length text content = content ++ text := by
  simp [overwrite]

theorem fopen_disk (truncate : Bool) : (d.fopen truncate).disk = d.disk.fopen truncate := by
  rw [disk, Disk.fopen, fopen]
  congr 1
  dsimp only [disk]
  by_cases hempty : (truncate || (d.name 0).isNone) = true
  · rw [if_pos hempty]
    refine Eq.trans ?_ (if_pos hempty).symm
    funext inode
    by_cases hinode : inode = (d.name 0).getD d.next <;> simp [hinode]
  · rw [if_neg hempty]
    exact (if_neg hempty).symm

theorem fwrite_disk : (d.fwrite handle text).disk = d.disk.fwrite handle text.length := by
  rw [disk, Disk.fwrite, fwrite]
  congr 1
  funext inode
  by_cases hinode : inode = (d.opened handle).inode
  · subst hinode
    simp [length_overwrite, disk, position]
  · simp [hinode, disk]

end Store

namespace RotatingSink

variable {d : Store} {text : List Char} {sink : RotatingSink}

theorem construct_disk (maxSize maxFiles : Nat) (d : Store) :
    (construct .none maxSize maxFiles d).1 = some (make maxSize maxFiles d.disk).1 ∧
      (construct .none maxSize maxFiles d).2.disk = (make maxSize maxFiles d.disk).2 := by
  rw [construct, if_pos Store.opened_none, make]
  dsimp only
  rw [← Store.fopen_disk]
  exact ⟨rfl, rfl⟩

theorem write_none (text : List Char) (sink : RotatingSink) (d : Store) :
    sink.write .none text d = (some sink, d.fwrite sink.file text) := by
  rw [write, Store.written_none, if_pos rfl]

/-- A rotation in which nothing fails. -/
def rotated (sink : RotatingSink) (d : Store) : Store :=
  ({ d with name := Disk.shift sink.maxFiles d.name } : Store).fopen true

theorem rotateFiles_none (sink : RotatingSink) (d : Store) :
    sink.rotateFiles .none d = (some { sink with file := d.next }, sink.rotated d) := by
  rw [rotateFiles, Store.shift_none, Store.opened_none]
  rfl

/-- A message that fits goes to the file that is open, -/
theorem log_fits (h : sink.currentSize + text.length ≤ sink.maxSize) : sink.log .none text d =
    (some { sink with currentSize := sink.currentSize + text.length }, d.fwrite sink.file text) := by
  rw [log]
  dsimp only
  rw [if_neg (not_lt.mpr h), write_none]

/-- and another to a new one. -/
theorem log_rotates (h : sink.maxSize < sink.currentSize + text.length) : sink.log .none text d =
    (some { sink with currentSize := text.length, file := d.next },
      (sink.rotated d).fwrite d.next text) := by
  rw [log]
  dsimp only
  rw [if_pos h, rotateFiles_none]
  exact write_none text _ _

/-- The sink and the sizes are those that `Disk` has. -/
theorem log_disk : (sink.log .none text d).1 = some (sink.sinkIt text.length d.disk).1 ∧
    (sink.log .none text d).2.disk = (sink.sinkIt text.length d.disk).2 := by
  by_cases hfits : sink.currentSize + text.length ≤ sink.maxSize
  · rw [log_fits hfits, sinkIt_fits hfits, Store.fwrite_disk]
    exact ⟨rfl, rfl⟩
  · rw [not_le] at hfits
    rw [log_rotates hfits, sinkIt, Store.fwrite_disk, rotated, Store.fopen_disk]
    dsimp only
    rw [if_pos hfits]
    exact ⟨rfl, rfl⟩

end RotatingSink

end Robotd
