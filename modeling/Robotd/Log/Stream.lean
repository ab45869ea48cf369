import Robotd.Lib.Archive
import Robotd.Lib.Machine
import Robotd.Log.Files

/-!
# What is kept of a log

One process after another logs to `LogName.log`, each with one sink at a time, and any operation on
the files may fail. What is written are the messages that are logged, but for the last one of a sink
that fails (`Adds`). The files are an archive of it (`Archives`): only the oldest messages go, and
no message is split between two files (`always_kept`). If nothing fails, none goes before more than
`Size` bytes are kept (`keeps_recent`).
-/

namespace Robotd

open Lib Lib.Archive

/-- The disk, and the sink of the process that is there. -/
structure Logging where
  store : Store
  sink : Option RotatingSink

/-- A process makes a sink, logs a message, or ends. -/
inductive LogEvent where
  | construct (maxSize : Nat) (faults : Faults)
  | log (text : List Char) (faults : Faults)
  | ends

/-- The message that is logged. -/
def LogEvent.texts : LogEvent → List (List Char)
  | log text _ => [text]
  | _ => []

namespace Logging

/-- One step. A sink that cannot be made leaves the one that was there. -/
def step (maxFiles : Nat) (s : Logging) : LogEvent → Option Logging
  | .construct maxSize faults =>
      match RotatingSink.construct faults maxSize maxFiles s.store with
      | (some sink, store) => some ⟨store, some sink⟩
      | (none, store) => some ⟨store, s.sink⟩
  | .log text faults => match s.sink with
      | some sink => some ⟨(sink.log faults text s.store).2, (sink.log faults text s.store).1⟩
      | none => none
  | .ends => some ⟨s.store, none⟩

/-- A directory with these files, and no process. -/
def start (maxFiles : Nat) (files : Nat → Option (List Char)) : Logging :=
  ⟨{ name := fun i => if i ≤ maxFiles then (files i).map fun _ => i else none
     content := fun i => (files i).getD []
     opened := fun _ => ⟨0, true, 0⟩
     next := maxFiles + 1
     trace := kept maxFiles fun i => (files i).toList }, none⟩

/-- What is logged in this step is written after all that has been written. Or the sink ends with
it, and a part of it has been written or nothing. -/
def Adds (s : Logging) (e : LogEvent) (s' : Logging) : Prop :=
  s'.store.trace = s.store.trace ++ e.texts ∨
    s'.sink = none ∧ ∃ text ∈ e.texts, s'.store.trace = s.store.trace ∨
      ∃ part, part <+: text ∧ s'.store.trace = s.store.trace ++ [part]

variable {maxFiles : Nat} {s s' : Logging} {e : LogEvent}

theorem trace_construct {maxSize : Nat} {faults : Faults}
    (hstep : s.step maxFiles (.construct maxSize faults) = some s') : s'.store.trace = s.store.trace := by
  rw [step, RotatingSink.construct] at hstep
  split_ifs at hstep <;>
  · obtain rfl := Option.some.inj hstep
    rfl

theorem sink_of_log {text : List Char} {faults : Faults}
    (hstep : s.step maxFiles (.log text faults) = some s') : ∃ sink, s.sink = some sink ∧
      s'.store = (sink.log faults text s.store).2 ∧ s'.sink = (sink.log faults text s.store).1 := by
  rw [step] at hstep
  cases hs : s.sink with
  | none =>
      rw [hs] at hstep
      cases hstep
  | some sink =>
      rw [hs] at hstep
      obtain rfl := Option.some.inj hstep
      exact ⟨sink, rfl, rfl, rfl⟩

theorem adds_of_step (hstep : s.step maxFiles e = some s') : s.Adds e s' := by
  cases e with
  | construct maxSize faults => exact .inl ((trace_construct hstep).trans (List.append_nil _).symm)
  | ends =>
      obtain rfl := Option.some.inj hstep
      exact .inl (List.append_nil _).symm
  | log text faults =>
      obtain ⟨sink, -, hstore, hsink⟩ := sink_of_log hstep
      have hpart : faults.written text <+: text := by
        rw [Faults.written]
        cases faults.writes with
        | none => exact List.prefix_refl text
        | some n => exact List.take_prefix n text
      rw [Adds, hstore, hsink]
      rcases RotatingSink.trace_log faults text sink s.store with
        ⟨htrace, hwhole | hnone⟩ | ⟨htrace, hnone⟩
      · rw [hpart.eq_of_length hwhole] at htrace
        exact .inl htrace
      · exact .inr ⟨hnone, text, List.mem_singleton_self _, .inr ⟨_, hpart, htrace⟩⟩
      · exact .inr ⟨hnone, text, List.mem_singleton_self _, .inl htrace⟩

end Logging

/-- The files up to `LogName.m.log` are an archive of messages. -/
structure Archives (m : Nat) (name : Nat → Option Nat) (content : Nat → List Char) (next : Nat)
    (files : Nat → List (List Char)) : Prop where
  distinct : ∀ i j inode, i ≤ m → j ≤ m → name i = some inode → name j = some inode → i = j
  old : ∀ i inode, i ≤ m → name i = some inode → inode < next
  missing : ∀ i, i ≤ m → name i = none → files i = []
  present : ∀ i inode, i ≤ m → name i = some inode → content inode = (files i).flatten

namespace Archives

variable {m i next : Nat} {name : Nat → Option Nat} {content : Nat → List Char}
  {files : Nat → List (List Char)}

/-! ## Names -/

theorem remove (h : Archives m name content next files) (i : Nat) :
    Archives m (Function.update name i none) content next (drop i files) where
  distinct j k inode hj hk hname hname' := by
    have hne : j ≠ i := by rintro rfl; simp at hname
    have hne' : k ≠ i := by rintro rfl; simp at hname'
    rw [Function.update_of_ne hne] at hname
    rw [Function.update_of_ne hne'] at hname'
    exact h.distinct j k inode hj hk hname hname'
  old j inode hj hname := by
    have hne : j ≠ i := by rintro rfl; simp at hname
    rw [Function.update_of_ne hne] at hname
    exact h.old j inode hj hname
  missing j hj hname := by
    by_cases hne : j = i
    · rw [hne, drop, Function.update_self]
    · rw [Function.update_of_ne hne] at hname
      rw [drop, Function.update_of_ne hne]
      exact h.missing j hj hname
  present j inode hj hname := by
    have hne : j ≠ i := by rintro rfl; simp at hname
    rw [Function.update_of_ne hne] at hname
    rw [drop, Function.update_of_ne hne]
    exact h.present j inode hj hname

/-- A file that is not there need not be removed. -/
theorem drop_missing (h : Archives m name content next files) (hi : i ≤ m) (hname : name i = none) :
    drop i files = files := by
  rw [drop, ← h.missing i hi hname, Function.update_eq_self]

theorem rename {inode : Nat} (h : Archives m name content next files) (hi : i < m)
    (hname : name i = some inode) (hfree : name (i + 1) = none) :
    Archives m (Function.update (Function.update name (i + 1) (some inode)) i none) content next
      (move i files) where
  distinct j k other hj hk hj' hk' := by
    have hsame : ∀ j, j ≤ m →
        Function.update (Function.update name (i + 1) (some inode)) i none j = some other →
        j ≠ i ∧ (j = i + 1 ∧ other = inode ∨ j ≠ i + 1 ∧ name j = some other) := by
      intro j hj hname'
      have hne : j ≠ i := by rintro rfl; simp at hname'
      rw [Function.update_of_ne hne] at hname'
      by_cases hnext : j = i + 1
      · rw [hnext, Function.update_self] at hname'
        exact ⟨hne, .inl ⟨hnext, (Option.some.inj hname').symm⟩⟩
      · rw [Function.update_of_ne hnext] at hname'
        exact ⟨hne, .inr ⟨hnext, hname'⟩⟩
    obtain ⟨hji, ⟨hjn, hjo⟩ | ⟨-, hjname⟩⟩ := hsame j hj hj'
    · obtain ⟨hki, ⟨hkn, -⟩ | ⟨-, hkname⟩⟩ := hsame k hk hk'
      · rw [hjn, hkn]
      · exact absurd (h.distinct k i other hk hi.le hkname (hjo ▸ hname)) hki
    · obtain ⟨hki, ⟨-, hko⟩ | ⟨-, hkname⟩⟩ := hsame k hk hk'
      · exact absurd (h.distinct j i other hj hi.le hjname (hko ▸ hname)) hji
      · exact h.distinct j k other hj hk hjname hkname
  old j other hj hname' := by
    have hne : j ≠ i := by rintro rfl; simp at hname'
    rw [Function.update_of_ne hne] at hname'
    by_cases hnext : j = i + 1
    · rw [hnext, Function.update_self] at hname'
      exact Option.some.inj hname' ▸ h.old i inode hi.le hname
    · rw [Function.update_of_ne hnext] at hname'
      exact h.old j other hj hname'
  missing j hj hname' := by
    by_cases hne : j = i
    · rw [hne, move, Function.update_self]
    · rw [Function.update_of_ne hne] at hname'
      have hnext : j ≠ i + 1 := by rintro rfl; simp at hname'
      rw [Function.update_of_ne hnext] at hname'
      rw [move, Function.update_of_ne hne, Function.update_of_ne hnext]
      exact h.missing j hj hname'
  present j other hj hname' := by
    have hne : j ≠ i := by rintro rfl; simp at hname'
    rw [Function.update_of_ne hne] at hname'
    rw [move, Function.update_of_ne hne]
    by_cases hnext : j = i + 1
    · rw [hnext, Function.update_self] at hname'
      rw [hnext, Function.update_self, ← Option.some.inj hname']
      exact h.present i inode hi.le hname
    · rw [Function.update_of_ne hnext] at hname'
      rw [Function.update_of_ne hnext]
      exact h.present j other hj hname'

/-- Wherever the loop of `_rotate` ends, the oldest file may be gone and nothing else. The file that
is to be replaced is the oldest, or has been renamed. -/
theorem shift (faults : Faults) {k : Nat} (h : Archives m name content next files) (hk : k ≤ m)
    (hfree : k = m ∨ name k = none) :
    ∃ files' old, Archives m (Store.shift faults k name).1 content next files' ∧
      kept m files = old ++ kept m files' ∧
      ((Store.shift faults k name).2 = true → 0 < k → (Store.shift faults k name).1 0 = none) := by
  induction k generalizing name files with
  | zero => exact ⟨files, [], h, rfl, fun _ hpos => absurd hpos (lt_irrefl 0)⟩
  | succ i ih =>
      rw [Store.shift]
      split
      · exact ⟨files, [], h, rfl, by simp⟩
      · -- the target is removed
        obtain ⟨old, hold⟩ : ∃ old, kept m files = old ++ kept m (drop (i + 1) files) := by
          rcases hfree with hlast | hnone
          · exact ⟨files (i + 1), by rw [hlast, kept_drop]⟩
          · exact ⟨[], by rw [h.drop_missing hk hnone, List.nil_append]⟩
        have hremoved := h.remove (i + 1)
        have hsame : Function.update name (i + 1) none i = name i := Function.update_of_ne (by omega) ..
        cases hname : name i with
        | none =>
            obtain ⟨files', old', harchives, hkept, hend⟩ :=
              ih hremoved (by omega) (.inr (hsame.trans hname))
            refine ⟨files', old ++ old', harchives, by rw [hold, hkept, List.append_assoc], ?_⟩
            intro hdone _
            rcases Nat.eq_zero_or_pos i with rfl | hpos
            · exact hsame.trans hname
            · exact hend hdone hpos
        | some inode =>
            dsimp only
            split
            · exact ⟨drop (i + 1) files, old, hremoved, hold, by simp⟩
            · have hmoved := hremoved.rename (i := i) (by omega) (hsame.trans hname)
                (Function.update_self ..)
              rw [Function.update_idem] at hmoved
              obtain ⟨files', old', harchives, hkept, hend⟩ :=
                ih hmoved (by omega) (.inr (Function.update_self ..))
              have hmove : kept m (move i (drop (i + 1) files)) = kept m (drop (i + 1) files) :=
                kept_move (by omega) (by rw [drop, Function.update_self])
              refine ⟨files', old ++ old', harchives, ?_, ?_⟩
              · rw [hold, ← hmove, hkept, List.append_assoc]
              · intro hdone _
                rcases Nat.eq_zero_or_pos i with rfl | hpos
                · simp [Store.shift]
                · exact hend hdone hpos

/-! ## Contents -/

/-- Numbers that are not in use do not matter. -/
theorem weaken (h : Archives m name content next files) {next' : Nat} (hle : next ≤ next') :
    Archives m name content next' files :=
  ⟨h.distinct, fun i inode hi hname => (h.old i inode hi hname).trans_le hle, h.missing, h.present⟩

/-- A new file has nothing. -/
theorem create (h : Archives m name content next files) (hname : name 0 = none) :
    Archives m (Function.update name 0 (some next)) (Function.update content next []) (next + 1) files where
  distinct i j inode hi hj hi' hj' := by
    by_cases hi0 : i = 0
    · by_cases hj0 : j = 0
      · rw [hi0, hj0]
      · rw [hi0, Function.update_self] at hi'
        rw [Function.update_of_ne hj0] at hj'
        have hlt := h.old j inode hj hj'
        rw [← Option.some.inj hi'] at hlt
        exact absurd hlt (lt_irrefl next)
    · rw [Function.update_of_ne hi0] at hi'
      by_cases hj0 : j = 0
      · rw [hj0, Function.update_self] at hj'
        have hlt := h.old i inode hi hi'
        rw [← Option.some.inj hj'] at hlt
        exact absurd hlt (lt_irrefl next)
      · rw [Function.update_of_ne hj0] at hj'
        exact h.distinct i j inode hi hj hi' hj'
  old i inode hi hname' := by
    by_cases hi0 : i = 0
    · rw [hi0, Function.update_self] at hname'
      exact Option.some.inj hname' ▸ Nat.lt_succ_self next
    · rw [Function.update_of_ne hi0] at hname'
      exact (h.old i inode hi hname').trans (Nat.lt_succ_self next)
  missing i hi hname' := by
    have hi0 : i ≠ 0 := by rintro rfl; simp at hname'
    rw [Function.update_of_ne hi0] at hname'
    exact h.missing i hi hname'
  present i inode hi hname' := by
    by_cases hi0 : i = 0
    · rw [hi0, Function.update_self] at hname'
      rw [← Option.some.inj hname', Function.update_self, hi0, h.missing 0 (Nat.zero_le m) hname,
        List.flatten_nil]
    · rw [Function.update_of_ne hi0] at hname'
      have hne : inode ≠ next := (h.old i inode hi hname').ne
      rw [Function.update_of_ne hne]
      exact h.present i inode hi hname'

/-- The bytes of `LogName.log` are replaced. -/
theorem replace {inode : Nat} {records : List (List Char)} {bytes : List Char}
    (h : Archives m name content next files) (hname : name 0 = some inode)
    (hbytes : bytes = records.flatten) :
    Archives m name (Function.update content inode bytes) next (Function.update files 0 records) where
  distinct := h.distinct
  old := h.old
  missing i hi hname' := by
    have hi0 : i ≠ 0 := by
      rintro rfl
      rw [hname] at hname'
      cases hname'
    rw [Function.update_of_ne hi0]
    exact h.missing i hi hname'
  present i other hi hname' := by
    by_cases hi0 : i = 0
    · rw [hi0, hname] at hname'
      rw [← Option.some.inj hname', hi0, Function.update_self, Function.update_self, hbytes]
    · have hne : other ≠ inode := by
        rintro rfl
        exact hi0 (h.distinct i 0 other hi (Nat.zero_le m) hname' hname)
      rw [Function.update_of_ne hne, Function.update_of_ne hi0]
      exact h.present i other hi hname'

end Archives

/-- A sink that writes at the end of `LogName.log`. -/
structure SinkOn (m : Nat) (d : Store) (sink : RotatingSink) : Prop where
  maxFiles : sink.maxFiles = m
  name : d.name 0 = some (d.opened sink.file).inode
  position : d.position sink.file = (d.content (d.opened sink.file).inode).length

/-- The files of a disk are an archive. -/
def Store.Archive (m : Nat) (d : Store) (files : Nat → List (List Char)) : Prop :=
  Archives m d.name d.content d.next files

section Files

variable {m : Nat} {d : Store} {files : Nat → List (List Char)} {sink : RotatingSink}

/-- A file that is there is opened, another is made, and the only one may be emptied. -/
theorem archive_fopen (truncate : Bool) (h : d.Archive m files) (hmax : sink.maxFiles = m)
    (hempty : truncate = true → m = 0 ∨ d.name 0 = none) :
    SinkOn m (d.fopen truncate) { sink with file := d.next } ∧
      ∃ files' old, (d.fopen truncate).Archive m files' ∧ kept m files = old ++ kept m files' ∧
        (truncate = false ∨ d.name 0 = none → files' = files ∧ old = []) := by
  cases hname : d.name 0 with
  | none =>
      have hmade : (d.fopen truncate).Archive m files := by
        have hcreate := Archives.create h hname
        rw [Store.Archive, Store.fopen]
        simpa [hname] using hcreate
      refine ⟨⟨hmax, ?_, ?_⟩, files, [], hmade, rfl, fun _ => ⟨rfl, rfl⟩⟩
      · simp [Store.fopen, hname]
      · cases truncate <;> simp [Store.fopen, hname, Store.position, Disk.position, Store.disk]
  | some inode =>
      cases truncate with
      | false =>
          have hopened : (d.fopen false).Archive m files := by
            rw [Store.Archive, Store.fopen]
            simp only [hname, Option.getD_some, Option.isNone_some, Bool.or_self, Bool.false_eq_true, if_false]
            rw [← hname, Function.update_eq_self]
            exact Archives.weaken h (Nat.le_succ d.next)
          refine ⟨⟨hmax, ?_, ?_⟩, files, [], hopened, rfl, fun _ => ⟨rfl, rfl⟩⟩
          · simp [Store.fopen, hname]
          · simp [Store.fopen, hname, Store.position, Disk.position, Store.disk]
      | true =>
          have hm : m = 0 := (hempty rfl).resolve_right (by simp [hname])
          have hcleared : (d.fopen true).Archive m (drop 0 files) := by
            rw [Store.Archive, Store.fopen]
            simp only [hname, Option.getD_some, Bool.true_or, if_true]
            rw [← hname, Function.update_eq_self]
            exact (Archives.replace h hname List.flatten_nil.symm).weaken (Nat.le_succ d.next)
          refine ⟨⟨hmax, ?_, ?_⟩, drop 0 files, files 0, hcleared, ?_, by simp⟩
          · simp [Store.fopen, hname]
          · simp [Store.fopen, hname, Store.position, Disk.position, Store.disk]
          · rw [hm, kept_drop]

/-- A message goes to the end of `LogName.log`. -/
theorem archive_fwrite (h : d.Archive m files) (hsink : SinkOn m d sink) (text : List Char) :
    SinkOn m (d.fwrite sink.file text) sink ∧
      (d.fwrite sink.file text).Archive m (put [text] files) := by
  have hpresent := h.present 0 _ (Nat.zero_le m) hsink.name
  refine ⟨⟨hsink.maxFiles, ?_, ?_⟩, ?_⟩
  · simp [Store.fwrite, hsink.name]
  · rw [Store.position, Store.fwrite_disk, (Disk.fwrite_end hsink.position).2]
    simp only [Store.fwrite, Function.update_self, Store.length_overwrite, hsink.position]
    exact (Nat.max_eq_right (Nat.le_add_right _ _)).symm
  · rw [Store.Archive, Store.fwrite]
    refine Archives.replace h hsink.name ?_
    rw [hsink.position, Store.overwrite_end, hpresent, List.flatten_append, List.flatten_singleton]

/-! ## Sinks -/

/-- What a step of a sink does: messages are written at one end, and the oldest may go at the
other. -/
def Advances (m : Nat) (d d' : Store) (files : Nat → List (List Char)) : Prop :=
  ∃ files' old new, d'.Archive m files' ∧ d'.trace = d.trace ++ new ∧
    kept m files ++ new = old ++ kept m files'

theorem SinkOn.resize (h : SinkOn m d sink) (n : Nat) : SinkOn m d { sink with currentSize := n } :=
  ⟨h.maxFiles, h.name, h.position⟩

theorem advances_write (faults : Faults) (text : List Char) (h : d.Archive m files)
    (hsink : SinkOn m d sink) : Advances m d (sink.write faults text d).2 files ∧
      ∀ sink' ∈ (sink.write faults text d).1, SinkOn m (sink.write faults text d).2 sink' := by
  obtain ⟨hsink', harchive⟩ := archive_fwrite h hsink (faults.written text)
  refine ⟨⟨_, [], [faults.written text], harchive, rfl, by rw [kept_put, List.nil_append]⟩, ?_⟩
  intro sink' hmem
  rw [RotatingSink.write] at hmem
  split at hmem
  · obtain rfl := Option.some.inj hmem
    exact hsink'
  · cases hmem

theorem advances_rotate (faults : Faults) (h : d.Archive m files) (hsink : SinkOn m d sink) :
    ∃ files' old, (sink.rotateFiles faults d).2.Archive m files' ∧ kept m files = old ++ kept m files' ∧
      (sink.rotateFiles faults d).2.trace = d.trace ∧
      ∀ sink' ∈ (sink.rotateFiles faults d).1, SinkOn m (sink.rotateFiles faults d).2 sink' := by
  obtain ⟨files', old, harchive, hkept, hend⟩ := Archives.shift faults h le_rfl (.inl rfl)
  rw [RotatingSink.rotateFiles, hsink.maxFiles]
  dsimp only
  by_cases hdone : ((Store.shift faults m d.name).2 && faults.opened) = true
  · rw [if_pos hdone]
    have hempty : m = 0 ∨ (Store.shift faults m d.name).1 0 = none := by
      rcases Nat.eq_zero_or_pos m with hm | hm
      · exact .inl hm
      · exact .inr (hend (Bool.and_eq_true_iff.mp hdone).1 hm)
    obtain ⟨hsink', files'', old', harchive', hkept', -⟩ :=
      archive_fopen (d := { d with name := (Store.shift faults m d.name).1 }) true harchive
        hsink.maxFiles fun _ => hempty
    rw [hsink.maxFiles] at hsink'
    refine ⟨files'', old ++ old', harchive', by rw [hkept, hkept', List.append_assoc], rfl, ?_⟩
    intro sink' hmem
    obtain rfl := Option.some.inj hmem
    exact hsink'
  · rw [if_neg hdone]
    exact ⟨files', old, harchive, hkept, rfl, fun sink' hmem => by cases hmem⟩

theorem advances_log (faults : Faults) (text : List Char) (h : d.Archive m files)
    (hsink : SinkOn m d sink) : Advances m d (sink.log faults text d).2 files ∧
      ∀ sink' ∈ (sink.log faults text d).1, SinkOn m (sink.log faults text d).2 sink' := by
  rw [RotatingSink.log]
  dsimp only
  split
  · obtain ⟨files', old, harchive, hkept, htrace, hrotated⟩ :=
      advances_rotate faults h (hsink.resize (sink.currentSize + text.length))
    split
    · rename_i hrotate
      rw [hrotate] at harchive htrace hrotated
      obtain ⟨⟨files'', old', new, harchive', htrace', hkept'⟩, hlast⟩ :=
        advances_write faults text harchive ((hrotated _ rfl).resize text.length)
      refine ⟨⟨files'', old ++ old', new, harchive', by rw [htrace', htrace], ?_⟩, hlast⟩
      rw [hkept, List.append_assoc, hkept', List.append_assoc]
    · rename_i hrotate
      rw [hrotate] at harchive htrace
      exact ⟨⟨files', old, [], harchive, by rw [htrace, List.append_nil], by rw [List.append_nil, hkept]⟩,
        fun sink' hmem => by cases hmem⟩
  · exact advances_write faults text h (hsink.resize _)

/-! ## Runs -/

/-- The files have the last of what has been written. -/
def Logging.Kept (m : Nat) (s : Logging) : Prop :=
  (∃ files dropped, s.store.Archive m files ∧ s.store.trace = dropped ++ kept m files) ∧
    ∀ sink ∈ s.sink, SinkOn m s.store sink

theorem Logging.Kept.step {s s' : Logging} {e : LogEvent} (h : s.Kept m) (hstep : s.step m e = some s') :
    s'.Kept m := by
  obtain ⟨⟨files, dropped, harchive, htrace⟩, hsink⟩ := h
  cases e with
  | construct maxSize faults =>
      rw [Logging.step, RotatingSink.construct] at hstep
      by_cases hopened : faults.opened = true
      · rw [if_pos hopened] at hstep
        obtain rfl := Option.some.inj hstep
        obtain ⟨hsink', files', old, harchive', -, hsame⟩ := archive_fopen false harchive
          (show (⟨maxSize, m, ((s.store.fopen false).content
            ((s.store.fopen false).opened s.store.next).inode).length, s.store.next⟩ : RotatingSink).maxFiles =
              m from rfl) (by simp)
        obtain ⟨rfl, rfl⟩ := hsame (.inl rfl)
        refine ⟨⟨files', dropped, harchive', htrace⟩, fun sink hmem => ?_⟩
        obtain rfl := Option.some.inj hmem
        exact hsink'
      · rw [if_neg hopened] at hstep
        obtain rfl := Option.some.inj hstep
        exact ⟨⟨files, dropped, harchive, htrace⟩, hsink⟩
  | log text faults =>
      rw [Logging.step] at hstep
      cases hs : s.sink with
      | none =>
          rw [hs] at hstep
          cases hstep
      | some sink =>
          rw [hs] at hstep
          obtain rfl := Option.some.inj hstep
          obtain ⟨⟨files', old, new, harchive', htrace', hkept⟩, hlast⟩ :=
            advances_log faults text harchive (hsink sink hs)
          refine ⟨⟨files', dropped ++ old, harchive', ?_⟩, hlast⟩
          rw [htrace', htrace, List.append_assoc, hkept, List.append_assoc]
  | ends =>
      obtain rfl := Option.some.inj hstep
      exact ⟨⟨files, dropped, harchive, htrace⟩, fun sink hmem => by cases hmem⟩

/-- The bytes of the file with a number. -/
def Store.bytes (d : Store) (i : Nat) : List Char := (d.name i).elim [] d.content

theorem bytes_of_archive (h : d.Archive m files) {i : Nat} (hi : i ≤ m) :
    d.bytes i = (files i).flatten := by
  rw [Store.bytes]
  cases hname : d.name i with
  | none => rw [h.missing i hi hname, Option.elim_none, List.flatten_nil]
  | some inode => exact h.present i inode hi hname

theorem Logging.archive_start (m : Nat) (existing : Nat → Option (List Char)) :
    (Logging.start m existing).store.Archive m fun i => (existing i).toList := by
  refine ⟨?_, ?_, ?_, ?_⟩
  · intro i j inode hi hj hname hname'
    simp only [Logging.start, if_pos hi, if_pos hj, Option.map_eq_some_iff] at hname hname'
    obtain ⟨-, -, rfl⟩ := hname
    obtain ⟨-, -, hij⟩ := hname'
    exact hij.symm
  · intro i inode hi hname
    simp only [Logging.start, if_pos hi, Option.map_eq_some_iff] at hname
    obtain ⟨-, -, rfl⟩ := hname
    exact Nat.lt_succ_of_le hi
  · intro i hi hname
    simp only [Logging.start, if_pos hi, Option.map_eq_none_iff] at hname
    rw [hname, Option.toList_none]
  · intro i inode hi hname
    simp only [Logging.start, if_pos hi, Option.map_eq_some_iff] at hname
    obtain ⟨text, htext, rfl⟩ := hname
    simp [Logging.start, htext]

theorem Logging.kept_start (m : Nat) (existing : Nat → Option (List Char)) :
    (Logging.start m existing).Kept m :=
  ⟨⟨_, [], Logging.archive_start m existing, rfl⟩, fun sink hmem => by cases hmem⟩

/-- Whatever fails and whoever starts anew: the messages are written as they are logged, and the
files, from the oldest to `LogName.log`, have the last of what has been written, in order, each
message in one file. -/
theorem always_kept (m : Nat) (existing : Nat → Option (List Char)) (events : List LogEvent) :
    Machine.Along (Logging.step m) (fun s e => ∀ s', s.step m e = some s' → s.Adds e s')
      (Logging.start m existing) events ∧
    Machine.Always (Logging.step m) (fun s => ∃ files dropped, s.store.trace = dropped ++ kept m files ∧
      ∀ i ≤ m, s.store.bytes i = (files i).flatten) (Logging.start m existing) events := by
  have halong : Machine.Along (Logging.step m) (fun _ _ => True) (Logging.start m existing) events :=
    Machine.along_of_forall fun _ _ => trivial
  have hkept : Machine.Always (Logging.step m) (Logging.Kept m) (Logging.start m existing) events :=
    Machine.Along.always (fun s e s' h _ hstep => h.step hstep) (Logging.kept_start m existing) halong
  refine ⟨Machine.along_of_mem fun _ _ _ _ => Logging.adds_of_step, hkept.mono fun s h => ?_⟩
  obtain ⟨⟨files, dropped, harchive, htrace⟩, -⟩ := h
  exact ⟨files, dropped, htrace, fun i hi => bytes_of_archive harchive hi⟩

/-! ## How much is kept -/

/-- Nothing fails, and the sink takes this many bytes or more. -/
def LogEvent.Sound (limit : Nat) : LogEvent → Prop
  | .construct maxSize faults => limit ≤ maxSize ∧ faults = .none
  | .log _ faults => faults = .none
  | .ends => True

/-- More than the limit is kept, or everything, and the sink knows the size of its file. -/
def Logging.Recent (m limit : Nat) (s : Logging) : Prop :=
  ∃ files dropped, s.store.Archive m files ∧ s.store.trace = dropped ++ kept m files ∧
    (dropped = [] ∨ limit < (files 1).flatten.length + (files 0).flatten.length) ∧
    ∀ sink ∈ s.sink, SinkOn m s.store sink ∧ limit ≤ sink.maxSize ∧
      sink.currentSize = (files 0).flatten.length

/-- After a rotation `LogName.1.log` has what `LogName.log` had, and that is new. -/
theorem archive_rotated (hm : 0 < m) (h : d.Archive m files) (hsink : SinkOn m d sink) :
    ∃ files' old, (sink.rotated d).Archive m files' ∧ kept m files = old ++ kept m files' ∧
      (files' 1).flatten = (files 0).flatten ∧ files' 0 = [] ∧
      SinkOn m (sink.rotated d) { sink with file := d.next } := by
  obtain ⟨files', old, harchive, hkept, -⟩ := Archives.shift .none h le_rfl (.inl rfl)
  rw [Store.shift_none] at harchive
  obtain ⟨n, rfl⟩ : ∃ n, m = n + 1 := ⟨m - 1, by omega⟩
  have hnone : Disk.shift (n + 1) d.name 0 = none := by rw [Disk.shift_apply, if_pos rfl]
  have hmoved : Disk.shift (n + 1) d.name 1 = d.name 0 := by
    rw [Disk.shift_apply, if_neg one_ne_zero, if_pos (by omega)]
  obtain ⟨hsink', files'', old', harchive', -, hsame⟩ :=
    archive_fopen (d := { d with name := Disk.shift (n + 1) d.name }) true harchive
      hsink.maxFiles fun _ => .inr hnone
  obtain ⟨rfl, rfl⟩ := hsame (.inr hnone)
  have hlater := harchive.present 1 _ (by omega) (hmoved.trans hsink.name)
  rw [RotatingSink.rotated, hsink.maxFiles]
  refine ⟨files'', old, harchive', hkept, ?_, harchive.missing 0 (Nat.zero_le _) hnone, ?_⟩
  · rw [← hlater, ← h.present 0 _ (Nat.zero_le _) hsink.name]
  · rw [hsink.maxFiles] at hsink'
    exact hsink'

theorem length_put (files : Nat → List (List Char)) (text : List Char) :
    (put [text] files 0).flatten.length = (files 0).flatten.length + text.length := by
  rw [put, Function.update_self, List.flatten_append, List.length_append, List.flatten_singleton]

theorem Logging.Recent.log {limit : Nat} {dropped : List (List Char)} (hm : 0 < m) (text : List Char)
    (harchive : d.Archive m files) (htrace : d.trace = dropped ++ kept m files)
    (hbound : dropped = [] ∨ limit < (files 1).flatten.length + (files 0).flatten.length)
    (hon : SinkOn m d sink) (hmax : limit ≤ sink.maxSize)
    (hsize : sink.currentSize = (files 0).flatten.length) :
    (⟨(sink.log .none text d).2, (sink.log .none text d).1⟩ : Logging).Recent m limit := by
  have hlater : ∀ files : Nat → List (List Char), put [text] files 1 = files 1 := by
    intro files
    rw [put, Function.update_of_ne one_ne_zero]
  by_cases hfits : sink.currentSize + text.length ≤ sink.maxSize
  · rw [RotatingSink.log_fits hfits]
    obtain ⟨hlast, harchive'⟩ := archive_fwrite harchive hon text
    refine ⟨put [text] files, dropped, harchive', ?_, ?_, fun sink' hmem => ?_⟩
    · rw [kept_put, ← List.append_assoc, ← htrace]
      rfl
    · rw [length_put, hlater]
      rcases hbound with hnone | hbound
      · exact .inl hnone
      · exact .inr (by omega)
    · obtain rfl := Option.some.inj hmem
      exact ⟨hlast.resize _, hmax, by rw [length_put, hsize]⟩
  · rw [not_le] at hfits
    rw [RotatingSink.log_rotates hfits]
    obtain ⟨files', old, harchive', hkept, hone, hzero, hon'⟩ := archive_rotated hm harchive hon
    obtain ⟨hlast, harchive''⟩ := archive_fwrite harchive' hon' text
    refine ⟨put [text] files', dropped ++ old, harchive'', ?_, .inr ?_, fun sink' hmem => ?_⟩
    · rw [kept_put, List.append_assoc, ← List.append_assoc old, ← hkept, ← List.append_assoc, ← htrace]
      rfl
    · rw [length_put, hlater, hone, hzero]
      simp only [List.flatten_nil, List.length_nil]
      omega
    · obtain rfl := Option.some.inj hmem
      refine ⟨hlast.resize text.length, hmax, ?_⟩
      rw [length_put, hzero]
      simp

theorem Logging.Recent.step {s s' : Logging} {e : LogEvent} {limit : Nat} (hm : 0 < m)
    (h : s.Recent m limit) (he : e.Sound limit) (hstep : s.step m e = some s') : s'.Recent m limit := by
  obtain ⟨files, dropped, harchive, htrace, hbound, hsink⟩ := h
  cases e with
  | construct maxSize faults =>
      obtain ⟨hmax, rfl⟩ := he
      rw [Logging.step, RotatingSink.construct, if_pos Store.opened_none] at hstep
      obtain rfl := Option.some.inj hstep
      obtain ⟨hsink', files', old, harchive', -, hsame⟩ := archive_fopen false harchive
        (show (⟨maxSize, m, ((s.store.fopen false).content
          ((s.store.fopen false).opened s.store.next).inode).length, s.store.next⟩ : RotatingSink).maxFiles =
            m from rfl) (by simp)
      obtain ⟨rfl, rfl⟩ := hsame (.inl rfl)
      refine ⟨files', dropped, harchive', htrace, hbound, fun sink hmem => ?_⟩
      obtain rfl := Option.some.inj hmem
      refine ⟨hsink', hmax, ?_⟩
      rw [← harchive'.present 0 _ (Nat.zero_le m) hsink'.name]
  | log text faults =>
      obtain rfl : faults = .none := he
      rw [Logging.step] at hstep
      cases hs : s.sink with
      | none =>
          rw [hs] at hstep
          cases hstep
      | some sink =>
          rw [hs] at hstep
          obtain rfl := Option.some.inj hstep
          obtain ⟨hon, hmax, hsize⟩ := hsink sink hs
          exact Logging.Recent.log hm text harchive htrace hbound hon hmax hsize
  | ends =>
      obtain rfl := Option.some.inj hstep
      exact ⟨files, dropped, harchive, htrace, hbound, fun sink hmem => by cases hmem⟩

theorem le_length_kept (hm : 0 < m) (files : Nat → List (List Char)) :
    (files 1).flatten.length + (files 0).flatten.length ≤ (kept m files).flatten.length := by
  induction m with
  | zero => exact absurd hm (lt_irrefl 0)
  | succ n ih =>
      rw [kept, List.flatten_append, List.length_append]
      rcases Nat.eq_zero_or_pos n with rfl | hn
      · rw [kept, zero_add]
      · exact (ih hn).trans (Nat.le_add_left _ _)

/-- Where nothing fails all that is logged is written. -/
theorem LogEvent.Sound.writes {s s' : Logging} {e : LogEvent} {limit : Nat} (he : e.Sound limit)
    (hstep : s.step m e = some s') : s'.store.trace = s.store.trace ++ e.texts := by
  rcases Logging.adds_of_step hstep with hwhole | ⟨hends, text, htext, -⟩
  · exact hwhole
  · cases e with
    | log text' faults =>
        obtain rfl : faults = .none := he
        obtain ⟨sink, -, -, hsink⟩ := Logging.sink_of_log hstep
        rw [RotatingSink.log_disk.1, hends] at hsink
        cases hsink
    | construct maxSize faults => cases htext
    | ends => cases htext

/-- If nothing fails and there is a second file, then all messages are written as they are logged,
and none goes before more bytes are kept than any of the sinks has been told to take. -/
theorem keeps_recent (m limit : Nat) (existing : Nat → Option (List Char)) (events : List LogEvent)
    (hm : 0 < m) (hsound : ∀ e ∈ events, e.Sound limit) :
    Machine.Along (Logging.step m)
      (fun s e => ∀ s', s.step m e = some s' → s'.store.trace = s.store.trace ++ e.texts)
      (Logging.start m existing) events ∧
    Machine.Always (Logging.step m) (fun s => ∃ files dropped, s.store.trace = dropped ++ kept m files ∧
      (∀ i ≤ m, s.store.bytes i = (files i).flatten) ∧
      (dropped = [] ∨ limit < (kept m files).flatten.length)) (Logging.start m existing) events := by
  have halong : Machine.Along (Logging.step m) (fun _ e => e.Sound limit) (Logging.start m existing)
      events := Machine.along_of_forall hsound
  have hstart : (Logging.start m existing).Recent m limit := by
    refine ⟨fun i => (existing i).toList, [], Logging.archive_start m existing, rfl, .inl rfl, ?_⟩
    intro sink hmem
    cases hmem
  have hrecent : Machine.Always (Logging.step m) (Logging.Recent m limit) (Logging.start m existing)
      events := Machine.Along.always (fun s e s' h he hstep => h.step hm he hstep) hstart halong
  refine ⟨Machine.along_of_mem fun e he _ _ => (hsound e he).writes, hrecent.mono fun s h => ?_⟩
  obtain ⟨files, dropped, harchive, htrace, hbound, -⟩ := h
  refine ⟨files, dropped, htrace, fun i hi => bytes_of_archive harchive hi, ?_⟩
  exact hbound.imp_right fun hlong => hlong.trans_le (le_length_kept hm files)

/-- A message that does not fit goes to a new file, and the one before is kept. -/
theorem two_messages_kept : Machine.Along (Logging.step 1)
      (fun s e => ∀ s', s.step 1 e = some s' → s'.store.trace = s.store.trace ++ e.texts)
      (Logging.start 1 fun _ => none) [.construct 1 .none, .log ['a'] .none, .log ['b'] .none] ∧
    Machine.Always (Logging.step 1)
    (fun s => ∃ files dropped, s.store.trace = dropped ++ kept 1 files ∧
      (∀ i ≤ 1, s.store.bytes i = (files i).flatten) ∧
      (dropped = [] ∨ 1 < (kept 1 files).flatten.length)) (Logging.start 1 fun _ => none)
    [.construct 1 .none, .log ['a'] .none, .log ['b'] .none] :=
  keeps_recent 1 1 (fun _ => none) _ (by decide) (by simp [LogEvent.Sound])

end Files

end Robotd
