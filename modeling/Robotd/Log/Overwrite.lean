import Robotd.Log.Files
import Robotd.Log.Sharing

/-!
# Messages that are written over

The writers of the log file over the bytes of the files. `never_overwritten_iff` says in which
orders of the turns every message that goes to a file with others is put after them; in all other
orders some message replaces bytes of another.
-/

namespace Robotd

open Lib

/-- The log file with its bytes, the objects of the sinks, and who has which. -/
structure TextLogs where
  store : Store
  sinks : Nat → RotatingSink
  roles : Sinks

namespace TextLogs

/-- The sizes of the files. -/
def logs (s : TextLogs) : Logs := ⟨s.store.disk, s.sinks, s.roles⟩

/-- One step, with the message. No operation on the files fails. -/
def step (limit : Nat) (s : TextLogs) (a : Turn × List Char) : Option TextLogs := do
  let roles ← s.roles.step a.1
  match a.1 with
  | .write writer =>
    let k ← s.roles.of writer
    let sink ← ((s.sinks k).log .none a.2 s.store).1
    return ⟨((s.sinks k).log .none a.2 s.store).2, Function.update s.sinks k sink, roles⟩
  | .reloadMonitor | .reloadMaster =>
    let sink ← (RotatingSink.construct .none limit 1 s.store).1
    return ⟨(RotatingSink.construct .none limit 1 s.store).2,
      Function.update s.sinks s.roles.next sink, roles⟩
  | .fork =>
    return { s with
      sinks := Function.update s.sinks s.roles.next (s.sinks s.roles.monitor)
      roles := roles }
  | .masterEnds => return { s with roles := roles }

/-- A directory with a `LogName.log` of these bytes. -/
def directory (content : List Char) : Store :=
  ⟨Function.update (fun _ => none) 0 (some 0), fun _ => content, fun _ => ⟨0, true, 0⟩, 1, []⟩

/-- A monitor that has opened it. -/
def start (limit : Nat) (content : List Char) : TextLogs :=
  ⟨(RotatingSink.construct .none limit 1 (directory content)).2,
    fun _ => (RotatingSink.make limit 1 (directory content).disk).1, .start⟩

/-- A message that goes to a file with others is put after them. -/
def Appends (s : TextLogs) (a : Turn × List Char) : Prop :=
  match a.1 with
  | .write writer => ∀ k ∈ s.roles.of writer,
      (s.sinks k).currentSize + a.2.length ≤ (s.sinks k).maxSize →
        (((s.sinks k).log .none a.2 s.store).2.content (s.store.opened (s.sinks k).file).inode) =
          s.store.content (s.store.opened (s.sinks k).file).inode ++ a.2
  | _ => True

variable {limit : Nat} {s : TextLogs}

/-! ## Bytes and sizes -/

theorem logs_start (limit : Nat) (content : List Char) :
    (start limit content).logs = Logs.start limit content.length := by
  have hdisk := (RotatingSink.construct_disk limit 1 (directory content)).2
  rw [logs, start, Logs.start, hdisk]
  rfl

/-- The sizes change as those of `Logs` do. -/
theorem logs_step (s : TextLogs) (a : Turn × List Char) :
    (step limit s a).map logs = Logs.step limit s.logs (a.1, a.2.length) := by
  obtain ⟨turn, text⟩ := a
  have hroles : s.logs.roles = s.roles := rfl
  rw [step, Logs.step, hroles]
  cases s.roles.step turn with
  | none => rfl
  | some roles => cases turn with
      | write writer => cases hk : s.roles.of writer with
          | none => simp [hk]
          | some k =>
              have hlog : ((s.sinks k).log .none text s.store).1 =
                  some ((s.sinks k).sinkIt text.length s.store.disk).1 ∧
                    ((s.sinks k).log .none text s.store).2.disk =
                      ((s.sinks k).sinkIt text.length s.store.disk).2 := RotatingSink.log_disk
              obtain ⟨hsink, hdisk⟩ := hlog
              simp [hk, hsink, logs, Logs.write, hdisk]
      | fork => rfl
      | masterEnds => rfl
      | _ =>
          obtain ⟨hsink, hdisk⟩ := RotatingSink.construct_disk limit 1 s.store
          simp [hsink, logs, Logs.reload, hdisk]

/-- The text is put after what the file has exactly when it is written to where the file ends. -/
theorem appends_iff {d : Store} {handle : Nat} {text : List Char} (htext : text ≠ []) :
    (d.fwrite handle text).content (d.opened handle).inode =
        d.content (d.opened handle).inode ++ text ↔
      d.disk.position handle = d.disk.size (d.opened handle).inode := by
  have hcontent : (d.fwrite handle text).content (d.opened handle).inode =
      Store.overwrite (d.position handle) text (d.content (d.opened handle).inode) :=
    Function.update_self ..
  rw [hcontent]
  constructor
  · intro happend
    have hlength := congrArg List.length happend
    have hpos := List.length_pos_of_ne_nil htext
    rw [Store.length_overwrite, List.length_append, Store.position] at hlength
    show d.disk.position handle = (d.content (d.opened handle).inode).length
    omega
  · intro hend
    rw [Store.position, hend]
    exact Store.overwrite_end

theorem appends_iff_atEnd {a : Turn × List Char} (htext : a.2 ≠ []) :
    s.Appends a ↔ s.logs.AtEnd (a.1, a.2.length) := by
  obtain ⟨turn, text⟩ := a
  cases turn with
  | write writer =>
      refine forall_congr' fun k => forall_congr' fun _ => forall_congr' fun hfits => ?_
      rw [RotatingSink.log_fits hfits]
      exact appends_iff htext
  | _ => exact Iff.rfl

/-- In all runs with this order of turns, whatever there is to begin with, every message is put
after what its file has, exactly when no sink writes to a file that it has made, or a copy of it
has, after one that opened the file later has written. -/
theorem never_overwritten_iff (turns : List Turn) :
    (∀ limit content texts, (∀ text ∈ texts, text ≠ [] ∧ text.length ≤ limit) →
      Machine.Along (step limit) Appends (start limit content) (turns.zip texts)) ↔
    Logs.AllClear turns := by
  have hsizes : ∀ limit content texts, (∀ text ∈ texts, text ≠ []) →
      (Machine.Along (step limit) Appends (start limit content) (turns.zip texts) ↔
        Machine.Along (Logs.step limit) Logs.AtEnd (Logs.start limit content.length)
          (turns.zip (texts.map List.length))) := by
    intro limit content texts htexts
    rw [← logs_start, List.zip_map_right]
    refine Machine.along_map logs_step fun s a ha => appends_iff_atEnd ?_
    obtain ⟨turn, text⟩ := a
    exact htexts text (List.of_mem_zip ha).2
  constructor
  · intro hall
    rw [← Logs.along_atEnd_iff]
    intro limit size messages hsize hmessages
    -- texts and bytes of these lengths
    have hlengths : (messages.map fun n => List.replicate n 'x').map List.length = messages := by
      simp [List.map_map, Function.comp_def]
    have htexts : ∀ text ∈ messages.map fun n => List.replicate n 'x',
        text ≠ [] ∧ text.length ≤ limit := by
      intro text htext
      obtain ⟨n, hn, rfl⟩ := List.mem_map.mp htext
      obtain ⟨hpos, hle⟩ := hmessages n hn
      refine ⟨List.ne_nil_of_length_pos ?_, ?_⟩
      all_goals rwa [List.length_replicate]
    have hend := (hsizes limit (List.replicate size 'x') _ fun text htext => (htexts text htext).1).mp
      (hall limit _ _ htexts)
    rwa [List.length_replicate, hlengths] at hend
  · intro hclear limit content texts htexts
    rw [hsizes limit content texts fun text htext => (htexts text htext).1]
    exact Logs.along_atEnd (Logs.tracked_start limit content.length) hclear

end TextLogs

end Robotd
