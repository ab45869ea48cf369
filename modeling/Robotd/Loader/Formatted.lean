import Robotd.Loader.Meaning
import Robotd.Log.Records

/-!
# The messages of the loader

`logMessage` counts the placeholders of a format and throws if there are more of them than
arguments, unless there are none, when the format is a text. `logMessage_throws_iff` says that this
is what a call of the logger does (`logIfEnabled`).
-/

namespace Robotd

open Lib Lib.CLib Load

/-- Braces stand in placeholders only. -/
def plainFormat : List Char → Bool
  | '{' :: '}' :: rest => plainFormat rest
  | c :: rest => c ≠ '{' && c ≠ '}' && plainFormat rest
  | [] => true

namespace Fmt

section Placeholders

variable {f : Formatter} {s : List Char}

/-- Something is written if the arguments from the next one on are enough. -/
theorem exists_writes_iff (hplain : plainFormat s = true) (hnext : 0 ≤ f.nextArgIndex)
    (hargs : f.nextArgIndex ≤ f.args.length) :
    (∃ text, Writes f s text) ↔ f.nextArgIndex.toNat + placeholders s ≤ f.args.length := by
  fun_induction plainFormat generalizing f with
  | case1 rest ih =>
      rw [placeholders]
      constructor
      · rintro ⟨text, hwrites⟩
        obtain ⟨value, f', s, written, hfield, -, hwritten⟩ := (writes_field (by simp)).mp hwrites
        obtain ⟨rfl, arg, harg, -⟩ := formatField_next.mp hfield
        obtain ⟨-, hsome, rfl⟩ := nextArg_eq_ok.mp harg
        obtain ⟨hlt, -⟩ := List.getElem?_eq_some_iff.mp hsome
        have hfits := (ih hplain (Int.add_nonneg hnext (by decide)) (by dsimp only; omega)).mp ⟨_, hwritten⟩
        dsimp only at hfits
        omega
      · intro hfits
        have hlt : f.nextArgIndex.toNat < f.args.length := by omega
        have harg : f.nextArg = .ok (f.args[f.nextArgIndex.toNat], _) :=
          nextArg_eq_ok.mpr ⟨hnext, List.getElem?_eq_getElem hlt, rfl⟩
        obtain ⟨written, hwritten⟩ :=
          (ih (f := { f with nextArgIndex := f.nextArgIndex + 1 }) hplain
            (Int.add_nonneg hnext (by decide)) (by dsimp only; omega)).mpr (by dsimp only; omega)
        exact ⟨_, .field (by simp) (formatField_next.mpr ⟨rfl, _, harg, rfl⟩) hwritten⟩
  | case2 c rest hbraces ih =>
      simp only [Bool.and_eq_true, decide_eq_true_eq] at hplain
      rw [placeholders, ← ih hplain.2 hnext hargs]
      · constructor
        · rintro ⟨text, hwrites⟩
          obtain ⟨written, -, hwritten⟩ := (writes_char hplain.1).mp hwrites
          exact ⟨written, hwritten⟩
        · rintro ⟨written, hwritten⟩
          exact ⟨_, .char hplain.1 hwritten⟩
      · exact hbraces
  | case3 =>
      refine iff_of_true ⟨[], .done f⟩ ?_
      rw [placeholders]
      omega

theorem format_done_iff {args : List Arg} (hplain : plainFormat s = true) :
    (format args s).2 = none ↔ placeholders s ≤ args.length := by
  have hwrites := exists_writes_iff (f := ⟨args, 0⟩) hplain le_rfl (Int.natCast_nonneg _)
  rw [Int.toNat_zero, Nat.zero_add] at hwrites
  rw [← hwrites]
  constructor
  · intro h
    exact ⟨(format args s).1, format_iff.mp (Prod.ext rfl h)⟩
  · rintro ⟨text, h⟩
    rw [format_iff.mpr h]

end Placeholders

end Fmt

theorem logIfEnabled_throws_iff {level : Level} {tag : Tag} {localtime : Int → Tm} {msg : LogMsg}
    {format : List Char} {args : List Fmt.Arg} (hplain : plainFormat format = true) :
    (∃ message, logIfEnabled level tag localtime msg format args = .error message) ↔
      level.rank ≤ msg.level.rank ∧ args ≠ [] ∧ args.length < placeholders format := by
  rw [logIfEnabled]
  split_ifs with hlevel hnone
  · exact iff_of_false (by simp) fun h => absurd h.1 (Nat.not_le.mpr hlevel)
  · exact iff_of_false (by simp) fun h => h.2.1 hnone
  · have hdone : (Fmt.format args format).2 = none ↔ placeholders format ≤ args.length :=
      Fmt.format_done_iff hplain
    split
    · rename_i raw hformat
      rw [hformat] at hdone
      exact iff_of_false (by simp) fun h => absurd (hdone.mp rfl) (Nat.not_le.mpr h.2.2)
    · rename_i raw message hformat
      rw [hformat] at hdone
      have hlacks : args.length < placeholders format := Nat.not_le.mp fun h => by cases hdone.mpr h
      exact iff_of_true ⟨_, rfl⟩ ⟨Nat.not_lt.mp hlevel, hnone, hlacks⟩

/-- A message of the loader throws exactly when the call of the logger does. -/
theorem logMessage_throws_iff {s : Loader} {level : Level} {format : String} {args : List String}
    {tag : Tag} {localtime : Int → Tm} {msg : LogMsg} {values : List Fmt.Arg} (hlevel : msg.level = level)
    (hvalues : values.length = args.length) (hplain : plainFormat format.toList = true) :
    (logMessage level format args).run s = .thrown (.badFormat format) ↔
      ∃ logger message, s.log = some logger ∧
        logIfEnabled logger.level tag localtime msg format.toList values = .error message := by
  have hnone : values ≠ [] ↔ args ≠ [] := by
    rw [← List.length_pos_iff_ne_nil, hvalues, List.length_pos_iff_ne_nil]
  rw [logMessage, run_get_bind]
  cases hlog : s.log with
  | none => simp
  | some logger =>
      simp only [Option.some.injEq, exists_and_left, exists_eq_left', logIfEnabled_throws_iff hplain, hnone,
        hlevel, hvalues]
      split_ifs with hthrows
      · exact iff_of_true rfl hthrows
      · exact iff_of_false (by simp) hthrows

theorem port_message_throws :
    (logMessage .warn "<{}> {} port number must be less than 65535." ["Server(Slave)"]).run
        ⟨true, 1, .info, none, some ⟨0, ⟨0, "", 1⟩, .info⟩, 0, "", 0, 1⟩ =
      .thrown (.badFormat "<{}> {} port number must be less than 65535.") := by
  have hlength : [Fmt.Arg.string "Server(Slave)".toList].length = ["Server(Slave)"].length := rfl
  have hcall : logIfEnabled .info .daemon (fun _ => ⟨0, 0, 12, 1, 0, 126, 4, 0⟩) ⟨[], .warn, 0, 1, []⟩
      "<{}> {} port number must be less than 65535.".toList [.string "Server(Slave)".toList] = .error
        ("formatting error while processing format string '" ++
          "<{}> {} port number must be less than 65535.': argument index out of range") := by
    decide +kernel
  have hplain : plainFormat "<{}> {} port number must be less than 65535.".toList = true := by
    decide +kernel
  exact (logMessage_throws_iff rfl hlength hplain).mpr ⟨⟨0, ⟨0, "", 1⟩, .info⟩, _, rfl, hcall⟩

end Robotd
