import Robotd.Loader.State
import Robotd.Log.Fields

/-!
# The pattern of a line

`pattern_formatter` of the vendored `spdlog` compiles a pattern to a list of formatters, one for
each flag and one for each run of other characters, and writes a message with them. `format_eq` says
what this comes to for each character of the pattern, and `format_logPattern` what the lines of this
program are.
-/

namespace Robotd

open Lib Lib.CLib

/-- `to_short_str`: the entry of `short_level_names`. -/
def Level.toShortStr : Level → String
  | trace => "T"
  | debug => "D"
  | info => "I"
  | notice => "N"
  | warn => "W"
  | err => "E"
  | critical => "C"
  | alert => "A"
  | emerg => "M"
  | off => "O"

/-- `std::tm`, in the ranges that `localtime` keeps. -/
structure Tm where
  sec : Fin 61
  min : Fin 60
  hour : Fin 24
  mday : Nat
  mon : Fin 12
  year : Int
  wday : Fin 7
  gmtoff : Int

/-- `log_msg`. The time is in nanoseconds since the epoch, and `raw` is the text of the message. -/
structure LogMsg where
  loggerName : List Char
  level : Level
  time : Int
  threadId : Nat
  raw : List Char

/-! ## Numbers and times -/

/-- `fmt::pad`, with the fill `'0'`. -/
def pad (value : Int) (width : Nat) : List Char :=
  Fmt.alignInt { Fmt.FormatSpec.default with width := width, fill := '0' }
    (if value < 0 then ['-'] else []) (decimal value.natAbs)

/-- `<<` of an integer. -/
def shownInt (value : Int) : List Char := (if value < 0 then ['-'] else []) ++ decimal value.natAbs

/-- A conversion to `unsigned`. -/
def toUnsigned (value : Int) : Int := value % 2 ^ 32

/-- `pad_n_join`. -/
def padNJoin (values : List Int) (sep : Char) : List Char := [sep].intercalate (values.map (pad · 2))

namespace Tm

variable (t : Tm)

def ampm : String := if 12 ≤ t.hour.val then "PM" else "AM"

def to12h : Int := if 12 < t.hour.val then t.hour.val - 12 else t.hour.val

def days : Fin 7 → String := !["Sun", "Mon", "Tue", "Wed", "Thu", "Fri", "Sat"]

def fullDays : Fin 7 → String :=
  !["Sunday", "Monday", "Tuesday", "Wednesday", "Thursday", "Friday", "Saturday"]

def months : Fin 12 → String :=
  !["Jan", "Feb", "Mar", "Apr", "May", "June", "July", "Aug", "Sept", "Oct", "Nov", "Dec"]

def fullMonths : Fin 12 → String :=
  !["January", "February", "March", "April", "May", "June", "July", "August", "September", "October",
    "November", "December"]

/-- `HH:MM:SS`. -/
def clock (hour : Int) : List Char := padNJoin [hour, t.min.val, t.sec.val] ':'

/-- `utc_minutes_offset`. -/
def utcMinutesOffset : Int := t.gmtoff.tdiv 60

end Tm

/-- What is left of a time within a second, in units of this many nanoseconds. -/
def LogMsg.fraction (msg : LogMsg) (nanoseconds : Int) : Int :=
  (msg.time.tdiv nanoseconds).tmod (1000000000 / nanoseconds)

/-! ## Formatters -/

/-- The classes derived from `flag_formatter`. -/
inductive FlagFormatter where
  | name | level | shortLevel | t | v
  | a | A | b | B | c | C | Y | D | m | d | H | I | M | S | e | f | F | p | r | R | T | z
  | full
  | ch (c : Char)
  | aggregate (str : List Char)

namespace FlagFormatter

/-- `z_formatter::format`. The hours and the minutes carry their own sign. -/
def offset (totalMinutes : Int) : List Char :=
  (if 0 ≤ totalMinutes.tdiv 60 then '+' else '-') ::
    padNJoin [totalMinutes.tdiv 60, totalMinutes.tmod 60] ':'

/-- `full_formatter::format`, with the `SPDLOG_NO_NAME` of `tweakme.h`: the name of the logger is
left out. -/
def fullText (msg : LogMsg) (tm : Tm) : List Char :=
  ['['] ++ shownInt (toUnsigned (tm.year + 1900)) ++ ['-'] ++ pad (tm.mon.val + 1) 2 ++ ['-'] ++
    pad (toUnsigned tm.mday) 2 ++ [' '] ++ tm.clock tm.hour.val ++ ['.'] ++
    pad (toUnsigned (msg.fraction 1000000)) 3 ++ [']', ' '] ++
    ['['] ++ msg.level.toStr.toList ++ [']', ' '] ++ msg.raw

/-- `format` of each class. -/
def text (msg : LogMsg) (tm : Tm) : FlagFormatter → List Char
  | name => msg.loggerName
  | level => msg.level.toStr.toList
  | shortLevel => msg.level.toShortStr.toList
  | t => decimal msg.threadId
  | v => msg.raw
  | a => (Tm.days tm.wday).toList
  | A => (Tm.fullDays tm.wday).toList
  | b => (Tm.months tm.mon).toList
  | B => (Tm.fullMonths tm.mon).toList
  | c => (Tm.days tm.wday).toList ++ [' '] ++ (Tm.months tm.mon).toList ++ [' '] ++ shownInt tm.mday ++
      [' '] ++ tm.clock tm.hour.val ++ [' '] ++ shownInt (tm.year + 1900)
  | C => pad (tm.year.tmod 100) 2
  | Y => shownInt (tm.year + 1900)
  | D => padNJoin [tm.mon.val + 1, tm.mday, tm.year.tmod 100] '/'
  | m => pad (tm.mon.val + 1) 2
  | d => pad tm.mday 2
  | H => pad tm.hour.val 2
  | I => pad tm.to12h 2
  | M => pad tm.min.val 2
  | S => pad tm.sec.val 2
  | e => pad (msg.fraction 1000000) 3
  | f => pad (msg.fraction 1000) 6
  | F => pad (msg.fraction 1) 9
  | p => tm.ampm.toList
  | r => tm.clock tm.to12h ++ [' '] ++ tm.ampm.toList
  | R => padNJoin [tm.hour.val, tm.min.val] ':'
  | T => tm.clock tm.hour.val
  | z => offset tm.utcMinutesOffset
  | full => fullText msg tm
  | ch char => [char]
  | aggregate str => str

end FlagFormatter

/-- `handle_flag`. A flag that is not known appears as it is. -/
def handleFlag : Char → List FlagFormatter
  | 'n' => [.name]
  | 'l' => [.level]
  | 'L' => [.shortLevel]
  | 't' => [.t]
  | 'v' => [.v]
  | 'a' => [.a]
  | 'A' => [.A]
  | 'b' | 'h' => [.b]
  | 'B' => [.B]
  | 'c' => [.c]
  | 'C' => [.C]
  | 'Y' => [.Y]
  | 'D' | 'x' => [.D]
  | 'm' => [.m]
  | 'd' => [.d]
  | 'H' => [.H]
  | 'I' => [.I]
  | 'M' => [.M]
  | 'S' => [.S]
  | 'e' => [.e]
  | 'f' => [.f]
  | 'F' => [.F]
  | 'p' => [.p]
  | 'r' => [.r]
  | 'R' => [.R]
  | 'T' | 'X' => [.T]
  | 'z' => [.z]
  | '+' => [.full]
  | flag => [.ch '%', .ch flag]

/-- The loop of `compile_pattern`, with the other characters found so far. -/
def compileLoop (userChars : Option (List Char)) : List Char → List FlagFormatter
  | '%' :: flag :: rest => userChars.toList.map .aggregate ++ handleFlag flag ++ compileLoop none rest
  | ['%'] => userChars.toList.map .aggregate
  | c :: rest => compileLoop (some (userChars.getD [] ++ [c])) rest
  | [] => userChars.toList.map .aggregate

def compilePattern (pattern : List Char) : List FlagFormatter := compileLoop none pattern

/-- `pattern_formatter::format`, with the end of the line. -/
def formatMsg (localtime : Int → Tm) (formatters : List FlagFormatter) (msg : LogMsg) : List Char :=
  formatters.flatMap (FlagFormatter.text msg (localtime (msg.time.tdiv 1000000000))) ++ ['\n']

/-! ## What a pattern means -/

/-- A flag by itself, and every other character as it is. A `%` at the end is left out. -/
def patternText (flagText : Char → List Char) : List Char → List Char
  | '%' :: flag :: rest => flagText flag ++ patternText flagText rest
  | ['%'] => []
  | c :: rest => c :: patternText flagText rest
  | [] => []

section Meaning

variable {msg : LogMsg} {tm : Tm}

theorem flatMap_aggregate (userChars : Option (List Char)) :
    (userChars.toList.map FlagFormatter.aggregate).flatMap (FlagFormatter.text msg tm) =
      userChars.getD [] := by
  cases userChars with
  | none => rfl
  | some str => simp [FlagFormatter.text]

/-- The characters found so far come first. -/
theorem flatMap_compileLoop (userChars : Option (List Char)) (pattern : List Char) :
    (compileLoop userChars pattern).flatMap (FlagFormatter.text msg tm) = userChars.getD [] ++
      patternText (fun flag => (handleFlag flag).flatMap (FlagFormatter.text msg tm)) pattern := by
  fun_induction compileLoop userChars pattern with
  | case1 userChars flag rest ih =>
      rw [List.flatMap_append, List.flatMap_append, flatMap_aggregate, ih, patternText]
      simp
  | case2 userChars => rw [flatMap_aggregate, patternText, List.append_nil]
  | case3 userChars c rest hflag hend ih =>
      rw [ih, patternText]
      · simp
      · exact hflag
      · exact hend
  | case4 userChars => rw [flatMap_aggregate, patternText, List.append_nil]

/-- Runs of characters are put together; the line is that of the characters one by one. -/
theorem format_eq (localtime : Int → Tm) (pattern : List Char) (msg : LogMsg) :
    formatMsg localtime (compilePattern pattern) msg = patternText (fun flag =>
      (handleFlag flag).flatMap (FlagFormatter.text msg (localtime (msg.time.tdiv 1000000000))))
        pattern ++ ['\n'] := by
  rw [formatMsg, compilePattern, flatMap_compileLoop, Option.getD_none, List.nil_append]

theorem patternText_flag (flagText : Char → List Char) (flag : Char) (rest : List Char) :
    patternText flagText ('%' :: flag :: rest) = flagText flag ++ patternText flagText rest := by
  rw [patternText]

theorem patternText_append {flagText : Char → List Char} {chars rest : List Char} (h : '%' ∉ chars) :
    patternText flagText (chars ++ rest) = chars ++ patternText flagText rest := by
  induction chars with
  | nil => rfl
  | cons c chars ih =>
      have hc : c ≠ '%' := fun heq => h (heq ▸ List.mem_cons_self)
      rw [List.cons_append, patternText, ih fun hmem => h (List.mem_cons_of_mem c hmem), List.cons_append]
      · rintro flag rest rfl
        exact absurd rfl hc
      · rintro rfl
        exact absurd rfl hc

end Meaning

/-! ## The pattern of this program -/

/-- The pattern of a class with this tag: `[%T] <%L> (tag) %v`. -/
def logPattern (tag : List Char) : List Char :=
  ['[', '%', 'T', ']', ' ', '<', '%', 'L', '>', ' ', '('] ++ tag ++ [')', ' ', '%', 'v']

theorem patternText_logPattern (flagText : Char → List Char) {tag : List Char} (htag : '%' ∉ tag) :
    patternText flagText (logPattern tag) = ['['] ++ flagText 'T' ++ [']', ' ', '<'] ++ flagText 'L' ++
      ['>', ' ', '('] ++ tag ++ [')', ' '] ++ flagText 'v' := by
  have hpattern : logPattern tag = ['['] ++ '%' :: 'T' :: ([']', ' ', '<'] ++ '%' :: 'L' ::
      (['>', ' ', '('] ++ (tag ++ ([')', ' '] ++ ['%', 'v'])))) := by
    simp only [logPattern, List.cons_append, List.nil_append]
  have hlast : patternText flagText [] = [] := by rw [patternText]
  rw [hpattern, patternText_append (by decide), patternText_flag, patternText_append (by decide),
    patternText_flag, patternText_append (by decide), patternText_append htag,
    patternText_append (by decide), patternText_flag, hlast]
  simp only [List.append_assoc, List.append_nil]

/-- A line: the time of the day, the level, the tag and the text. -/
theorem format_logPattern (localtime : Int → Tm) {tag : List Char} (msg : LogMsg) (htag : '%' ∉ tag) :
    formatMsg localtime (compilePattern (logPattern tag)) msg =
      ['['] ++ (localtime (msg.time.tdiv 1000000000)).clock (localtime (msg.time.tdiv 1000000000)).hour.val ++
        [']', ' ', '<'] ++ msg.level.toShortStr.toList ++ ['>', ' ', '('] ++ tag ++ [')', ' '] ++ msg.raw ++
          ['\n'] := by
  rw [formatMsg, compilePattern, flatMap_compileLoop, Option.getD_none, List.nil_append,
    patternText_logPattern _ htag]
  simp only [handleFlag, List.flatMap_singleton, FlagFormatter.text]

end Robotd
