import Robotd.Lib.Pieces
import Robotd.Log.Pattern
import Robotd.Log.Stream

/-!
# Reading a log

A line of the log has the time of the day, the level, the tag of a class and the text of a message.
A reader (`readLog`) finds the messages again if and only if no text has a line feed
(`readLog_lines_iff`), and it does so file by file, whatever fails at rotations and whoever opens
the log anew (`always_legible`).
-/

namespace Robotd

open Lib Lib.CLib Lib.Archive

/-- The tag of a class. It has no flags, and a reader sees where it ends. -/
structure Tag where
  chars : List Char
  noFlag : '%' ∉ chars
  noBlank : ' ' ∉ chars
  noLineFeed : '\n' ∉ chars

namespace Tag

/-- The tags that the program has. -/
def daemon : Tag := ⟨['D', 'a', 'e', 'm', 'o', 'n'], by decide, by decide, by decide⟩

def master : Tag := ⟨['M', 'a', 's', 't', 'e', 'r'], by decide, by decide, by decide⟩

def tcpServer : Tag :=
  ⟨['S', 'e', 'r', 'v', 'e', 'r', '(', 'S', 'l', 'a', 'v', 'e', ')'], by decide, by decide, by decide⟩

/-- What the logger of a class with this tag gives to its sink. -/
def line (tag : Tag) (localtime : Int → Tm) (msg : LogMsg) : List Char :=
  formatMsg localtime (compilePattern (logPattern tag.chars)) msg

end Tag

/-- What can be seen of a message in the log. -/
structure Entry where
  hour : Nat
  min : Nat
  sec : Nat
  level : Level
  tag : List Char
  text : List Char
  deriving DecidableEq, Repr

def Tag.entry (tag : Tag) (localtime : Int → Tm) (msg : LogMsg) : Entry :=
  let tm := localtime (msg.time.tdiv 1000000000)
  ⟨tm.hour.val, tm.min.val, tm.sec.val, msg.level, tag.chars, msg.raw⟩

/-! ## The reader -/

/-- A number of two digits. -/
def readTwo : List Char → Option (Nat × List Char)
  | c :: d :: s =>
      if c.isDigit && d.isDigit then some ((c.toNat - 48) * 10 + (d.toNat - 48), s) else none
  | _ => none

def readLevel : List Char → Option (Level × List Char)
  | c :: s => [Level.trace, .debug, .info, .notice, .warn, .err, .critical, .alert, .emerg, .off].find?
      (fun level => level.toShortStr.toList = [c]) |>.map (·, s)
  | [] => none

/-- A line without its end. -/
def readLine (s : List Char) : Option Entry := do
  let s ← s.dropPrefix? ['[']
  let (hour, s) ← readTwo s
  let s ← s.dropPrefix? [':']
  let (min, s) ← readTwo s
  let s ← s.dropPrefix? [':']
  let (sec, s) ← readTwo s
  let s ← s.dropPrefix? [']', ' ', '<']
  let (level, s) ← readLevel s
  let s ← s.dropPrefix? ['>', ' ', '(']
  let (tag, text) ← cut [')', ' '] s
  return ⟨hour, min, sec, level, tag, text⟩

/-- Each line ends with a line feed. -/
def readLog (s : List Char) : Option (List Entry) :=
  if (s.splitOn '\n').getLast? = some [] then (s.splitOn '\n').dropLast.mapM readLine else none

section Reader

variable {localtime : Int → Tm} {tag : Tag} {msg : LogMsg} {s text : List Char} {found : List Entry}

/-- Below a hundred there are two digits. -/
theorem pad_two {n : Nat} (hn : n < 100) : pad n 2 = [(n / 10).digitChar, (n % 10).digitChar] := by
  have hall : ∀ k : Fin 100, pad k.val 2 = [(k.val / 10).digitChar, (k.val % 10).digitChar] := by
    decide +kernel
  exact hall ⟨n, hn⟩

theorem digitChar_isDigit {n : Nat} (hn : n < 10) :
    n.digitChar.isDigit = true ∧ n.digitChar.toNat - 48 = n := by
  have hall : ∀ k : Fin 10, k.val.digitChar.isDigit = true ∧ k.val.digitChar.toNat - 48 = k.val := by
    decide
  exact hall ⟨n, hn⟩

theorem readTwo_pad {n : Nat} (hn : n < 100) (rest : List Char) :
    readTwo (pad n 2 ++ rest) = some (n, rest) := by
  obtain ⟨htens, htensValue⟩ := digitChar_isDigit (show n / 10 < 10 by omega)
  obtain ⟨hunits, hunitsValue⟩ := digitChar_isDigit (Nat.mod_lt n (show 0 < 10 by decide))
  rw [pad_two hn, List.cons_append, List.singleton_append, readTwo, htens, hunits, htensValue, hunitsValue,
    Bool.and_self, if_pos rfl, Nat.div_add_mod']

theorem readLevel_toShortStr (level : Level) (rest : List Char) :
    readLevel (level.toShortStr.toList ++ rest) = some (level, rest) := by
  cases level <;> rfl

theorem dropPrefix?_append (front rest : List Char) : (front ++ rest).dropPrefix? front = some rest :=
  List.dropPrefix?_append_of_beq rest (BEq.refl front)

/-- The line of a message, without its end. -/
def Tag.front (tag : Tag) (localtime : Int → Tm) (msg : LogMsg) : List Char :=
  let tm := localtime (msg.time.tdiv 1000000000)
  ['['] ++ tm.clock tm.hour.val ++ [']', ' ', '<'] ++ msg.level.toShortStr.toList ++ ['>', ' ', '('] ++
    tag.chars ++ [')', ' '] ++ msg.raw

theorem Tag.line_eq : tag.line localtime msg = tag.front localtime msg ++ ['\n'] :=
  format_logPattern localtime msg tag.noFlag

theorem Tm.clock_eq (tm : Tm) : tm.clock tm.hour.val =
    pad tm.hour.val 2 ++ ([':'] ++ (pad tm.min.val 2 ++ ([':'] ++ pad tm.sec.val 2))) := by
  simp [Tm.clock, padNJoin, List.intercalate]

/-- Every text is found again. -/
theorem readLine_front : readLine (tag.front localtime msg) = some (tag.entry localtime msg) := by
  have hhour := (localtime (msg.time.tdiv 1000000000)).hour.isLt.trans (show 24 < 100 by decide)
  have hmin := (localtime (msg.time.tdiv 1000000000)).min.isLt.trans (show 60 < 100 by decide)
  have hsec := (localtime (msg.time.tdiv 1000000000)).sec.isLt.trans (show 61 < 100 by decide)
  have htag : cut [')', ' '] (tag.chars ++ ([')', ' '] ++ msg.raw)) = some (tag.chars, msg.raw) := by
    have hcut := cut_append_last (s := [')']) (by decide) tag.noBlank msg.raw
    rwa [List.append_assoc] at hcut
  rw [readLine, Tag.front, Tm.clock_eq]
  simp only [List.append_assoc, dropPrefix?_append, Option.bind_eq_bind, Option.bind_some,
    readTwo_pad hhour, readTwo_pad hmin, readTwo_pad hsec, readLevel_toShortStr, htag]
  rfl

theorem length_splitOn (s : List Char) : (s.splitOn '\n').length = s.count '\n' + 1 := by
  induction s with
  | nil => rfl
  | cons c s ih =>
      rw [List.splitOn_cons_eq_if_modifyHead, List.count_cons]
      split_ifs with hc
      · rw [List.length_cons, ih]
      · rw [List.length_modifyHead, ih, Nat.add_zero]

theorem length_of_mapM {lines : List (List Char)} (h : lines.mapM readLine = some found) :
    found.length = lines.length := by
  induction lines generalizing found with
  | nil =>
      obtain rfl : [] = found := Option.some.inj h
      rfl
  | cons line lines ih =>
      rw [List.mapM_cons] at h
      obtain ⟨entry, -, hrest⟩ := Option.bind_eq_some_iff.mp h
      obtain ⟨rest, hmap, hcons⟩ := Option.bind_eq_some_iff.mp hrest
      obtain rfl : entry :: rest = found := Option.some.inj hcons
      rw [List.length_cons, List.length_cons, ih hmap]

theorem length_readLog (h : readLog s = some found) : found.length = s.count '\n' := by
  rw [readLog] at h
  split_ifs at h
  rw [length_of_mapM h, List.length_dropLast, length_splitOn, Nat.add_sub_cancel]

theorem noLineFeed_pad {n : Nat} (hn : n < 100) : '\n' ∉ pad n 2 := by
  have hall : ∀ k : Fin 100, '\n' ∉ pad k.val 2 := by decide +kernel
  exact hall ⟨n, hn⟩

/-- Only the text of the message may have line feeds. -/
theorem count_front : (tag.front localtime msg).count '\n' = msg.raw.count '\n' := by
  have hhour := (localtime (msg.time.tdiv 1000000000)).hour.isLt.trans (show 24 < 100 by decide)
  have hmin := (localtime (msg.time.tdiv 1000000000)).min.isLt.trans (show 60 < 100 by decide)
  have hsec := (localtime (msg.time.tdiv 1000000000)).sec.isLt.trans (show 61 < 100 by decide)
  have hlevel : '\n' ∉ msg.level.toShortStr.toList := by cases msg.level <;> decide
  simp only [Tag.front, Tm.clock_eq, List.count_append, List.count_eq_zero_of_not_mem (noLineFeed_pad hhour),
    List.count_eq_zero_of_not_mem (noLineFeed_pad hmin), List.count_eq_zero_of_not_mem (noLineFeed_pad hsec),
    List.count_eq_zero_of_not_mem hlevel, List.count_eq_zero_of_not_mem tag.noLineFeed]
  simp

/-- The lines of messages that were logged one after the other. -/
def logLines (localtime : Int → Tm) (messages : List (Tag × LogMsg)) : List Char :=
  messages.flatMap fun message => message.1.line localtime message.2

def entries (localtime : Int → Tm) (messages : List (Tag × LogMsg)) : List Entry :=
  messages.map fun message => message.1.entry localtime message.2

variable {messages : List (Tag × LogMsg)}

theorem count_logLines : (logLines localtime messages).count '\n' =
    messages.length + (messages.flatMap fun message => message.2.raw).count '\n' := by
  induction messages with
  | nil => rfl
  | cons message messages ih =>
      rw [logLines] at ih ⊢
      rw [List.flatMap_cons, List.count_append, ih, Tag.line_eq, List.count_append, count_front,
        List.flatMap_cons, List.count_append, List.count_singleton_self, List.length_cons]
      omega

theorem splitOn_logLines (hsingle : ∀ message ∈ messages, '\n' ∉ message.2.raw) :
    (logLines localtime messages).splitOn '\n' =
      (messages.map fun message => message.1.front localtime message.2) ++ [[]] := by
  induction messages with
  | nil => rfl
  | cons message messages ih =>
      have hfront : '\n' ∉ message.1.front localtime message.2 := by
        rw [← List.count_eq_zero, count_front, List.count_eq_zero]
        exact hsingle message List.mem_cons_self
      rw [logLines] at ih ⊢
      rw [List.flatMap_cons, Tag.line_eq, List.append_assoc, List.singleton_append,
        List.splitOn_append_cons_self_of_not_mem hfront,
        ih fun other hmem => hsingle other (List.mem_cons_of_mem message hmem)]
      rfl

theorem readLog_logLines (hsingle : ∀ message ∈ messages, '\n' ∉ message.2.raw) :
    readLog (logLines localtime messages) = some (entries localtime messages) := by
  rw [readLog, splitOn_logLines hsingle, if_pos (by simp), List.dropLast_concat, entries]
  clear hsingle
  induction messages with
  | nil => rfl
  | cons message messages ih =>
      rw [List.map_cons, List.mapM_cons, readLine_front, ih]
      rfl

/-- The messages are found again exactly when none of them has a line feed. -/
theorem readLog_lines_iff (localtime : Int → Tm) (messages : List (Tag × LogMsg)) :
    readLog (logLines localtime messages) = some (entries localtime messages) ↔
      ∀ message ∈ messages, '\n' ∉ message.2.raw := by
  refine ⟨fun h message hmem hfeed => ?_, readLog_logLines⟩
  have hlength := length_readLog h
  rw [count_logLines, entries, List.length_map] at hlength
  have hnone : '\n' ∉ messages.flatMap fun message => message.2.raw :=
    List.count_eq_zero.mp (by omega)
  exact hnone (List.mem_flatMap.mpr ⟨message, hmem, hfeed⟩)

end Reader

/-! ## Log calls -/

/-- `_log_if_enabled` and what `~line_logger` then does: the line for the sink, if the level is
enabled. The text of a call without arguments is not a format. -/
def logIfEnabled (level : Level) (tag : Tag) (localtime : Int → Tm) (msg : LogMsg) (format : List Char)
    (args : List Fmt.Arg) : Except String (Option (List Char)) :=
  if msg.level.rank < level.rank then .ok none
  else if args = [] then .ok (some (tag.line localtime { msg with raw := format }))
  else match Fmt.format args format with
    | (raw, none) => .ok (some (tag.line localtime { msg with raw := raw }))
    | (_, some message) => .error ("formatting error while processing format string '" ++
        String.ofList format ++ "': " ++ message)

/-- What a call has logged is found as one entry exactly when neither its format nor any argument
that a field takes has a line feed. -/
theorem one_entry_iff {level : Level} {tag : Tag} {localtime : Int → Tm} {msg : LogMsg}
    {pieces : List Fmt.Piece} {args : List Fmt.Arg} {line : List Char} (hargs : args.length ≤ 429496729)
    (hline : logIfEnabled level tag localtime msg (Fmt.unparse pieces) args = .ok (some line)) :
    (∃ entry, readLog line = some [entry]) ↔
      .char '\n' ∉ pieces ∧ ∀ arg ∈ Fmt.used pieces args, '\n' ∉ Fmt.plain arg := by
  obtain ⟨raw, rfl, hmem⟩ : ∃ raw, line = tag.line localtime { msg with raw := raw } ∧
      ('\n' ∈ raw ↔ .char '\n' ∈ pieces ∨ ∃ arg ∈ Fmt.used pieces args, '\n' ∈ Fmt.plain arg) := by
    rw [logIfEnabled] at hline
    split_ifs at hline with hlevel hnone
    · cases hline
    · obtain rfl := Option.some.inj (Except.ok.inj hline)
      subst hnone
      exact ⟨_, rfl, Fmt.mem_unparse_iff⟩
    · split at hline
      · rename_i raw hformat
        obtain rfl := Option.some.inj (Except.ok.inj hline)
        exact ⟨raw, rfl, Fmt.mem_fill ((Fmt.format_unparse_iff hargs).mp hformat)⟩
      · cases hline
  have hsingle : (∃ entry, readLog (tag.line localtime { msg with raw := raw }) = some [entry]) ↔
      '\n' ∉ raw := by
    constructor
    · rintro ⟨entry, hread⟩
      have hlength := length_readLog hread
      rw [Tag.line_eq, List.count_append, count_front, List.count_singleton_self, List.length_singleton]
        at hlength
      exact List.count_eq_zero.mp (Nat.succ.inj hlength.symm)
    · intro hraw
      have hread : readLog (logLines localtime [(tag, { msg with raw := raw })]) = some (entries _ _) :=
        readLog_logLines (by simpa using hraw)
      rw [logLines, List.flatMap_singleton] at hread
      exact ⟨_, hread⟩
  rw [hsingle, hmem, not_or]
  exact and_congr_right fun _ => by simp

theorem line_feed_in_argument : ¬ ∃ entry, readLog (Tag.daemon.line (fun _ => ⟨0, 0, 12, 1, 0, 126, 4, 0⟩)
    ⟨[], .info, 0, 1, ['x', '\n']⟩) = some [entry] := by
  have hlogged : logIfEnabled .info .daemon (fun _ => ⟨0, 0, 12, 1, 0, 126, 4, 0⟩) ⟨[], .info, 0, 1, []⟩
      (Fmt.unparse [.char 'x', .next]) [.string ['\n']] =
        .ok (some (Tag.daemon.line (fun _ => ⟨0, 0, 12, 1, 0, 126, 4, 0⟩) ⟨[], .info, 0, 1, ['x', '\n']⟩)) := by
    decide +kernel
  have hargs : ¬ ∀ arg ∈ Fmt.used [.char 'x', .next] [.string ['\n']], '\n' ∉ Fmt.plain arg := by decide
  exact fun hread => hargs ((one_entry_iff (by simp) hlogged).mp hread).2

/-! ## Runs -/

/-- What is logged is the line of a message without line feeds, and is written as a whole. -/
def LogEvent.IsLine (localtime : Int → Tm) : LogEvent → Prop
  | .log text faults => faults.writes = none ∧
      ∃ (tag : Tag) (msg : LogMsg), '\n' ∉ msg.raw ∧ text = tag.line localtime msg
  | _ => True

/-- The text has the lines of messages without line feeds. -/
def Legible (localtime : Int → Tm) (text : List Char) : Prop :=
  ∃ messages : List (Tag × LogMsg), (∀ message ∈ messages, '\n' ∉ message.2.raw) ∧
    text = logLines localtime messages

/-- The messages that are found, if any are. -/
def found (text : List Char) : List Entry := (readLog text).getD []

section Runs

variable {localtime : Int → Tm} {text x y : List Char} {m : Nat} {s s' : Logging} {e : LogEvent}

theorem Legible.readLog (h : Legible localtime text) : Robotd.readLog text = some (found text) := by
  obtain ⟨messages, hsingle, rfl⟩ := h
  rw [found, readLog_logLines hsingle, Option.getD_some]

theorem Legible.nil : Legible localtime [] := ⟨[], by simp, rfl⟩

theorem Legible.append (hx : Legible localtime x) (hy : Legible localtime y) :
    Legible localtime (x ++ y) := by
  obtain ⟨before, hbefore, rfl⟩ := hx
  obtain ⟨after, hafter, rfl⟩ := hy
  refine ⟨before ++ after, fun message hmem => ?_, List.flatMap_append.symm⟩
  exact (List.mem_append.mp hmem).elim (hbefore message) (hafter message)

theorem Legible.flatten {texts : List (List Char)} (h : ∀ text ∈ texts, Legible localtime text) :
    Legible localtime texts.flatten := by
  induction texts with
  | nil => exact .nil
  | cons text texts ih =>
      exact (h text List.mem_cons_self).append (ih fun other hmem => h other (List.mem_cons_of_mem text hmem))

theorem found_append (hx : Legible localtime x) (hy : Legible localtime y) :
    found (x ++ y) = found x ++ found y := by
  obtain ⟨before, hbefore, rfl⟩ := hx
  obtain ⟨after, hafter, rfl⟩ := hy
  have hboth : ∀ message ∈ before ++ after, '\n' ∉ message.2.raw := fun message hmem =>
    (List.mem_append.mp hmem).elim (hbefore message) (hafter message)
  rw [found, found, found, readLog_logLines hbefore, readLog_logLines hafter,
    show logLines localtime before ++ logLines localtime after = logLines localtime (before ++ after) from
      List.flatMap_append.symm, readLog_logLines hboth]
  exact List.map_append

/-- A line that is logged is written as a whole, or nothing of it. -/
theorem LogEvent.IsLine.adds (he : e.IsLine localtime) (hstep : s.step m e = some s') :
    s'.store.trace = s.store.trace ++ e.texts ∨ s'.sink = none ∧ s'.store.trace = s.store.trace := by
  cases e with
  | construct maxSize faults | ends =>
      rcases Logging.adds_of_step hstep with hwhole | ⟨-, text, htext, -⟩
      · exact .inl hwhole
      · cases htext
  | log line faults =>
      obtain ⟨sink, -, hstore, hsink⟩ := Logging.sink_of_log hstep
      have hwritten : faults.written line = line := by rw [Faults.written, he.1, Option.elim_none]
      rw [hstore, hsink]
      rcases RotatingSink.trace_log faults line sink s.store with ⟨htrace, -⟩ | ⟨htrace, hnone⟩
      · rw [hwritten] at htrace
        exact .inl htrace
      · exact .inr ⟨hnone, htrace⟩

theorem LogEvent.IsLine.legible (he : e.IsLine localtime) (htext : text ∈ e.texts) :
    Legible localtime text := by
  cases e with
  | log line faults =>
      obtain ⟨-, tag, msg, hsingle, rfl⟩ := he
      obtain rfl := List.mem_singleton.mp htext
      refine ⟨[(tag, msg)], by simpa using hsingle, ?_⟩
      rw [logLines, List.flatMap_singleton]
  | construct maxSize faults | ends => cases htext

/-- Lines are written one after the other. -/
theorem legible_step (h : ∀ text ∈ s.store.trace, Legible localtime text) (he : e.IsLine localtime)
    (hstep : s.step m e = some s') : ∀ text ∈ s'.store.trace, Legible localtime text := by
  intro text htext
  rcases he.adds hstep with htrace | ⟨-, htrace⟩
  · rw [htrace] at htext
    exact (List.mem_append.mp htext).elim (h text) he.legible
  · rw [htrace] at htext
    exact h text htext

/-- The entries of the files together are those of all that is kept. -/
theorem found_kept {texts : Nat → List (List Char)} (h : ∀ i ≤ m, ∀ text ∈ texts i, Legible localtime text) :
    Legible localtime (kept m texts).flatten ∧
      found (kept m texts).flatten = kept m fun i => found (texts i).flatten := by
  induction m with
  | zero => exact ⟨.flatten (h 0 le_rfl), rfl⟩
  | succ m ih =>
      obtain ⟨hlegible, hfound⟩ := ih fun i hi => h i (hi.trans (Nat.le_succ m))
      have hlast : Legible localtime (texts (m + 1)).flatten := .flatten (h (m + 1) le_rfl)
      rw [kept, kept, List.flatten_append]
      exact ⟨hlast.append hlegible, by rw [found_append hlast hlegible, hfound]⟩

end Runs

/-- The lines are written as they are logged, but for the last one of a sink that fails. Each file
can be read by itself, and from the oldest to `LogName.log` they have the last of the messages that
have been written, in order. -/
theorem always_legible (localtime : Int → Tm) (m : Nat) (existing : Nat → Option (List Char))
    (events : List LogEvent) (hexisting : ∀ i, ∀ text ∈ existing i, Legible localtime text)
    (hevents : ∀ e ∈ events, e.IsLine localtime) :
    Machine.Along (Logging.step m) (fun s e => ∀ s', s.step m e = some s' →
      s'.store.trace = s.store.trace ++ e.texts ∨ s'.sink = none ∧ s'.store.trace = s.store.trace)
      (Logging.start m existing) events ∧
    Machine.Always (Logging.step m) (fun s => ∃ (files : Nat → List Entry) (dropped : List Entry),
      (∀ i ≤ m, readLog (s.store.bytes i) = some (files i)) ∧
      readLog s.store.trace.flatten = some (dropped ++ kept m files)) (Logging.start m existing) events := by
  have halong : Machine.Along (Logging.step m) (fun _ e => e.IsLine localtime) (Logging.start m existing)
      events := Machine.along_of_forall hevents
  have hstart : ∀ text ∈ (Logging.start m existing).store.trace, Legible localtime text := by
    intro text htext
    obtain ⟨i, -, hmem⟩ := mem_kept.mp htext
    exact hexisting i text (Option.mem_toList.mp hmem)
  have hboth : Machine.Always (Logging.step m)
      (fun s => s.Kept m ∧ ∀ text ∈ s.store.trace, Legible localtime text)
      (Logging.start m existing) events :=
    Machine.Along.always
      (fun s e s' h he hstep => ⟨h.1.step hstep, legible_step h.2 he hstep⟩)
      ⟨Logging.kept_start m existing, hstart⟩ halong
  refine ⟨Machine.along_of_mem fun e he _ _ => (hevents e he).adds, hboth.mono fun s h => ?_⟩
  obtain ⟨⟨⟨texts, dropped, harchive, htrace⟩, -⟩, hlegible⟩ := h
  rw [htrace] at hlegible
  have htexts : ∀ i ≤ m, ∀ text ∈ texts i, Legible localtime text := fun i hi text hmem =>
    hlegible text (List.mem_append_right dropped (mem_kept.mpr ⟨i, hi, hmem⟩))
  have hdropped : Legible localtime dropped.flatten :=
    .flatten fun text hmem => hlegible text (List.mem_append_left _ hmem)
  obtain ⟨hkept, hfound⟩ := found_kept htexts
  refine ⟨fun i => found (texts i).flatten, found dropped.flatten, fun i hi => ?_, ?_⟩
  · rw [bytes_of_archive harchive hi]
    exact (Legible.flatten (htexts i hi)).readLog
  · rw [htrace, List.flatten_append, (hdropped.append hkept).readLog, found_append hdropped hkept, hfound]

theorem one_message_legible : Machine.Along (Logging.step 1) (fun s e => ∀ s', s.step 1 e = some s' →
      s'.store.trace = s.store.trace ++ e.texts ∨ s'.sink = none ∧ s'.store.trace = s.store.trace)
      (Logging.start 1 fun _ => none)
      [.construct 100 .none, .log (Tag.master.line (fun _ => ⟨0, 0, 12, 1, 0, 126, 4, 0⟩)
        ⟨[], .info, 0, 1, ['R', 'u', 'n']⟩) .none, .ends] ∧
    Machine.Always (Logging.step 1)
    (fun s => ∃ (files : Nat → List Entry) (dropped : List Entry),
      (∀ i ≤ 1, readLog (s.store.bytes i) = some (files i)) ∧
      readLog s.store.trace.flatten = some (dropped ++ kept 1 files))
    (Logging.start 1 fun _ => none)
    [.construct 100 .none, .log (Tag.master.line (fun _ => ⟨0, 0, 12, 1, 0, 126, 4, 0⟩)
      ⟨[], .info, 0, 1, ['R', 'u', 'n']⟩) .none, .ends] := by
  refine always_legible (fun _ => ⟨0, 0, 12, 1, 0, 126, 4, 0⟩) 1 _ _ (by simp) ?_
  simp only [List.forall_mem_cons, LogEvent.IsLine, List.not_mem_nil, false_implies, implies_true, and_true,
    true_and]
  exact ⟨rfl, .master, _, by decide, rfl⟩

end Robotd
