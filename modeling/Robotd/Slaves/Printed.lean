import Robotd.Slaves.AsyncClient

/-!
# What the client prints

The status line and the headers are settled once their ends have come, so it does not matter what
else is in the buffer; but for a status line of one word, after which the client reads on into
whatever has come of the next line.
-/

namespace Robotd.Slaves.Client

open Lib Lib.CLib

/-! ## The status line -/

section StatusLine

variable {text line : List Char}

/-- What is left after a word begins with white space. -/
theorem exists_space_of_extractWord (h : (extractWord text).2 ≠ []) :
    ∃ c ∈ text.dropWhile isSpace, (!isSpace c) = false := by
  by_contra hnone
  push Not at hnone
  refine h (List.dropWhile_eq_nil_iff.mpr fun c hc => ?_)
  simpa using hnone c hc

theorem extractWord_append_of_ne_nil (h : (extractWord text).2 ≠ []) (y : List Char) :
    extractWord (text ++ y) = ((extractWord text).1, (extractWord text).2 ++ y) := by
  have hspace := exists_space_of_extractWord h
  have hword : ∃ c ∈ text, isSpace c = false := by
    by_contra hall
    push Not at hall
    have hnil : text.dropWhile isSpace = [] :=
      List.dropWhile_eq_nil_iff.mpr fun c hc => by simpa using hall c hc
    obtain ⟨c, hc, -⟩ := hspace
    rw [hnil] at hc
    cases hc
  rw [extractWord, dropWhile_append_of_mem hword, takeWhile_append_of_mem hspace,
    dropWhile_append_of_mem hspace, extractWord]

theorem sign_append (h : text ≠ []) (y : List Char) :
    sign (text ++ y) = ((sign text).1, (sign text).2 ++ y) := by
  obtain ⟨c, tail, rfl⟩ := List.exists_cons_of_ne_nil h
  rw [List.cons_append, sign.eq_def, sign.eq_def]
  split
  · rename_i heq
    obtain ⟨rfl, rfl⟩ := List.cons.inj heq
    rfl
  · rename_i heq
    obtain ⟨rfl, rfl⟩ := List.cons.inj heq
    rfl
  · rename_i hminus hplus
    split
    · rename_i heq
      obtain ⟨rfl, rfl⟩ := List.cons.inj heq
      exact absurd rfl (hminus _)
    · rename_i heq
      obtain ⟨rfl, rfl⟩ := List.cons.inj heq
      exact absurd rfl (hplus _)
    · rfl

/-- A number is settled when something follows it. -/
theorem settled_extractUnsigned (hword : ∃ c ∈ text, isSpace c = false)
    (hend : ∃ c ∈ (sign (text.dropWhile isSpace)).2, c.isDigit = false) :
    Settled extractUnsigned text := by
  intro y
  have hne : text.dropWhile isSpace ≠ [] := by
    intro hnil
    obtain ⟨c, hc, hspace⟩ := hword
    rw [List.dropWhile_eq_nil_iff.mp hnil c hc] at hspace
    cases hspace
  simp only [extractUnsigned, dropWhile_append_of_mem hword, sign_append hne,
    takeWhile_append_of_mem hend, dropWhile_append_of_mem hend]
  split <;> rfl

theorem settled_getline (h : '\n' ∈ text) : Settled getline text := by
  intro y
  obtain ⟨record, rest, rfl, hrecord⟩ := List.eq_append_cons_of_mem h
  rw [List.append_assoc, List.cons_append, getline_append hrecord, getline_append hrecord,
    Option.map_some, leaving]

/-- What is read after the code. -/
def readMessage (httpVersion : List Char) (statusCode : Nat) (text : List Char) :
    Option (StatusLine × List Char) :=
  (getline text).bind fun message =>
    if httpVersion.take 5 = "HTTP/".toList then
      some (⟨httpVersion, statusCode, message.1⟩, message.2)
    else
      none

theorem settled_readMessage {httpVersion : List Char} {n : Nat} (h : '\n' ∈ text) :
    Settled (readMessage httpVersion n) text := by
  intro y
  rw [readMessage, readMessage, settled_getline h]
  cases getline text with
  | none => rfl
  | some message =>
      rw [Option.map_some, Option.bind_some, Option.bind_some]
      split <;> rfl

theorem readStatusLine_eq (text : List Char) : readStatusLine text =
    (extractUnsigned (extractWord text).2).bind fun code =>
      readMessage (extractWord text).1 code.1 code.2 := rfl

/-- Where there is a number, what is left is what comes after its digits. -/
theorem extractUnsigned_some {n : Nat} {rest : List Char} (h : extractUnsigned text = some (n, rest)) :
    (∃ c ∈ text, isSpace c = false) ∧
      (sign (text.dropWhile isSpace)).2.dropWhile Char.isDigit = rest := by
  rw [extractUnsigned] at h
  dsimp only at h
  split at h
  · cases h
  · rename_i hno
    rw [not_or, List.isEmpty_iff] at hno
    cases h
    refine ⟨?_, rfl⟩
    by_contra hall
    push Not at hall
    have hnil : text.dropWhile isSpace = [] :=
      List.dropWhile_eq_nil_iff.mpr fun c hc => by simpa using hall c hc
    rw [hnil] at hno
    exact hno.1 rfl

/-- What is left after the number still has the end of the line. -/
theorem mem_of_extractUnsigned {n : Nat} {rest : List Char} (h : extractUnsigned text = some (n, rest))
    (hmem : '\n' ∈ (sign (text.dropWhile isSpace)).2) : '\n' ∈ rest := by
  rw [← (extractUnsigned_some h).2]
  rw [← List.takeWhile_append_dropWhile (p := Char.isDigit)
    (l := (sign (text.dropWhile isSpace)).2)] at hmem
  refine (List.mem_append.mp hmem).resolve_left fun hdigit => ?_
  exact absurd (List.mem_takeWhile_imp hdigit) (by decide)

/-- A status line of two words or more is settled by its end. -/
theorem settled_readStatusLine (h : TwoWords line) : Settled readStatusLine (line ++ crlf) := by
  obtain ⟨c, hc, hspace⟩ := h
  have hne : (extractWord line).2 ≠ [] := List.ne_nil_of_mem hc
  have hkept : (extractWord line).2.dropWhile isSpace ≠ [] := by
    intro hnil
    rw [List.dropWhile_eq_nil_iff.mp hnil c hc] at hspace
    cases hspace
  -- the end of the line stands after the sign of the number
  have hleft : (sign (((extractWord line).2 ++ crlf).dropWhile isSpace)).2 =
      (sign ((extractWord line).2.dropWhile isSpace)).2 ++ crlf := by
    rw [dropWhile_append_of_mem ⟨c, hc, hspace⟩, sign_append hkept]
  have hcode : Settled extractUnsigned ((extractWord line).2 ++ crlf) := by
    refine settled_extractUnsigned ⟨c, List.mem_append_left _ hc, hspace⟩ ⟨'\r', ?_, by decide⟩
    rw [hleft]
    exact List.mem_append_right _ (by simp [crlf])
  have hrest : Settled (fun text => (extractUnsigned text).bind fun code =>
      readMessage (extractWord line).1 code.1 code.2) ((extractWord line).2 ++ crlf) := by
    refine hcode.bind fun n rest hn => settled_readMessage (mem_of_extractUnsigned hn ?_)
    rw [hleft]
    exact List.mem_append_right _ (by simp [crlf])
  intro y
  rw [readStatusLine_eq, readStatusLine_eq, extractWord_append_of_ne_nil hne crlf, List.append_assoc,
    extractWord_append_of_ne_nil hne (crlf ++ y), ← List.append_assoc]
  exact hrest y

/-- A status line that is accepted stays accepted. -/
theorem isSome_readStatusLine_append (h : (readStatusLine text).isSome = true) (y : List Char) :
    (readStatusLine (text ++ y)).isSome = true := by
  obtain ⟨⟨read, rest⟩, h⟩ := Option.isSome_iff_exists.mp h
  rw [readStatusLine_eq] at h
  obtain ⟨⟨n, left⟩, hcode, h⟩ := Option.bind_eq_some_iff.mp h
  obtain ⟨⟨message, after⟩, hmessage, h⟩ := Option.bind_eq_some_iff.mp h
  have hleft : left ≠ [] := by
    rintro rfl
    cases hmessage
  have hversion : (extractWord text).1.take 5 = "HTTP/".toList := by
    by_contra hno
    rw [if_neg hno] at h
    cases h
  -- something follows the number
  obtain ⟨hword, hdrop⟩ := extractUnsigned_some hcode
  have hend : ∃ c ∈ (sign ((extractWord text).2.dropWhile isSpace)).2, c.isDigit = false := by
    by_contra hall
    push Not at hall
    rw [← hdrop] at hleft
    exact hleft (List.dropWhile_eq_nil_iff.mpr fun c hc => by simpa using hall c hc)
  have hne : (extractWord text).2 ≠ [] := by
    obtain ⟨c, hc, -⟩ := hword
    exact List.ne_nil_of_mem hc
  rw [readStatusLine_eq, extractWord_append_of_ne_nil hne y,
    (settled_extractUnsigned hword hend).some_append hcode y, Option.bind_some, readMessage, getline,
    if_neg (by simp [hleft]), Option.bind_some, if_pos hversion, Option.isSome_some]

end StatusLine

/-! ## Pieces -/

/-- The status line is read in the same way whatever else has come with it. -/
def Steady (sent : List Char) : Prop :=
  ∀ x y, sent = x ++ y → crlf <:+: x →
    readStatusLine sent = (readStatusLine x).map (leaving y)

theorem steady_of_lines {sent : List Char} (h : ∀ line rest, cut crlf sent = some (line, rest) →
    TwoWords line ∨ readStatusLine sent = none) : Steady sent := by
  rintro x y rfl hx
  obtain ⟨⟨line, rest⟩, hcut⟩ := Option.isSome_iff_exists.mp ((isSome_cut_iff (by simp [crlf])).mpr hx)
  rcases h line (rest ++ y) ((settled_cut (by simp [crlf]) hx).some_append hcut y) with htwo | hnone
  · rw [eq_append_of_cut hcut]
    exact (settled_readStatusLine htwo).append rest y
  · cases hread : readStatusLine x with
    | none => exact hnone
    | some taken =>
        have hsome := isSome_readStatusLine_append (by rw [hread, Option.isSome_some]) y
        rw [hnone] at hsome
        cases hsome

/-- What the client has of what is sent, by the operation that is pending. -/
def Has (sent : List Char) (s : Client) : Option Operation → Prop
  | some .resolve | some .connect | some .writeRequest | some .readStatusLine =>
      s.response = [] ∧ s.arriving = sent ∧ s.cout.text = []
  | some .readHeaders => s.cout.text = [] ∧ crlf <:+: sent ∧
      ∃ line, readStatusLine sent = some (line, s.response ++ s.arriving) ∧ line.statusCode = 200
  | some .readContent => s.response = [] ∧ transcript sent = s.cout.text ++ s.arriving
  | none => s.cout.text = transcript sent

/-- Part of the reply is printed, and then a message. -/
def CutShort (sent text : List Char) : Prop :=
  ∃ printed shown, printed <+: transcript sent ∧ text = printed ++ errorLine shown

/-- The step keeps what the client has, or something has failed. -/
def Keeps (sent : List Char) (s : Client) (c : Completion) (s' : Client) : Prop :=
  s'.cout.good = true ∧ (Has sent s' s'.pending ∨
    ¬ s.Orderly c ∧ s'.pending = none ∧ CutShort sent s'.cout.text)

variable {sent : List Char} {s s' : Client} {bytes : Nat} {error : Option Failure}

theorem print_eq (hgood : s.cout.good = true) (text : List Char) :
    s.print text = { s with cout := ⟨s.cout.text ++ text, true⟩ } := by
  rw [print, Ostream.put, if_pos hgood, hgood]

theorem printResponse_eq (hgood : s.cout.good = true) (hresponse : s.response ≠ []) :
    s.printResponse = { s with cout := ⟨s.cout.text ++ s.response, true⟩, response := [] } := by
  rw [printResponse, if_pos hgood, if_neg hresponse, print_eq hgood]

/-- A failure that is no end of the file is said after what has been printed. -/
theorem keeps_failed {c : Completion} {t : Client} {shown : List Char} (hcout : t.cout = s.cout)
    (hidle : t.pending = none) (hgood : s.cout.good = true)
    (hprinted : s.cout.text <+: transcript sent) (hnot : ¬ s.Orderly c) :
    Keeps sent s c (t.print (errorLine shown)) := by
  rw [← hcout] at hgood hprinted
  rw [print_eq hgood]
  exact ⟨rfl, .inr ⟨hnot, hidle, t.cout.text, shown, hprinted, rfl⟩⟩

/-- The operations before the first read. -/
theorem keeps_early {op : Operation} (hop : op = .resolve ∨ op = .connect ∨ op = .writeRequest)
    (hpending : s.pending = some op) (hgood : s.cout.good = true) (hhas : Has sent s (some op)) :
    Keeps sent s ⟨error, bytes⟩ (({ s with pending := none }.transfer bytes op).handle error op) := by
  have hnot : ∀ e, ¬ s.Orderly ⟨some e, bytes⟩ := by
    rintro e ⟨-, hreads⟩
    rw [hpending] at hreads
    rcases hop with rfl | rfl | rfl <;> simp at hreads
  have hnothing : s.response = [] ∧ s.arriving = sent ∧ s.cout.text = [] := by
    rcases hop with rfl | rfl | rfl <;> exact hhas
  have hprinted : s.cout.text <+: transcript sent := hnothing.2.2 ▸ List.nil_prefix
  cases error with
  | none => rcases hop with rfl | rfl | rfl <;> exact ⟨hgood, .inl hnothing⟩
  | some e =>
      rcases hop with rfl | rfl | rfl <;> exact keeps_failed rfl rfl hgood hprinted (hnot e)

theorem shown_of_isEof {e : Failure} (h : e.isEof = true) : e.shown = Failure.eof.shown := by
  rw [Failure.isEof, Bool.and_eq_true, decide_eq_true_eq, decide_eq_true_eq] at h
  rw [Failure.shown, Failure.shown, h.1, h.2]

/-- A failure in a read that is not the end of the file. -/
theorem not_orderly {e : Failure} (h : e.isEof = false) : ¬ s.Orderly ⟨some e, bytes⟩ := by
  rintro ⟨heof, -⟩
  rw [h] at heof
  cases heof

theorem transcript_invalid (hline : crlf <:+: sent) (hread : readStatusLine sent = none) :
    transcript sent = invalidLine := by
  rw [transcript, if_pos hline, hread]

theorem transcript_status {line : StatusLine} {rest : List Char} (hline : crlf <:+: sent)
    (hread : readStatusLine sent = some (line, rest)) (hcode : line.statusCode ≠ 200) :
    transcript sent = statusLine line.statusCode := by
  rw [transcript, if_pos hline, hread]
  exact if_pos hcode

theorem transcript_rest {line : StatusLine} {rest : List Char} (hline : crlf <:+: sent)
    (hread : readStatusLine sent = some (line, rest)) (hcode : line.statusCode = 200) :
    transcript sent = shownRest rest := by
  rw [transcript, if_pos hline, hread]
  exact if_neg (not_not.mpr hcode)

theorem transcript_eof (hline : ¬ crlf <:+: sent) : transcript sent = errorLine Failure.eof.shown :=
  if_neg hline

theorem keeps_statusLine (hgood : s.cout.good = true) (hhas : Has sent s (some .readStatusLine))
    (hread : crlf <:+: sent.take bytes →
      readStatusLine sent = (readStatusLine (sent.take bytes)).map (leaving (sent.drop bytes)))
    (hpermits : s.PermitsUntil crlf ⟨error, bytes⟩) : Keeps sent s ⟨error, bytes⟩
      (({ s with pending := none }.transfer bytes .readStatusLine).handle error .readStatusLine) := by
  obtain ⟨request, response, cout, pending, written, arriving⟩ := s
  obtain ⟨hresponse, harriving, htext⟩ := hhas
  dsimp only at hresponse harriving htext hgood
  subst hresponse harriving
  cases error with
  | none =>
      have hcome : crlf <:+: arriving.take bytes := hpermits
      have hline : crlf <:+: arriving := hcome.trans (List.take_prefix bytes arriving).isInfix
      have hwhole := hread hcome
      rw [handle, handleReadStatusLine]
      dsimp only [transfer, List.nil_append]
      cases htake : readStatusLine (arriving.take bytes) with
      | none =>
          rw [htake, Option.map_none] at hwhole
          rw [print_eq hgood]
          refine ⟨rfl, .inl ?_⟩
          rw [Has, transcript_invalid hline hwhole, htext, List.nil_append]
      | some taken =>
          obtain ⟨line, rest⟩ := taken
          rw [htake, Option.map_some] at hwhole
          dsimp only
          by_cases hcode : line.statusCode = 200
          · rw [if_neg (not_not.mpr hcode)]
            exact ⟨hgood, .inl ⟨htext, hline, line, hwhole, hcode⟩⟩
          · rw [if_pos hcode, print_eq hgood]
            refine ⟨rfl, .inl ?_⟩
            rw [Has, transcript_status hline hwhole hcode, htext, List.nil_append]
  | some e =>
      obtain ⟨hmissing, hall⟩ := hpermits
      cases heof : e.isEof with
      | false =>
          exact keeps_failed rfl rfl hgood (htext ▸ List.nil_prefix) (not_orderly heof)
      | true =>
          have htake : arriving.take bytes = arriving := List.take_of_length_le (hall heof)
          rw [htake, List.nil_append] at hmissing
          rw [handle, handleReadStatusLine, print_eq (by exact hgood), shown_of_isEof heof,
            ← transcript_eof hmissing]
          refine ⟨rfl, .inl ?_⟩
          exact congrArg (· ++ transcript arriving) htext

/-- A blank line stops the header lines. -/
theorem stops_of_blank {text : List Char} (h : crlf ++ crlf <:+: text) : Stops '\n' ['\r'] text := by
  obtain ⟨x, y, rfl⟩ := h
  exact .inr ⟨x ++ ['\r'], y, by simp [crlf]⟩

/-- The headers and the content that has come are printed, and the rest is on its way. -/
theorem handleReadHeaders_eq (hgood : s.cout.good = true) : s.handleReadHeaders none =
    { s with
      response := []
      cout := ⟨s.cout.text ++ shownContent (readHeaders s.response).1 (readHeaders s.response).2, true⟩
      pending := some .readContent } := by
  obtain ⟨request, response, ⟨text, good⟩, pending, written, arriving⟩ := s
  obtain rfl : good = true := hgood
  simp only [handleReadHeaders, print, Ostream.put, if_true, shownContent]
  by_cases hempty : (readHeaders response).2 = []
  · rw [if_neg (by simp [hempty]), initiate, hempty]
    simp
  · rw [if_pos (List.length_pos_of_ne_nil hempty), printResponse_eq rfl hempty, initiate]
    simp

theorem keeps_headers (hgood : s.cout.good = true) (hhas : Has sent s (some .readHeaders))
    (hpermits : s.PermitsUntil (crlf ++ crlf) ⟨error, bytes⟩) : Keeps sent s ⟨error, bytes⟩
      (({ s with pending := none }.transfer bytes .readHeaders).handle error .readHeaders) := by
  obtain ⟨request, response, cout, pending, written, arriving⟩ := s
  obtain ⟨htext, hline, line, hread, hcode⟩ := hhas
  dsimp only at htext hread hgood
  have hsplit : response ++ arriving.take bytes ++ arriving.drop bytes = response ++ arriving := by
    rw [List.append_assoc, List.take_append_drop]
  cases error with
  | none =>
      have hcome : crlf ++ crlf <:+: response ++ arriving.take bytes := hpermits
      have hblank : crlf ++ crlf <:+: response ++ arriving := by
        rw [← hsplit]
        exact hcome.trans (List.prefix_append _ _).isInfix
      have hheaders := recordsUntil_append (by decide) (stops_of_blank hcome) (arriving.drop bytes)
      rw [hsplit] at hheaders
      rw [handle, handleReadHeaders_eq (by exact hgood)]
      refine ⟨rfl, .inl ⟨rfl, ?_⟩⟩
      rw [transcript_rest hline hread hcode, shownRest, if_pos hblank, readHeaders, hheaders]
      simp [transfer, htext, shownContent, readHeaders]
  | some e =>
      obtain ⟨hmissing, hall⟩ := hpermits
      cases heof : e.isEof with
      | false =>
          exact keeps_failed rfl rfl hgood (htext ▸ List.nil_prefix) (not_orderly heof)
      | true =>
          have htake : arriving.take bytes = arriving := List.take_of_length_le (hall heof)
          rw [htake] at hmissing
          rw [handle, handleReadHeaders, print_eq (by exact hgood), shown_of_isEof heof]
          refine ⟨rfl, .inl ?_⟩
          have hwhole := transcript_rest hline hread hcode
          rw [shownRest, if_neg hmissing] at hwhole
          exact (congrArg (· ++ errorLine Failure.eof.shown) htext).trans hwhole.symm

theorem keeps_content (hgood : s.cout.good = true) (hhas : Has sent s (some .readContent))
    (hpermits : s.PermitsSome ⟨error, bytes⟩) : Keeps sent s ⟨error, bytes⟩
      (({ s with pending := none }.transfer bytes .readContent).handle error .readContent) := by
  obtain ⟨request, response, cout, pending, written, arriving⟩ := s
  obtain ⟨hresponse, hrest⟩ := hhas
  dsimp only at hresponse hrest hgood
  subst hresponse
  cases error with
  | none =>
      obtain ⟨hsome, henough⟩ := hpermits
      have hcome : arriving.take bytes ≠ [] := by
        intro hnil
        have hlength := congrArg List.length hnil
        rw [List.length_take, List.length_nil] at hlength
        dsimp only at hsome henough
        omega
      rw [handle, handleReadContent, printResponse_eq (by exact hgood) (by exact hcome)]
      refine ⟨rfl, .inl ⟨rfl, ?_⟩⟩
      simp [transfer, initiate, hrest]
  | some e =>
      obtain ⟨hzero, hall⟩ := hpermits
      rw [handle, handleReadContent]
      cases heof : e.isEof with
      | false =>
          rw [if_neg Bool.false_ne_true]
          exact keeps_failed rfl rfl hgood ⟨arriving, hrest.symm⟩ (not_orderly heof)
      | true =>
          rw [if_pos rfl]
          refine ⟨hgood, .inl ?_⟩
          have hnone : arriving = [] := hall heof
          rw [hnone, List.append_nil] at hrest
          exact hrest.symm

/-! ## Runs -/

section Runs

variable {c : Completion} {server path : List Char} {completions : List Completion}

theorem step_some (hstep : s.step c = some s') : ∃ op, s.pending = some op ∧ s.Permits c op ∧
    ({ s with pending := none }.transfer c.bytesTransferred op).handle c.error op = s' := by
  rw [step] at hstep
  split at hstep
  · cases hstep
  · rename_i op hop
    split at hstep
    · rename_i hpermits
      exact ⟨op, hop, hpermits, Option.some.inj hstep⟩
    · cases hstep

theorem step_eq {op : Operation} (hop : s.pending = some op) (hpermits : s.Permits c op) : s.step c =
    some (({ s with pending := none }.transfer c.bytesTransferred op).handle c.error op) := by
  rw [step, hop]
  exact if_pos hpermits

theorem keeps_step (hgood : s.cout.good = true) (hhas : Has sent s s.pending)
    (hread : s.pending = some .readStatusLine → crlf <:+: sent.take c.bytesTransferred →
      readStatusLine sent = (readStatusLine (sent.take c.bytesTransferred)).map
        (leaving (sent.drop c.bytesTransferred)))
    (hstep : s.step c = some s') : Keeps sent s c s' := by
  obtain ⟨op, hop, hpermits, rfl⟩ := step_some hstep
  rw [hop] at hhas
  cases op with
  | resolve => exact keeps_early (.inl rfl) hop hgood hhas
  | connect => exact keeps_early (.inr (.inl rfl)) hop hgood hhas
  | writeRequest => exact keeps_early (.inr (.inr rfl)) hop hgood hhas
  | readStatusLine => exact keeps_statusLine hgood hhas (hread hop) hpermits
  | readHeaders => exact keeps_headers hgood hhas hpermits
  | readContent => exact keeps_content hgood hhas hpermits

theorem Steady.keeps (h : Steady sent) (hgood : s.cout.good = true) (hhas : Has sent s s.pending)
    (hstep : s.step c = some s') : Keeps sent s c s' :=
  keeps_step hgood hhas (fun _ => h _ _ (List.take_append_drop _ _).symm) hstep

/-- What is printed before the end is part of what is printed at the end. -/
theorem prefix_of_has {pending : Option Operation} (h : Has sent s pending) :
    s.cout.text <+: transcript sent := by
  cases pending with
  | none => exact h ▸ List.prefix_rfl
  | some op => cases op with
      | readHeaders => exact h.1 ▸ List.nil_prefix
      | readContent => exact ⟨s.arriving, h.2.symm⟩
      | resolve | connect | writeRequest | readStatusLine => exact h.2.2 ▸ List.nil_prefix

/-! ### The end of a run -/

/-- The operations that may still follow, this one with them. -/
def Operation.stages : Operation → Nat
  | resolve => 6
  | connect => 5
  | writeRequest => 4
  | readStatusLine => 3
  | readHeaders => 2
  | readContent => 1

/-- A bound on what a client may still do. -/
def left (s : Client) : Nat := s.pending.elim 0 fun op => s.arriving.length + op.stages

theorem printResponse_arriving (s : Client) : s.printResponse.arriving = s.arriving := by
  rw [printResponse]
  split
  · split <;> rfl
  · rfl

theorem handle_arriving (s : Client) (error : Option Failure) (op : Operation) :
    (s.handle error op).arriving = s.arriving := by
  cases op with
  | resolve | connect | writeRequest => cases error <;> rfl
  | readStatusLine => cases error with
      | some e => rfl
      | none =>
          rw [handle, handleReadStatusLine]
          split
          · rfl
          · dsimp only
            split <;> rfl
  | readHeaders => cases error with
      | some e => rfl
      | none =>
          rw [handle, handleReadHeaders]
          dsimp only
          split
          · exact printResponse_arriving _
          · rfl
  | readContent => cases error with
      | some e =>
          rw [handle, handleReadContent]
          split <;> rfl
      | none => exact printResponse_arriving s

/-- A handler starts a later operation, or reads on, or none. -/
theorem handle_pending (error : Option Failure) (hidle : s.pending = none) (op : Operation) :
    (s.handle error op).pending = none ∨
      ∃ next, (s.handle error op).pending = some next ∧
        (next.stages < op.stages ∨ next = .readContent ∧ op = .readContent ∧ error = none) := by
  cases op with
  | resolve | connect | writeRequest => cases error with
      | some e => exact .inl hidle
      | none => exact .inr ⟨_, rfl, .inl (by decide)⟩
  | readStatusLine => cases error with
      | some e => exact .inl hidle
      | none =>
          rw [handle, handleReadStatusLine]
          split
          · exact .inl hidle
          · dsimp only
            split
            · exact .inl hidle
            · exact .inr ⟨_, rfl, .inl (by decide)⟩
  | readHeaders => cases error with
      | some e => exact .inl hidle
      | none => exact .inr ⟨_, rfl, .inl (by decide)⟩
  | readContent => cases error with
      | some e =>
          rw [handle, handleReadContent]
          split
          · exact .inl hidle
          · exact .inl hidle
      | none => exact .inr ⟨_, rfl, .inr ⟨rfl, rfl, rfl⟩⟩

theorem transfer_arriving_le (s : Client) (bytes : Nat) (op : Operation) :
    (s.transfer bytes op).arriving.length ≤ s.arriving.length := by
  cases op with
  | resolve | connect | writeRequest => exact le_rfl
  | readStatusLine | readHeaders | readContent => simp [transfer]

theorem transfer_pending (s : Client) (bytes : Nat) (op : Operation) :
    (s.transfer bytes op).pending = s.pending := by
  cases op <;> rfl

theorem left_step (hstep : s.step c = some s') : s'.left < s.left := by
  obtain ⟨op, hop, hpermits, rfl⟩ := step_some hstep
  have hstages : 0 < op.stages := by cases op <;> decide
  have hbefore : s.left = s.arriving.length + op.stages := by rw [left, hop]; rfl
  have harriving := transfer_arriving_le { s with pending := none } c.bytesTransferred op
  rcases handle_pending c.error (transfer_pending { s with pending := none } c.bytesTransferred op)
    op with hnone | ⟨next, hnext, hless⟩
  · rw [hbefore, left, hnone, Option.elim_none]
    omega
  · rw [hbefore, left, hnext, Option.elim_some, handle_arriving]
    rcases hless with hless | ⟨rfl, rfl, herror⟩
    · dsimp only at harriving
      omega
    · -- what is read on is at least one byte
      rw [Permits, PermitsSome, herror] at hpermits
      simp only [transfer, List.length_drop]
      omega

theorem run_left (hrun : Machine.run step s completions = some s') :
    s'.left + completions.length ≤ s.left := by
  induction completions generalizing s with
  | nil =>
      obtain rfl := Option.some.inj hrun
      exact le_rfl
  | cons c rest ih =>
      obtain ⟨next, hstep, hrest⟩ := Option.bind_eq_some_iff.mp hrun
      have hone := left_step hstep
      have hmore := ih hrest
      rw [List.length_cons]
      omega

/-- All that is on its way comes at once. -/
def atOnce (s : Client) : Completion :=
  match s.pending with
  | some .readStatusLine =>
      ⟨if crlf <:+: s.response ++ s.arriving then none else some .eof, s.arriving.length⟩
  | some .readHeaders =>
      ⟨if crlf ++ crlf <:+: s.response ++ s.arriving then none else some .eof, s.arriving.length⟩
  | some .readContent => ⟨if s.arriving = [] then some .eof else none, s.arriving.length⟩
  | _ => ⟨none, s.request.length⟩

/-- A client that waits may go on. -/
theorem atOnce_permitted {op : Operation} (hop : s.pending = some op) :
    s.Orderly s.atOnce ∧ s.Permits s.atOnce op := by
  cases op with
  | resolve | connect =>
      rw [atOnce, hop]
      exact ⟨trivial, trivial⟩
  | writeRequest =>
      rw [atOnce, hop]
      exact ⟨trivial, fun _ => le_rfl⟩
  | readStatusLine =>
      rw [atOnce, hop]
      dsimp only
      split
      · rename_i hline
        refine ⟨trivial, ?_⟩
        rw [Permits, PermitsUntil, List.take_length]
        exact hline
      · rename_i hline
        refine ⟨⟨rfl, .inl hop⟩, ?_⟩
        rw [Permits, PermitsUntil, List.take_length]
        exact ⟨hline, fun _ => le_rfl⟩
  | readHeaders =>
      rw [atOnce, hop]
      dsimp only
      split
      · rename_i hblank
        refine ⟨trivial, ?_⟩
        rw [Permits, PermitsUntil, List.take_length]
        exact hblank
      · rename_i hblank
        refine ⟨⟨rfl, .inr (.inl hop)⟩, ?_⟩
        rw [Permits, PermitsUntil, List.take_length]
        exact ⟨hblank, fun _ => le_rfl⟩
  | readContent =>
      rw [atOnce, hop]
      dsimp only
      split
      · rename_i hempty
        refine ⟨⟨rfl, .inr (.inr hop)⟩, ?_, fun _ => hempty⟩
        simp [hempty]
      · rename_i hsome
        exact ⟨trivial, List.length_pos_of_ne_nil hsome, le_rfl⟩

/-- A client comes to its end, and if it has not read the status line before it reads all at
once. -/
theorem exists_finish (s : Client) : ∃ completions s', Machine.run step s completions = some s' ∧
    Machine.Along step Orderly s completions ∧ s'.pending = none ∧
    ∀ sent, s.cout.good = true → Has sent s s.pending → s'.cout.text = transcript sent := by
  induction hn : s.left using Nat.strong_induction_on generalizing s with
  | _ n ih =>
      subst hn
      cases hop : s.pending with
      | none => exact ⟨[], s, rfl, trivial, hop, fun sent _ hhas => hhas⟩
      | some op =>
          obtain ⟨horderly, hpermits⟩ := atOnce_permitted hop
          obtain ⟨next, hstep⟩ : ∃ next, s.step s.atOnce = some next := ⟨_, step_eq hop hpermits⟩
          obtain ⟨completions, s', hrun, halong, hidle, htext⟩ := ih next.left (left_step hstep) next rfl
          refine ⟨s.atOnce :: completions, s', ?_, ⟨horderly, ?_⟩, hidle, fun sent hgood hhas => ?_⟩
          · rw [Machine.run, hstep]
            exact hrun
          · rw [hstep]
            exact halong
          · rw [← hop] at hhas
            have hread : s.pending = some .readStatusLine →
                crlf <:+: sent.take s.atOnce.bytesTransferred → readStatusLine sent =
                  (readStatusLine (sent.take s.atOnce.bytesTransferred)).map
                    (leaving (sent.drop s.atOnce.bytesTransferred)) := by
              intro hread _
              rw [hread] at hhas
              rw [atOnce, hread, ← hhas.2.1, List.take_length, List.drop_length]
              cases readStatusLine s.arriving with
              | none => rfl
              | some taken => simp [leaving]
            obtain ⟨hgood', hhas' | ⟨hnot, -⟩⟩ := keeps_step hgood hhas hread hstep
            · exact htext sent hgood' hhas'
            · exact absurd horderly hnot

theorem has_construct (server path sent : List Char) :
    Has sent (construct server path sent) (construct server path sent).pending := ⟨rfl, rfl, rfl⟩

/-- Whatever fails and however the reply is cut, what is printed is the first part of what is
printed of the whole, and if the client has come to an end before that, a message after it. -/
theorem Steady.told (h : Steady sent) (server path : List Char) (completions : List Completion) :
    Machine.Always step
      (fun s => s.cout.text <+: transcript sent ∨ s.pending = none ∧ CutShort sent s.cout.text)
      (construct server path sent) completions := by
  have halong : Machine.Along step (fun _ _ => True) (construct server path sent) completions :=
    Machine.along_of_forall fun _ _ => trivial
  have htold : Machine.Always step (fun s => s.cout.good = true ∧
      (Has sent s s.pending ∨ s.pending = none ∧ CutShort sent s.cout.text))
      (construct server path sent) completions := by
    refine Machine.Along.always ?_ ⟨rfl, .inl (has_construct server path sent)⟩ halong
    rintro s c s' ⟨hgood, hhas | ⟨hidle, -⟩⟩ - hstep
    · obtain ⟨hgood', hhas' | ⟨-, hcut⟩⟩ := h.keeps hgood hhas hstep
      · exact ⟨hgood', .inl hhas'⟩
      · exact ⟨hgood', .inr hcut⟩
    · rw [step, hidle] at hstep
      cases hstep
  refine htold.mono fun s hs => ?_
  rcases hs.2 with hhas | hcut
  · exact .inl (prefix_of_has hhas)
  · exact .inr hcut

/-! ### A status line of one word -/

theorem not_twoWords_append {line : List Char} (h : ¬ TwoWords line) : ¬ TwoWords (line ++ crlf) := by
  rintro ⟨c, hc, hspace⟩
  have hcrlf : ∀ c ∈ crlf, isSpace c = true := by simp [crlf, isSpace]
  have hline : ∀ c ∈ (extractWord line).2, isSpace c = true := by
    intro c hc
    by_contra hno
    exact h ⟨c, hc, by simpa using hno⟩
  have hmem : c ∈ (extractWord line).2 ∨ c ∈ crlf := by
    rw [extractWord, List.dropWhile_append] at hc
    rw [extractWord]
    dsimp only at hc ⊢
    split at hc
    · exact .inr ((List.dropWhile_sublist _).trans (List.dropWhile_sublist _) |>.subset hc)
    · rw [List.dropWhile_append] at hc
      split at hc
      · exact .inr ((List.dropWhile_sublist _).subset hc)
      · exact List.mem_append.mp hc
  rcases hmem with hmem | hmem
  · rw [hline c hmem] at hspace
    cases hspace
  · rw [hcrlf c hmem] at hspace
    cases hspace

theorem readStatusLine_none {text : List Char} (h : ¬ TwoWords text) : readStatusLine text = none := by
  cases hcode : extractUnsigned (extractWord text).2 with
  | none => rw [readStatusLine_eq, hcode, Option.bind_none]
  | some taken =>
      obtain ⟨n, rest⟩ := taken
      exact absurd (extractUnsigned_some hcode).1 h

/-- The messages begin with different letters, and the one for an invalid status line has one
end. -/
theorem head?_invalidLine : invalidLine.head? = some 'I' := by decide +kernel

theorem count_invalidLine : invalidLine.count '\n' = 1 := by decide +kernel

theorem head?_append_of_some {a : Char} {x : List Char} (h : x.head? = some a) (y : List Char) :
    (x ++ y).head? = some a := by
  rw [List.head?_append, h, Option.some_or]

theorem head?_errorLine (shown : List Char) : (errorLine shown).head? = some 'E' := by
  have herror : "Error: ".toList.head? = some 'E' := by decide +kernel
  exact head?_append_of_some (head?_append_of_some herror shown) ['\n']

theorem head?_statusLine (n : Nat) : (statusLine n).head? = some 'R' := by
  have hstatus : "Response returned with status code ".toList.head? = some 'R' := by decide +kernel
  exact head?_append_of_some (head?_append_of_some hstatus (decimal n)) ['\n']

/-- What is printed of an accepted status line is not what is printed of an invalid one. -/
theorem transcript_ne_invalid (hline : crlf <:+: sent) (hread : (readStatusLine sent).isSome = true) :
    transcript sent ≠ invalidLine := by
  obtain ⟨⟨line, rest⟩, hread⟩ := Option.isSome_iff_exists.mp hread
  intro heq
  have hhead := congrArg List.head? heq
  have hcount := congrArg (List.count '\n') heq
  rw [head?_invalidLine] at hhead
  rw [count_invalidLine] at hcount
  by_cases hcode : line.statusCode = 200
  · rw [transcript_rest hline hread hcode, shownRest] at hhead hcount
    split at hhead
    · rename_i hblank
      rw [if_pos hblank] at hcount
      cases hlines : (readHeaders rest).1 with
      | nil => simp [shownContent, hlines] at hhead
      | cons first more =>
          -- the end of the first line, and the empty line
          simp only [shownContent, hlines, List.flatMap_cons, List.count_append,
            List.count_singleton_self] at hcount
          omega
    · simp [head?_errorLine] at hhead
  · rw [transcript_status hline hread hcode, head?_statusLine] at hhead
    simp at hhead

/-- The client when it has asked and nothing has come yet. -/
def asked (server path sent : List Char) : Client :=
  { construct server path sent with
    request := []
    pending := some .readStatusLine
    written := requestText server path }

/-- The completions up to then. -/
def asking (server path : List Char) : List Completion :=
  [⟨none, 0⟩, ⟨none, 0⟩, ⟨none, (requestText server path).length⟩]

theorem run_asking (server path sent : List Char) :
    Machine.run step (construct server path sent) (asking server path) =
      some (asked server path sent) := by
  simp [asking, asked, Machine.run, step, construct, Permits, transfer, handle, handleResolve,
    handleConnect, handleWriteRequest, initiate]

/-- A client makes no more than this many steps, and comes to its end if nothing more fails. -/
theorem comes_to_end (server path sent : List Char) (completions : List Completion) (s : Client)
    (hrun : Machine.run step (construct server path sent) completions = some s) :
    ∃ more s', Machine.run step s more = some s' ∧ Machine.Along step Orderly s more ∧
      s'.pending = none ∧ completions.length + more.length ≤ sent.length + 6 := by
  have hbefore : s.left + completions.length ≤ sent.length + 6 := run_left hrun
  obtain ⟨more, s', hmore, halong, hidle, -⟩ := exists_finish s
  have hafter := run_left hmore
  exact ⟨more, s', hmore, halong, hidle, by omega⟩

/-- A client that has asked for a file and is sent a line and a half. -/
theorem asked_comes_to_end : ∃ more s',
    Machine.run step (asked "host".toList ['/'] "HTTP/1.0 200 OK\r\nDate".toList) more = some s' ∧
    Machine.Along step Orderly (asked "host".toList ['/'] "HTTP/1.0 200 OK\r\nDate".toList) more ∧
    s'.pending = none ∧ 3 + more.length ≤ "HTTP/1.0 200 OK\r\nDate".toList.length + 6 :=
  comes_to_end "host".toList ['/'] "HTTP/1.0 200 OK\r\nDate".toList (asking "host".toList ['/']) _
    (run_asking _ _ _)

theorem Steady.always_has (h : Steady sent)
    (halong : Machine.Along step Orderly (construct server path sent) completions) :
    Machine.Always step (fun s => s.cout.good = true ∧ Has sent s s.pending)
      (construct server path sent) completions := by
  refine Machine.Along.always ?_ ⟨rfl, has_construct server path sent⟩ halong
  rintro s c s' ⟨hgood, hhas⟩ horderly hstep
  obtain ⟨hgood', hhas' | ⟨hnot, -⟩⟩ := h.keeps hgood hhas hstep
  · exact ⟨hgood', hhas'⟩
  · exact absurd horderly hnot

theorem along_orderly (h : ∀ c ∈ completions, c.error = none) :
    Machine.Along step Orderly s completions := by
  induction completions generalizing s with
  | nil => trivial
  | cons c rest ih =>
      refine ⟨?_, ?_⟩
      · rw [Orderly, h c List.mem_cons_self]
        trivial
      · cases step s c with
        | none => trivial
        | some next => exact ih fun c hc => h c (List.mem_cons_of_mem _ hc)

/-- When no more than a line of one word has come, the client says that it is invalid. -/
theorem run_one_word {line rest : List Char} (hcut : cut crlf sent = some (line, rest))
    (hword : ¬ TwoWords line) (server path : List Char) :
    ∃ s, Machine.run step (construct server path sent)
        (asking server path ++ [⟨none, (line ++ crlf).length⟩]) = some s ∧
      s.pending = none ∧ s.cout.text = invalidLine := by
  have hsent : sent = (line ++ crlf) ++ rest := eq_append_of_cut hcut
  have htake : sent.take (line ++ crlf).length = line ++ crlf := by
    rw [hsent, List.take_left]
  have hcome : (asked server path sent).Permits ⟨none, (line ++ crlf).length⟩ .readStatusLine := by
    rw [Permits, PermitsUntil]
    dsimp only [asked, construct]
    rw [htake]
    exact ⟨line, [], by simp⟩
  refine ⟨({ asked server path sent with
    pending := none
    response := line ++ crlf
    arriving := sent.drop (line ++ crlf).length } : Client).print invalidLine, ?_, rfl, rfl⟩
  rw [Machine.run_concat, run_asking, Option.bind_eq_bind, Option.bind_some, step_eq rfl hcome, handle,
    handleReadStatusLine]
  dsimp only [asked, transfer, construct, List.nil_append]
  rw [htake, readStatusLine_none (not_twoWords_append hword)]

/-- Whatever fails and however the reply is cut, if its first line has two words then what is
printed is the first part of what is printed of the whole, and if the client has come to an end
before that, a message after it. -/
theorem always_told (server path : List Char) (completions : List Completion)
    (hlines : ∀ line rest, cut crlf sent = some (line, rest) →
      TwoWords line ∨ readStatusLine sent = none) :
    Machine.Always step
      (fun s => s.cout.text <+: transcript sent ∨ s.pending = none ∧ CutShort sent s.cout.text)
      (construct server path sent) completions :=
  (steady_of_lines hlines).told server path completions

/-- A line of two words, and a failure when it has been read. -/
theorem two_words_told : Machine.Always step
    (fun s => s.cout.text <+: transcript ['a', ' ', 'b', '\r', '\n'] ∨
      s.pending = none ∧ CutShort ['a', ' ', 'b', '\r', '\n'] s.cout.text)
    (construct [] [] ['a', ' ', 'b', '\r', '\n']) (asking [] [] ++ [⟨some ⟨[], 104, []⟩, 4⟩]) := by
  refine always_told [] [] _ fun line rest hcut => .inl ?_
  have htaken : cut crlf ['a', ' ', 'b', '\r', '\n'] = some (['a', ' ', 'b'], []) := by decide
  rw [htaken] at hcut
  obtain ⟨rfl, rfl⟩ := Prod.mk.inj (Option.some.inj hcut)
  decide

/-- All finished runs on what a server sends print the same exactly when its first line has two
words or more, or no status line is read from the whole of it either. -/
theorem same_print_iff (sent : List Char) :
    (∃ text, ∀ server path completions s,
      Machine.run step (construct server path sent) completions = some s →
      Machine.Along step Orderly (construct server path sent) completions → s.pending = none →
      s.cout.text = text) ↔
    ∀ line rest, cut crlf sent = some (line, rest) → TwoWords line ∨ readStatusLine sent = none := by
  constructor
  · rintro ⟨text, hsame⟩ line rest hcut
    by_contra hno
    rw [not_or] at hno
    obtain ⟨s, hrun, hidle, hinvalid⟩ := run_one_word hcut hno.1 [] []
    have horderly : Machine.Along step Orderly (construct [] [] sent)
        (asking [] [] ++ [⟨none, (line ++ crlf).length⟩]) := along_orderly (by simp [asking])
    obtain ⟨completions, s', hrun', horderly', hidle', htext⟩ := exists_finish (construct [] [] sent)
    have hwhole : s'.cout.text = transcript sent := htext sent rfl (has_construct [] [] sent)
    have hline : crlf <:+: sent := (isSome_cut_iff (by simp [crlf])).mp (by rw [hcut, Option.isSome_some])
    refine transcript_ne_invalid hline (Option.isSome_iff_ne_none.mpr hno.2) ?_
    rw [← hwhole, ← hinvalid, hsame [] [] completions s' hrun' horderly' hidle']
    exact (hsame [] [] _ s hrun horderly hidle).symm
  · intro hlines
    refine ⟨transcript sent, fun server path completions s hrun halong hidle => ?_⟩
    have hhas := ((steady_of_lines hlines).always_has halong).last hrun
    rw [hidle] at hhas
    exact hhas.2

end Runs

end Robotd.Slaves.Client
