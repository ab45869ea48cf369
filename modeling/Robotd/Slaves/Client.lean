import Robotd.Lib.Delimiter
import Robotd.Slaves.Reply

/-!
# Replies as a client reads them

`async_client.cpp` reads the status line, the headers up to an empty line, and everything after it.
`decode` reads a reply in this way, whatever its code, and splits the headers. It undoes
`toBuffers` (`decode_bytes`): the delimiters stand nowhere in the header section but where they
were put, and the content is not looked at.
-/

namespace Robotd.Slaves

open Lib Lib.CLib

/-- The enumerators of `status_type`. -/
def StatusType.code : StatusType → Nat
  | ok => 200
  | created => 201
  | accepted => 202
  | noContent => 204
  | multipleChoices => 300
  | movedPermanently => 301
  | movedTemporarily => 302
  | notModified => 304
  | badRequest => 400
  | unauthorized => 401
  | forbidden => 403
  | notFound => 404
  | internalServerError => 500
  | notImplemented => 501
  | badGateway => 502
  | serviceUnavailable => 503

/-- The enumerator with this value. -/
def StatusType.ofCode : Nat → Option StatusType
  | 200 => some ok
  | 201 => some created
  | 202 => some accepted
  | 204 => some noContent
  | 300 => some multipleChoices
  | 301 => some movedPermanently
  | 302 => some movedTemporarily
  | 304 => some notModified
  | 400 => some badRequest
  | 401 => some unauthorized
  | 403 => some forbidden
  | 404 => some notFound
  | 500 => some internalServerError
  | 501 => some notImplemented
  | 502 => some badGateway
  | 503 => some serviceUnavailable
  | _ => none

namespace Client

/-! ## The streams of the client -/

/-- `stream >> word`: the word, and what is left in the stream. -/
def extractWord (text : List Char) : List Char × List Char :=
  let text := text.dropWhile isSpace
  (text.takeWhile fun c => !isSpace c, text.dropWhile fun c => !isSpace c)

/-- `stream >> n` for an `unsigned int`; `none` when there is none, or it is too large. -/
def extractUnsigned (text : List Char) : Option (Nat × List Char) :=
  let (negative, text) := sign (text.dropWhile isSpace)
  let digits := text.takeWhile Char.isDigit
  let n := Nat.ofDigitChars 10 digits 0
  if digits.isEmpty ∨ 2 ^ 32 ≤ n then none
  else some (if negative then (2 ^ 32 - n) % 2 ^ 32 else n, text.dropWhile Char.isDigit)

/-- `std::getline`, which fails at the end of the stream. -/
def getline (text : List Char) : Option (List Char × List Char) :=
  if text.isEmpty then none else some (getLine text, (text.dropWhile (· ≠ '\n')).tail)

structure StatusLine where
  httpVersion : List Char
  statusCode : Nat
  statusMessage : List Char
  deriving DecidableEq, Repr

/-- The first lines of `handle_read_status_line`: the status line, unless it is invalid, and what
is left. -/
def readStatusLine (text : List Char) : Option (StatusLine × List Char) := do
  let (httpVersion, text) := extractWord text
  let (statusCode, text) ← extractUnsigned text
  let (statusMessage, text) ← getline text
  if httpVersion.take 5 = "HTTP/".toList then
    return (⟨httpVersion, statusCode, statusMessage⟩, text)
  else
    none

/-- The loop of `handle_read_headers`: the header lines, each with its `\r`, and the content. -/
def readHeaders (text : List Char) : List (List Char) × List Char := recordsUntil '\n' ['\r'] text

/-! ## Decoding -/

/-- A header line without its end, split at the first `: `. -/
def splitHeader (line : List Char) : Option Header :=
  if line.getLast? = some '\r' then
    (cut nameValueSeparator line.dropLast).map fun (name, value) => ⟨name, value⟩
  else
    none

/-- A reply from what the client has received: the status of its code, its headers and the
content. -/
def decode (text : List Char) : Option Reply := do
  let (line, text) ← readStatusLine text
  let status ← StatusType.ofCode line.statusCode
  let (lines, content) := readHeaders text
  let headers ← lines.mapM splitHeader
  return ⟨some status, headers, content⟩

end Client

/-- No delimiter of the header section is in the header. -/
structure Header.Plain (h : Header) : Prop where
  name : ∀ c ∈ [':', '\r', '\n'], c ∉ h.name
  value : ∀ c ∈ ['\r', '\n'], c ∉ h.value

/-- The number in the header `Content-Length`. -/
def Reply.contentLength (r : Reply) : Option Nat := do
  let h ← r.headers.find? fun h => h.name = "Content-Length".toList
  let (negative, n) ← number h.value
  if negative then none else some n

/-- All that is sent of a reply. -/
def Reply.bytes (r : Reply) : List Char := r.toBuffers.flatten

namespace Client

/-! ## What the streams give back -/

section Streams

variable {word line : List Char} {rest : List Char}

theorem extractWord_append (hne : word ≠ []) (hword : (word.all fun c => !isSpace c) = true) :
    extractWord (word ++ ' ' :: rest) = (word, ' ' :: rest) := by
  have hall := List.all_eq_true.mp hword
  have hkeep : (word ++ ' ' :: rest).dropWhile isSpace = word ++ ' ' :: rest := by
    obtain ⟨c, tail, rfl⟩ := List.exists_cons_of_ne_nil hne
    have hc : isSpace c = false := by simpa using hall c List.mem_cons_self
    rw [List.cons_append, List.dropWhile_cons_of_neg (by simp [hc])]
  rw [extractWord, hkeep, List.takeWhile_append_of_pos hall, List.dropWhile_append_of_pos hall]
  simp [isSpace]

theorem extractUnsigned_decimal {n : Nat} (hn : n < 2 ^ 32) :
    extractUnsigned (' ' :: (decimal n ++ ' ' :: rest)) = some (n, ' ' :: rest) := by
  have hdigits : ∀ c ∈ decimal n, c.isDigit = true := fun c => isDigit_of_mem_decimal
  have hvalue : Nat.ofDigitChars 10 (decimal n) 0 = n := by simp [decimal]
  have htake : (decimal n ++ ' ' :: rest).takeWhile Char.isDigit = decimal n := by
    rw [List.takeWhile_append_of_pos hdigits]
    simp
  have hleft : (decimal n ++ ' ' :: rest).dropWhile Char.isDigit = ' ' :: rest := by
    rw [List.dropWhile_append_of_pos hdigits]
    simp
  have hsign : sign ((' ' :: (decimal n ++ ' ' :: rest)).dropWhile isSpace) =
      (false, decimal n ++ ' ' :: rest) := by
    obtain ⟨c, tail, htext⟩ := List.exists_cons_of_ne_nil (decimal_ne_nil n)
    obtain ⟨hspace, hminus, hplus⟩ := isSpace_of_isDigit (hdigits c (by simp [htext]))
    rw [List.dropWhile_cons_of_pos (by decide), htext, List.cons_append,
      List.dropWhile_cons_of_neg (by simp [hspace]), sign.eq_def]
    split
    · simp_all
    · simp_all
    · rfl
  have hno : ¬ ((decimal n).isEmpty = true ∨ 2 ^ 32 ≤ n) := by
    rw [List.isEmpty_iff, not_or]
    exact ⟨decimal_ne_nil n, not_le.mpr hn⟩
  simp only [extractUnsigned, hsign, htake, hleft, hvalue, if_neg hno, Bool.false_eq_true, if_false]

theorem getline_append (hline : '\n' ∉ line) : getline (line ++ '\n' :: rest) = some (line, rest) := by
  rw [getline, if_neg (by simp), getLine_line hline, dropWhile_ne hline, List.tail_cons]

end Streams

variable {r : Reply} {status : StatusType} {text : List Char}

/-! ## The round trip -/

theorem ofCode_code (status : StatusType) : StatusType.ofCode status.code = some status := by
  cases status <;> rfl

theorem code_lt (status : StatusType) : status.code < 2 ^ 32 := by
  cases status <;> decide

/-- Every status line has the version, the code and a message. -/
theorem statusString_eq (status : StatusType) : ∃ message, '\n' ∉ message ∧
    status.statusString.toList =
      "HTTP/1.0".toList ++ ' ' :: (decimal status.code ++ ' ' :: (message ++ ['\r', '\n'])) := by
  refine ⟨(status.statusString.toList.drop 13).dropLast.dropLast, ?_, ?_⟩
  · cases status <;> decide +kernel
  · cases status <;> decide +kernel

/-- The status line is read up to its end. -/
theorem readStatusLine_append (status : StatusType) (text : List Char) :
    ∃ line, readStatusLine (status.statusString.toList ++ text) = some (line, text) ∧
      line.statusCode = status.code := by
  obtain ⟨message, hmessage, hstatus⟩ := statusString_eq status
  have hspace : '\n' ∉ ' ' :: (message ++ ['\r']) := by simp [hmessage]
  have htext : status.statusString.toList ++ text = "HTTP/1.0".toList ++ ' ' :: (decimal status.code ++
      ' ' :: (message ++ ['\r', '\n'] ++ text)) := by
    rw [hstatus]
    simp
  have hline : ' ' :: (message ++ ['\r', '\n'] ++ text) = ' ' :: (message ++ ['\r']) ++ '\n' :: text := by
    simp
  have hword : extractWord ("HTTP/1.0".toList ++ ' ' :: (decimal status.code ++ ' ' :: (message ++
      ['\r', '\n'] ++ text))) = ("HTTP/1.0".toList, ' ' :: (decimal status.code ++ ' ' :: (message ++
        ['\r', '\n'] ++ text))) := extractWord_append (by decide) (by decide)
  refine ⟨⟨"HTTP/1.0".toList, status.code, ' ' :: (message ++ ['\r'])⟩, ?_, rfl⟩
  rw [readStatusLine, htext, hword]
  dsimp only
  rw [extractUnsigned_decimal (code_lt status), Option.bind_eq_bind, Option.bind_some]
  dsimp only
  rw [hline, getline_append hspace]
  rfl

/-- A header line as the client gets it. -/
def headerLine (h : Header) : List Char := h.name ++ nameValueSeparator ++ h.value ++ ['\r']

/-- The buffers are the status line, a line for each header, an empty line and the content. -/
theorem bytes_eq (r : Reply) : r.bytes = toBuffer r.status ++
    ((r.headers.map headerLine).flatMap (· ++ ['\n']) ++ (['\r'] ++ '\n' :: r.content)) := by
  have hheaders : ∀ headers : List Header, (headers.flatMap Header.toBuffers).flatten =
      (headers.map headerLine).flatMap (· ++ ['\n']) := by
    intro headers
    induction headers with
    | nil => rfl
    | cons h rest ih => simp [Header.toBuffers, headerLine, crlf, ih]
  simp [Reply.bytes, Reply.toBuffers, hheaders, crlf]

theorem splitHeader_headerLine {h : Header} (hplain : h.Plain) :
    splitHeader (headerLine h) = some h := by
  have hname : ':' ∉ h.name := hplain.name ':' (by decide)
  rw [splitHeader, headerLine, if_pos (by simp), List.dropLast_concat, nameValueSeparator,
    cut_append hname, Option.map_some]

theorem splitHeaders_headerLines {headers : List Header} (hplain : ∀ h ∈ headers, h.Plain) :
    (headers.map headerLine).mapM splitHeader = some headers := by
  induction headers with
  | nil => rfl
  | cons h rest ih =>
      have hrest := ih fun h' hh' => hplain h' (List.mem_cons_of_mem h hh')
      rw [List.map_cons, List.mapM_cons, splitHeader_headerLine (hplain h List.mem_cons_self), hrest]
      rfl

/-- The headers and the content are read apart at the empty line, wherever the content has
others. -/
theorem readHeaders_append {headers : List Header} (hplain : ∀ h ∈ headers, h.Plain)
    (content : List Char) : readHeaders ((headers.map headerLine).flatMap (· ++ ['\n']) ++
      (['\r'] ++ '\n' :: content)) = (headers.map headerLine, content) := by
  refine recordsUntil_flatMap (by decide) (fun x hx => ?_) content
  obtain ⟨h, hh, rfl⟩ := List.mem_map.mp hx
  have hname : '\n' ∉ h.name := (hplain h hh).name '\n' (by decide)
  have hvalue : '\n' ∉ h.value := (hplain h hh).value '\n' (by decide)
  refine ⟨by simp [headerLine, hname, hvalue, nameValueSeparator], fun heq => ?_⟩
  -- a header line has at least its separator
  have hlength := congrArg List.length heq
  simp only [headerLine, nameValueSeparator, List.length_append, List.length_cons,
    List.length_nil] at hlength
  omega

/-- A reply is read back from what is sent of it. -/
theorem decode_bytes (hstatus : r.status = some status) (hplain : ∀ h ∈ r.headers, h.Plain) :
    decode r.bytes = some r := by
  obtain ⟨line, hline, hcode⟩ := readStatusLine_append status
    ((r.headers.map headerLine).flatMap (· ++ ['\n']) ++ (['\r'] ++ '\n' :: r.content))
  rw [bytes_eq, hstatus, toBuffer, Option.getD_some, decode, hline]
  obtain ⟨sent, headers, content⟩ := r
  obtain rfl : sent = some status := hstatus
  simp only [Option.bind_eq_bind, Option.bind_some, hcode, ofCode_code, readHeaders_append hplain,
    splitHeaders_headerLines hplain]
  rfl

/-! ## Replies that are filled in -/

section Content

variable {content type : List Char}

/-- The two headers of a reply are plain when its type is. -/
theorem contentHeaders_plain (htype : ∀ c ∈ ['\r', '\n'], c ∉ type) {h : Header}
    (hh : h ∈ contentHeaders content type) : h.Plain := by
  have hdecimal : ∀ c ∈ ['\r', '\n'], c ∉ decimal content.length := by
    intro c hc hmem
    have hspace := (isSpace_of_isDigit (isDigit_of_mem_decimal hmem)).1
    simp only [List.mem_cons, List.not_mem_nil, or_false] at hc
    rcases hc with rfl | rfl
    · exact absurd hspace (by decide)
    · exact absurd hspace (by decide)
  simp only [contentHeaders, List.mem_cons, List.not_mem_nil, or_false] at hh
  rcases hh with rfl | rfl
  · exact ⟨by simp, hdecimal⟩
  · exact ⟨by simp, htype⟩

/-- The length is read back from its header. -/
theorem contentLength_contentHeaders (sent : Option StatusType) :
    (⟨sent, contentHeaders content type, content⟩ : Reply).contentLength = some content.length := by
  have hnumber : number (decimal content.length) = some (false, content.length) := by
    rw [← List.append_nil (decimal content.length)]
    exact number_decimal (by simp)
  have hfind : (contentHeaders content type).find? (fun h => h.name = "Content-Length".toList) =
      some ⟨"Content-Length".toList, decimal content.length⟩ := List.find?_cons_of_pos (by simp)
  rw [Reply.contentLength, hfind, Option.bind_eq_bind, Option.bind_some]
  dsimp only
  rw [hnumber]
  rfl

end Content

theorem stockReply_plain (status : StatusType) : ∀ h ∈ (stockReply status).headers, h.Plain :=
  fun _ hh => contentHeaders_plain (by simp) hh

/-- Every reply with a status and plain headers is read back from what is sent of it; and so is
every stock reply, with the length of its content. -/
theorem reply_read_back :
    (∀ (r : Reply) (status : StatusType), r.status = some status → (∀ h ∈ r.headers, h.Plain) →
      decode r.bytes = some r) ∧
    ∀ status, ∃ r, decode (stockReply status).bytes = some r ∧ r.contentLength = some r.content.length :=
  ⟨fun _ _ => decode_bytes, fun status => ⟨stockReply status,
    decode_bytes rfl (stockReply_plain status), contentLength_contentHeaders (some status)⟩⟩

/-- A reply with an empty value and a value with a colon, whose content looks like headers and has
an empty line. -/
def misleading : Reply where
  status := some .ok
  headers := [⟨"Server".toList, []⟩, ⟨"Date".toList, "12:00".toList⟩]
  content := "a: b\r\n\r\nc".toList

theorem blank_lines_read_back : decode misleading.bytes = some misleading := by
  refine reply_read_back.1 misleading .ok rfl fun h hh => ?_
  simp only [misleading, List.mem_cons, List.not_mem_nil, or_false] at hh
  rcases hh with rfl | rfl <;> exact ⟨by simp, by simp⟩

end Client

end Robotd.Slaves
