import Robotd.Slaves.Answers
import Robotd.Slaves.Printed

/-!
# A client and the server

What the client prints of a reply (`transcript_bytes`): of one with the code 200 the headers and the
content, and of others the code. A reply without headers has no empty line of its own that the
client would find. All that the server writes has headers, so the client prints the files that it
serves as they are, in whatever pieces they come (`always_shown`).
-/

namespace Robotd.Slaves

open Lib Lib.CLib

/-- The status that is sent. -/
def Reply.sent (r : Reply) : StatusType := r.status.getD .internalServerError

/-- What a client is to print of a reply. -/
def Reply.shown (r : Reply) : List Char :=
  if r.sent = .ok then
    r.headers.flatMap (fun h => h.name ++ nameValueSeparator ++ h.value ++ crlf) ++ ['\n'] ++ r.content
  else
    "Response returned with status code ".toList ++ decimal r.sent.code ++ ['\n']

namespace Client

variable {r : Reply}

/-! ## The request -/

/-- The lines that the constructor forms, each with its `\r`. -/
def requestLines (server path : List Char) : List (List Char) :=
  ["GET ".toList ++ path ++ " HTTP/1.0".toList ++ ['\r'], "Host: ".toList ++ server ++ ['\r'],
    "Accept: */*".toList ++ ['\r'], "Connection: close".toList ++ ['\r']]

theorem requestText_eq (server path : List Char) : requestText server path =
    (requestLines server path).flatMap (· ++ ['\n']) ++ (['\r'] ++ '\n' :: []) := by
  simp only [requestText, requestLines, crlf, List.flatten_cons, List.flatten_nil, List.flatMap_cons,
    List.flatMap_nil, List.append_assoc, List.cons_append, List.nil_append]

/-- The request has these lines and nothing after them exactly when neither argument has a
newline. -/
theorem request_lines_iff (server path : List Char) :
    readHeaders (requestText server path) = (requestLines server path, []) ↔
      '\n' ∉ server ∧ '\n' ∉ path := by
  constructor
  · intro hlines
    have hrecord : ∀ line ∈ requestLines server path, '\n' ∉ line := by
      intro line hline
      rw [readHeaders] at hlines
      exact not_mem_record (by rw [hlines]; exact hline)
    refine ⟨fun hserver => ?_, fun hpath => ?_⟩
    · exact hrecord ("Host: ".toList ++ server ++ ['\r']) (by simp [requestLines]) (by simp [hserver])
    · exact hrecord ("GET ".toList ++ path ++ " HTTP/1.0".toList ++ ['\r']) (by simp [requestLines])
        (by simp [hpath])
  · rintro ⟨hserver, hpath⟩
    rw [requestText_eq]
    refine recordsUntil_flatMap (by decide) (fun line hline => ?_) []
    simp only [requestLines, List.mem_cons, List.not_mem_nil, or_false] at hline
    rcases hline with rfl | rfl | rfl | rfl <;> simp [hserver, hpath]

/-! ## The reply -/

/-- The status line that is sent is a line of several words. -/
theorem cut_bytes (r : Reply) : ∃ line rest, cut crlf r.bytes = some (line, rest) ∧ TwoWords line := by
  obtain ⟨message, hmessage, hstatus⟩ := statusString_eq r.sent
  obtain ⟨digit, digits, hdigits⟩ := List.exists_cons_of_ne_nil (decimal_ne_nil r.sent.code)
  have hdigit : ∀ c ∈ decimal r.sent.code, isSpace c = false ∧ c ≠ '\n' := by
    intro c hc
    have hspace := (isSpace_of_isDigit (isDigit_of_mem_decimal hc)).1
    refine ⟨hspace, ?_⟩
    rintro rfl
    exact absurd hspace (by decide)
  let line := "HTTP/1.0".toList ++ ' ' :: (decimal r.sent.code ++ ' ' :: message)
  have hline : '\n' ∉ line := by
    have hcode : '\n' ∉ decimal r.sent.code := fun hmem => (hdigit '\n' hmem).2 rfl
    simp [line, hcode, hmessage]
  have htwo : TwoWords line := by
    refine ⟨digit, ?_, (hdigit digit (by simp [hdigits])).1⟩
    rw [extractWord_append (by decide) (by decide), hdigits]
    simp
  have hbytes : r.bytes = line ++ crlf ++ ((r.headers.map headerLine).flatMap (· ++ ['\n']) ++
      (['\r'] ++ '\n' :: r.content)) := by
    rw [bytes_eq, toBuffer, ← Reply.sent, hstatus]
    simp [line, crlf]
  exact ⟨line, _, hbytes ▸ cut_append_last (s := ['\r']) (by decide) hline _, htwo⟩

/-- Replies come in any pieces. -/
theorem steady_bytes (r : Reply) : Steady r.bytes := by
  refine steady_of_lines fun line rest hcut => ?_
  obtain ⟨line', rest', hcut', htwo⟩ := cut_bytes r
  rw [hcut] at hcut'
  obtain ⟨rfl, -⟩ := Prod.mk.inj (Option.some.inj hcut')
  exact .inl htwo

/-- What comes after the status line has an empty line when there are headers, or else when the
content makes one. -/
theorem blank_line_iff {headers : List Header} {content : List Char} :
    crlf ++ crlf <:+: (headers.map headerLine).flatMap (· ++ ['\n']) ++ (['\r'] ++ '\n' :: content) ↔
      headers ≠ [] ∨ crlf ++ crlf <:+: crlf ++ content := by
  rcases List.eq_nil_or_concat headers with rfl | ⟨first, h, rfl⟩
  · simp [crlf]
  · refine iff_of_true ?_ (.inl (by simp))
    exact ⟨(first.map headerLine).flatMap (· ++ ['\n']) ++ (h.name ++ nameValueSeparator ++ h.value),
      content, by simp [headerLine, crlf]⟩

/-- The client prints what it is to print of a reply, but for the content of one without headers in
which it finds no empty line. -/
theorem transcript_bytes (hplain : ∀ h ∈ r.headers, h.Plain) : transcript r.bytes =
    if r.sent = .ok ∧ r.headers = [] ∧ ¬ crlf ++ crlf <:+: crlf ++ r.content then
      errorLine Failure.eof.shown
    else
      r.shown := by
  obtain ⟨line, rest, hcut, -⟩ := cut_bytes r
  have hline : crlf <:+: r.bytes :=
    (isSome_cut_iff (by simp [crlf])).mp (by rw [hcut, Option.isSome_some])
  obtain ⟨status, hread, hcode⟩ := readStatusLine_append r.sent
    ((r.headers.map headerLine).flatMap (· ++ ['\n']) ++ (['\r'] ++ '\n' :: r.content))
  have hbytes : readStatusLine r.bytes = some (status, (r.headers.map headerLine).flatMap (· ++ ['\n']) ++
      (['\r'] ++ '\n' :: r.content)) := by
    rw [bytes_eq]
    exact hread
  by_cases hok : r.sent = .ok
  · have h200 : status.statusCode = 200 := by
      rw [hcode, hok]
      rfl
    rw [transcript_rest hline hbytes h200, shownRest, readHeaders_append hplain, Reply.shown, if_pos hok]
    by_cases hblank : r.headers ≠ [] ∨ crlf ++ crlf <:+: crlf ++ r.content
    · rw [if_pos (blank_line_iff.mpr hblank), if_neg]
      · simp [shownContent, List.flatMap_map, headerLine, crlf]
      · rintro ⟨-, hnil, hno⟩
        exact hblank.elim (fun h => h hnil) hno
    · rw [if_neg (fun h => hblank (blank_line_iff.mp h))]
      rw [not_or, not_not] at hblank
      rw [if_pos ⟨hok, hblank⟩]
  · have hnot : status.statusCode ≠ 200 := by
      rw [hcode]
      intro heq
      refine hok (Option.some.inj ?_)
      rw [← ofCode_code r.sent, heq]
      rfl
    rw [transcript_status hline hbytes hnot, if_neg (fun h => hok h.1), Reply.shown, if_neg hok, hcode]
    rfl

theorem shown_ne_error (hok : r.sent = .ok) (hnil : r.headers = []) (shown : List Char) :
    errorLine shown ≠ r.shown := by
  intro heq
  have hhead := congrArg List.head? heq
  rw [head?_errorLine, Reply.shown, if_pos hok, hnil] at hhead
  simp at hhead

/-- The client prints what it is to print of a reply, in all runs in which nothing fails, exactly
when the code is another than 200, or there is a header, or the content makes an empty line. -/
theorem prints_shown_iff (r : Reply) (hplain : ∀ h ∈ r.headers, h.Plain) :
    (∀ host path pieces client,
      Machine.run step (construct host path r.bytes) pieces = some client →
      Machine.Along step Orderly (construct host path r.bytes) pieces → client.pending = none →
      client.cout.text = r.shown) ↔
    r.sent ≠ .ok ∨ r.headers ≠ [] ∨ crlf ++ crlf <:+: crlf ++ r.content := by
  constructor
  · intro hshown
    by_contra hno
    obtain ⟨hok, hnil, hblank⟩ : r.sent = .ok ∧ r.headers = [] ∧ ¬ crlf ++ crlf <:+: crlf ++ r.content := by
      simpa [not_or] using hno
    obtain ⟨pieces, client, hrun, halong, hidle, htext⟩ := exists_finish (construct [] [] r.bytes)
    have herror := htext r.bytes rfl (has_construct [] [] r.bytes)
    rw [transcript_bytes hplain, if_pos ⟨hok, hnil, hblank⟩] at herror
    exact shown_ne_error hok hnil _ (herror.symm.trans (hshown [] [] pieces client hrun halong hidle))
  · intro hcondition host path pieces client hrun halong hidle
    have hhas := ((steady_bytes r).always_has halong).last hrun
    rw [hidle] at hhas
    have hnot : ¬ (r.sent = .ok ∧ r.headers = [] ∧ ¬ crlf ++ crlf <:+: crlf ++ r.content) := by
      rintro ⟨hok, hnil, hblank⟩
      rcases hcondition with h | h | h
      · exact h hok
      · exact h hnil
      · exact hblank h
    rw [hhas.2, transcript_bytes hplain, if_neg hnot]

/-- A content of one character is printed with a header before it, and not without. -/
theorem header_decides :
    (∀ host path pieces client,
      Machine.run step (construct host path (⟨some .ok, [⟨['A'], ['b']⟩], ['x']⟩ : Reply).bytes) pieces =
        some client →
      Machine.Along step Orderly (construct host path (⟨some .ok, [⟨['A'], ['b']⟩], ['x']⟩ : Reply).bytes)
        pieces →
      client.pending = none →
        client.cout.text = (⟨some .ok, [⟨['A'], ['b']⟩], ['x']⟩ : Reply).shown) ∧
    ¬ ∀ host path pieces client,
      Machine.run step (construct host path (⟨some .ok, [], ['x']⟩ : Reply).bytes) pieces = some client →
      Machine.Along step Orderly (construct host path (⟨some .ok, [], ['x']⟩ : Reply).bytes) pieces →
      client.pending = none → client.cout.text = (⟨some .ok, [], ['x']⟩ : Reply).shown := by
  have hplain : ∀ h ∈ [(⟨['A'], ['b']⟩ : Header)], h.Plain := by
    intro h hh
    obtain rfl := List.mem_singleton.mp hh
    exact ⟨by simp, by simp⟩
  refine ⟨(prints_shown_iff ⟨some .ok, [⟨['A'], ['b']⟩], ['x']⟩ hplain).mpr (.inr (.inl nofun)), ?_⟩
  rw [prints_shown_iff ⟨some .ok, [], ['x']⟩ (by simp)]
  decide

end Client

/-! ## The server -/

section Composed

variable {r : Reply} {outcome : TcpServer.Outcome}

theorem Reply.Composed.headers (h : r.Composed outcome) :
    (∀ x ∈ r.headers, x.Plain) ∧ r.headers ≠ [] := by
  cases h with
  | handled req herror hresult => cases outcome.file with
      | none => exact ⟨Client.stockReply_plain .notFound, by simp [handleRequest, stockReply, contentHeaders]⟩
      | some bytes =>
          rw [handleRequest_some]
          exact ⟨fun x hx => Client.contentHeaders_plain (by simp) hx, by simp [contentHeaders]⟩
  | refused herror hresult =>
      exact ⟨Client.stockReply_plain .badRequest, by simp [stockReply, contentHeaders]⟩

/-- The headers of a composed reply make the empty line that the client looks for. -/
theorem Reply.Composed.transcript (h : r.Composed outcome) : Client.transcript r.bytes = r.shown := by
  rw [Client.transcript_bytes h.headers.1, if_neg fun hno => h.headers.2 hno.2.1]

/-- A file is shown after its headers. -/
theorem shown_file (bytes : List Char) (req : Request) : ∃ headers,
    (handleRequest (some bytes) req .fresh).shown = headers ++ ['\n'] ++ bytes := by
  rw [handleRequest_some, Reply.shown]
  exact ⟨_, if_pos rfl⟩

theorem Reply.Composed.shows (h : r.Composed outcome) (hresult : outcome.result = .yes)
    {bytes : List Char} (hfile : outcome.file = some bytes) : ['\n'] ++ bytes <:+ r.shown := by
  cases h with
  | handled req herror hresult' =>
      obtain ⟨headers, hshown⟩ := shown_file bytes req
      rw [hfile]
      exact ⟨headers, by rw [hshown, List.append_assoc]⟩
  | refused herror hrefused =>
      rw [hresult] at hrefused
      cases hrefused

end Composed

namespace TcpServer

/-- Whatever has completed at the server, in whatever order, and in whatever pieces the reply comes
to a client: what is written is the reply to the last read on its connection, and what the client
has printed when it has read all of it is what is to be shown of this reply. Of a file that was
found it ends with the bytes of the file. -/
theorem always_shown {completions : List (Operation × Outcome)} {server : TcpServer}
    (hrun : Machine.run step start completions = some server) {c : ConnectionPtr}
    {buffers : List (List Char)} (hwrite : .write c buffers ∈ server.pending) :
    ∃ outcome, ∃ r : Reply, LastRead completions c outcome ∧ r.Composed outcome ∧
      r.toBuffers = buffers ∧
      (∀ bytes, outcome.result = .yes → outcome.file = some bytes → ['\n'] ++ bytes <:+ r.shown) ∧
      ∀ host path pieces client,
        Machine.run Client.step (Client.construct host path buffers.flatten) pieces = some client →
        Machine.Along Client.step Client.Orderly (Client.construct host path buffers.flatten) pieces →
        client.pending = none → client.cout.text = r.shown := by
  obtain ⟨outcome, r, hlast, hcomposed, rfl⟩ := (answers_run hrun).writes c buffers hwrite
  refine ⟨outcome, r, hlast, hcomposed, rfl, fun bytes hresult => hcomposed.shows hresult, ?_⟩
  intro host path pieces client hrun halong hidle
  have hhas := ((Client.steady_bytes r).always_has halong).last hrun
  rw [hidle] at hhas
  exact hhas.2.trans hcomposed.transcript

/-- The client of the first connection prints the file at the end. -/
theorem found_file_shown : ∃ server buffers,
    Machine.run step start (serving ['o', 'k']) = some server ∧ .write 1 buffers ∈ server.pending ∧
      ∀ host path pieces client,
        Machine.run Client.step (Client.construct host path buffers.flatten) pieces = some client →
        Machine.Along Client.step Client.Orderly (Client.construct host path buffers.flatten) pieces →
        client.pending = none → ['\n', 'o', 'k'] <:+ client.cout.text := by
  have hrun : ∃ server, Machine.run step start (serving ['o', 'k']) = some server ∧
      .write 1 (handleRequest (some ['o', 'k']) ⟨[], 0⟩ .fresh).toBuffers ∈ server.pending :=
    Machine.exists_run (by decide +kernel)
  obtain ⟨server, hrun, hwrite⟩ := hrun
  obtain ⟨outcome, r, hlast, -, -, hfile, hprints⟩ := always_shown hrun hwrite
  obtain rfl := last_serving hlast
  refine ⟨server, _, hrun, hwrite, fun host path pieces client hclient halong hidle => ?_⟩
  rw [hprints host path pieces client hclient halong hidle]
  exact hfile ['o', 'k'] rfl rfl

end TcpServer

end Robotd.Slaves
