import Robotd.Slaves.Reply

/-!
# What the request handler makes of a reply

`handle_request` assigns the whole reply when the file cannot be opened and fills it in where it
stands when it can. The first keeps nothing of the reply that was there and the second keeps its
content; and the second gives the type of the content as a number. `wellFormed_iff` says that this
is all that separates them.
-/

namespace Robotd.Slaves

open Lib.CLib

/-- What a reply is to be, when the file has this outcome: it has the bytes of the file, or of the
page that says that there is none, and the two headers, in characters that can be printed. -/
structure Reply.Answers (r : Reply) (file : Option (List Char)) : Prop where
  content : r.content = file.getD StatusType.notFound.stockContent.toList
  headers : ∃ type, r.headers =
    [⟨"Content-Length".toList, decimal r.content.length⟩, ⟨"Content-Type".toList, type⟩]
  printable : ∀ h ∈ r.headers, ∀ c ∈ h.name ++ h.value, isCntrl c = false

/-- The reply to a request is an answer, and the same whatever was there before. -/
structure WellFormed (file : Option (List Char)) (req : Request) (rep : Reply) : Prop where
  selfContained : ∀ rep', handleRequest file req rep' = handleRequest file req rep
  answers : (handleRequest file req rep).Answers file

variable {file : Option (List Char)} {req : Request} {rep : Reply} {content type : List Char}

/-! ## The loop -/

/-- The chunks are all of the file, whatever is left for the last. -/
theorem appendFile_eq (content bytes : List Char) : appendFile content bytes = content ++ bytes := by
  induction content, bytes using appendFile.induct with
  | case1 content =>
      rw [appendFile, if_pos rfl, List.append_nil]
  | case2 content bytes hne ih =>
      rw [appendFile, if_neg hne, ih, List.append_assoc, List.take_append_drop]

/-! ## The headers -/

/-- Of the two headers only the type can have a control character. -/
theorem printable_contentHeaders_iff :
    (∀ h ∈ contentHeaders content type, ∀ c ∈ h.name ++ h.value, isCntrl c = false) ↔
      ∀ c ∈ type, isCntrl c = false := by
  have hnames : ∀ c ∈ "Content-Length".toList ++ "Content-Type".toList, isCntrl c = false := by
    simp [isCntrl]
  constructor
  · intro hprintable c hc
    exact hprintable ⟨"Content-Type".toList, type⟩ (by simp [contentHeaders]) c
      (List.mem_append_right _ hc)
  · intro htype h hh c hc
    rw [contentHeaders, List.mem_pair] at hh
    rcases hh with rfl | rfl
    · rcases List.mem_append.mp hc with hname | hvalue
      · exact hnames c (List.mem_append_left _ hname)
      · exact isCntrl_of_isDigit (isDigit_of_mem_decimal hvalue)
    · rcases List.mem_append.mp hc with hname | hvalue
      · exact hnames c (List.mem_append_right _ hname)
      · exact htype c hvalue

/-! ## The two branches -/

/-- With the file the content grows by it. -/
theorem handleRequest_some (bytes : List Char) : handleRequest (some bytes) req rep =
    ⟨some .ok, contentHeaders (rep.content ++ bytes) [Char.ofNat 1], rep.content ++ bytes⟩ := by
  rw [handleRequest, appendFile_eq]

/-- Whatever was there before, the headers are the two of the content. -/
theorem headers_handleRequest (file : Option (List Char)) (req : Request) (rep : Reply) :
    ∃ type, (handleRequest file req rep).headers =
      contentHeaders (handleRequest file req rep).content type := by
  cases file with
  | none => exact ⟨_, rfl⟩
  | some bytes => exact ⟨_, rfl⟩

/-- The content is what is asked for, but for what was there before. -/
theorem content_handleRequest_iff : (handleRequest file req rep).content =
    file.getD StatusType.notFound.stockContent.toList ↔ file = none ∨ rep.content = [] := by
  cases file with
  | none => exact iff_of_true rfl (.inl rfl)
  | some bytes => simp [handleRequest_some]

/-- Nothing of what was there before is left only when the file cannot be opened. -/
theorem selfContained_iff :
    (∀ rep', handleRequest file req rep' = handleRequest file req rep) ↔ file = none := by
  cases file with
  | none => exact iff_of_true (fun _ => rfl) rfl
  | some bytes =>
      refine iff_of_false (fun hsame => ?_) nofun
      -- a longer content before gives a longer content
      have hcontent := congrArg (fun r => r.content.length)
        (hsame ⟨none, [], 'x' :: rep.content⟩)
      simp only [handleRequest_some, List.length_append, List.length_cons] at hcontent
      omega

theorem printable_handleRequest_iff : (∀ h ∈ (handleRequest file req rep).headers,
    ∀ c ∈ h.name ++ h.value, isCntrl c = false) ↔ file = none := by
  cases file with
  | none => exact iff_of_true (printable_contentHeaders_iff.mpr (by simp [isCntrl])) rfl
  | some bytes =>
      rw [handleRequest_some, printable_contentHeaders_iff]
      exact iff_of_false (fun htype => absurd (htype _ List.mem_cons_self) (by decide)) (by simp)

/-! ## The reply -/

/-- The reply is well formed exactly when the file cannot be opened. -/
theorem wellFormed_iff (file : Option (List Char)) (req : Request) (rep : Reply) :
    WellFormed file req rep ↔ file = none := by
  refine ⟨fun h => selfContained_iff.mp h.selfContained, fun hnone => ?_⟩
  exact ⟨selfContained_iff.mpr hnone, content_handleRequest_iff.mpr (.inl hnone),
    headers_handleRequest file req rep, printable_handleRequest_iff.mpr hnone⟩

/-- A reply that has its members as they are constructed, and a file of one byte: the type of the
content is a control character. -/
theorem type_not_printable : ¬ WellFormed (some ['x']) ⟨[], 0⟩ .fresh := by
  intro h
  have htype := h.answers.printable ⟨"Content-Type".toList, [Char.ofNat 1]⟩
    (by rw [handleRequest_some, contentHeaders]; simp) (Char.ofNat 1) (by simp)
  exact absurd htype (by decide)

end Robotd.Slaves
