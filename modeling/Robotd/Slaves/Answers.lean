import Robotd.Slaves.Client
import Robotd.Slaves.RequestHandler
import Robotd.Slaves.Stages

/-!
# What the server answers

A connection has its reply composed once, and up to then the reply is as it was constructed. So the
content that `handle_request` keeps is empty whenever the server calls it. What is written to a
client is the reply to the read that has completed last on its connection: the bytes of the file
that was found and no more, or the page that says that there is none, or that the request is none
(`always_answers`).
-/

namespace Robotd.Slaves

open Lib

/-- A reply to a read that has completed in this way: there is no such file, here it is, or the
request is none. -/
inductive Reply.Composed (outcome : TcpServer.Outcome) : Reply → Prop where
  | handled (req : Request) (herror : outcome.error = none) (hresult : outcome.result = .yes) :
      Composed outcome (handleRequest outcome.file req .fresh)
  | refused (herror : outcome.error = none) (hresult : outcome.result = .no) :
      Composed outcome (stockReply .badRequest)

/-- Such a reply is read back from what is sent of it. -/
theorem Reply.Composed.decode {outcome : TcpServer.Outcome} {r : Reply} (h : r.Composed outcome) :
    Client.decode r.bytes = some r := by
  cases h with
  | handled req herror hresult => cases outcome.file with
      | none => exact Client.decode_bytes rfl (Client.stockReply_plain .notFound)
      | some bytes =>
          rw [handleRequest_some]
          exact Client.decode_bytes rfl fun h => Client.contentHeaders_plain (by simp)
  | refused herror hresult => exact Client.decode_bytes rfl (Client.stockReply_plain .badRequest)

/-- A connection that reads has had no reply composed. -/
theorem Stage.count_modified {l : List Happening} {stage : Stage} (h : afterAll l unborn = some stage) :
    l.count .modified =
      if stage = composed ∨ stage = writing ∨ stage = answered then 1 else 0 := by
  refine count_of_after
    (f := fun stage => if stage = composed ∨ stage = writing ∨ stage = answered then 1 else 0) rfl ?_ h
  intro stage o stage' hafter
  cases stage <;> cases o <;> cases hafter <;> rfl

namespace TcpServer

/-- Of what has completed, the last on the socket of the connection is a read, in this way. -/
def LastRead (past : List (Operation × Outcome)) (c : ConnectionPtr) (outcome : Outcome) : Prop :=
  ∃ before since, past = before ++ (.readSome c, outcome) :: since ∧ ∀ x ∈ since, x.1.peer ≠ c

variable {s s' : TcpServer} {c : ConnectionPtr} {past : List (Operation × Outcome)}
  {op : Operation} {outcome : Outcome}

theorem LastRead.concat (h : LastRead past c outcome) {other : Outcome} (hop : op.peer ≠ c) :
    LastRead (past ++ [(op, other)]) c outcome := by
  obtain ⟨before, since, rfl, hsince⟩ := h
  refine ⟨before, since ++ [(op, other)], by simp, fun x hx => ?_⟩
  rcases List.mem_append.mp hx with hold | hnew
  · exact hsince x hold
  · rw [List.mem_singleton.mp hnew]
    exact hop

/-- What has completed last on the connection is the only such read. -/
theorem LastRead.eq {last : Outcome} (h : LastRead (past ++ [(.readSome c, last)]) c outcome) :
    outcome = last := by
  obtain ⟨before, since, heq, hsince⟩ := h
  cases since using List.reverseRecOn with
  | nil =>
      obtain ⟨-, hread⟩ := List.append_inj' heq rfl
      cases hread
      rfl
  | append_singleton since x =>
      rw [← List.cons_append, ← List.append_assoc] at heq
      obtain ⟨-, hx⟩ := List.append_inj' heq rfl
      refine absurd ?_ (hsince x (by simp))
      cases hx
      rfl

/-- Replies are as they are constructed until they are composed, and all that is written is a reply
to the last read. -/
structure Answers (past : List (Operation × Outcome)) (s : TcpServer) : Prop where
  fresh : ∀ c connection, s.connections c = some connection → (c, .modified) ∉ s.trace →
    connection.reply = .fresh
  writes : ∀ c buffers, .write c buffers ∈ s.pending → ∃ outcome, ∃ r : Reply,
    LastRead past c outcome ∧ r.Composed outcome ∧ r.toBuffers = buffers

/-- No reply is composed from `s` to `s'`, though connections may come and go. -/
structure Untouched (s s' : TcpServer) : Prop where
  replies : ∀ c connection', s'.connections c = some connection' → connection'.reply = .fresh ∨
    ∃ connection, s.connections c = some connection ∧ connection'.reply = connection.reply
  writes : ∀ c buffers, .write c buffers ∈ s'.pending → .write c buffers ∈ s.pending
  trace : s.trace ⊆ s'.trace

theorem Answers.untouched (h : Answers past s) (hs : Untouched s s') : Answers past s' where
  fresh c connection' hconnection' hnot := by
    rcases hs.replies c connection' hconnection' with hfresh | ⟨connection, hconnection, hsame⟩
    · exact hfresh
    · exact hsame.trans (h.fresh c connection hconnection fun hmem => hnot (hs.trace hmem))
  writes c buffers hmem := h.writes c buffers (hs.writes c buffers hmem)

theorem Untouched.trans {s'' : TcpServer} (h : Untouched s s') (h' : Untouched s' s'') :
    Untouched s s'' where
  replies c connection'' hconnection'' := by
    rcases h'.replies c connection'' hconnection'' with hfresh | ⟨connection', hconnection', hsame'⟩
    · exact .inl hfresh
    · rcases h.replies c connection' hconnection' with hfresh | ⟨connection, hconnection, hsame⟩
      · exact .inl (hsame'.trans hfresh)
      · exact .inr ⟨connection, hconnection, hsame'.trans hsame⟩
  writes c buffers hmem := h.writes c buffers (h'.writes c buffers hmem)
  trace := List.Subset.trans h.trace h'.trace

/-- What changes no connection and starts no write. -/
theorem untouched_of_eq (hconnections : s'.connections = s.connections)
    (hpending : s'.pending ⊆ s.pending ++ [.readSome c]) (htrace : s.trace ⊆ s'.trace) :
    Untouched s s' where
  replies d connection' hconnection' := .inr ⟨connection', hconnections ▸ hconnection', rfl⟩
  writes d buffers hmem := by
    rcases List.mem_append.mp (hpending hmem) with hold | hread
    · exact hold
    · cases List.mem_singleton.mp hread
  trace := htrace

theorem untouched_note (what : Happening) : Untouched s (s.note c what) :=
  untouched_of_eq (c := c) rfl (List.subset_append_left _ _) (List.subset_append_left _ _)

theorem untouched_collect : Untouched s s.collect where
  replies c connection' hconnection' := by
    by_cases hheld : c = s.newConnection ∨ s.pending.any (·.holds c) = true
    · exact .inr ⟨connection', (if_pos hheld).symm.trans hconnection', rfl⟩
    · cases (if_neg hheld).symm.trans hconnection'
  writes _ _ := id
  trace := List.Subset.refl _

theorem untouched_startAccept : Untouched s s.startAccept where
  replies c connection' hconnection' := by
    by_cases hc : c = s.size
    · have hnew : s.startAccept.connections s.size = some ⟨⟨[], 0⟩, .fresh, false⟩ :=
        Function.update_self ..
      rw [hc, hnew] at hconnection'
      cases hconnection'
      exact .inl rfl
    · rw [startAccept_connections hc] at hconnection'
      exact .inr ⟨connection', hconnection', rfl⟩
  writes c buffers hmem := by
    have hpending : s.startAccept.pending = s.pending ++ [.accept s.size] := rfl
    rw [hpending] at hmem
    rcases List.mem_append.mp hmem with hold | hnew
    · exact hold
    · cases List.mem_singleton.mp hnew
  trace := by
    rw [startAccept_trace]
    exact List.subset_append_left _ _

theorem untouched_asyncReadSome (h : s.asyncReadSome c = some s') : Untouched s s' := by
  obtain ⟨connection, -, hread⟩ := Option.bind_eq_some_iff.mp h
  cases hread
  exact untouched_of_eq (c := c) rfl (List.Subset.refl _) (List.subset_append_left _ _)

/-! ## The handlers -/

theorem untouched_accept (h : s.handle outcome (.accept c) = some s') : Untouched s s' := by
  obtain ⟨error, bytes, result, file⟩ := outcome
  cases error with
  | some e =>
      obtain rfl : (s.note c .refused).startAccept = s' := Option.some.inj h
      exact (untouched_note _).trans untouched_startAccept
  | none =>
      obtain ⟨mid, hmid, hlast⟩ := Option.bind_eq_some_iff.mp h
      have hstarted : Untouched s mid :=
        ((untouched_note _).trans (untouched_note _)).trans (untouched_asyncReadSome hmid)
      obtain rfl : mid.startAccept = s' := Option.some.inj hlast
      exact hstarted.trans untouched_startAccept

theorem untouched_write {buffers : List (List Char)}
    (h : s.handle outcome (.write c buffers) = some s') : Untouched s s' := by
  obtain ⟨error, bytes, result, file⟩ := outcome
  rw [handle, handleWrite.eq_def] at h
  cases error with
  | some e =>
      obtain rfl := Option.some.inj h
      exact untouched_note _
  | none =>
      obtain ⟨connection, hconnection, hlast⟩ := Option.bind_eq_some_iff.mp h
      obtain rfl := Option.some.inj hlast
      refine ⟨fun d connection' hconnection' => ?_, fun d written => id, List.subset_append_left _ _⟩
      dsimp only at hconnection'
      by_cases hd : d = c
      · rw [hd, Function.update_self] at hconnection'
        cases hconnection'
        exact .inr ⟨connection, hd ▸ hconnection, rfl⟩
      · rw [Function.update_of_ne hd] at hconnection'
        exact .inr ⟨connection', hconnection', rfl⟩

/-- The connection of an operation that completes writes nothing, so the writes that are left answer
what they did. -/
theorem Answers.complete (h : Answers past s) (hkept : s.Kept) (hop : op ∈ s.pending) :
    Answers (past ++ [(op, outcome)]) (s.complete op) where
  fresh := h.fresh
  writes d buffers hmem := by
    obtain ⟨stage, -, -, hone, -⟩ := (hkept.stands op.peer).of_pending hop rfl
    have hne : op.peer ≠ d := by
      intro hd
      have hpending : (s.complete op).pending = s.pending.erase op ++ [] := (List.append_nil _).symm
      have hops : (s.complete op).operations d = [] := by
        rw [operations_erase hpending hone nofun, if_pos hd.symm]
      have hwrite : .write d buffers ∈ (s.complete op).operations d := mem_operations.mpr ⟨hmem, rfl⟩
      rw [hops] at hwrite
      cases hwrite
    obtain ⟨read, r, hlast, hcomposed, hbuffers⟩ := h.writes d buffers (List.mem_of_mem_erase hmem)
    exact ⟨read, r, hlast.concat hne, hcomposed, hbuffers⟩

/-- A reply that is composed from a new one is the answer to the read. -/
theorem Answers.reply {connection : Connection} {f : Request → Reply → Reply}
    (h : Answers past s) (hlast : LastRead past c outcome)
    (hconnection : s.connections c = some connection) (hfresh : connection.reply = .fresh)
    (hcomposed : (f connection.request .fresh).Composed outcome)
    (hs' : (s.setReply c f >>= fun s => s.asyncWrite c) = some s') : Answers past s' := by
  rw [write_eq hconnection] at hs'
  obtain rfl := Option.some.inj hs'
  refine ⟨fun d connection' hconnection' hclean => ?_, fun d buffers hmem => ?_⟩
  · have hd : d ≠ c := by
      rintro rfl
      exact hclean (by simp)
    refine h.fresh d connection' ((Function.update_of_ne hd ..).symm.trans hconnection') ?_
    exact fun hmem => hclean (by simp [hmem])
  · rcases List.mem_append.mp hmem with hold | hnew
    · exact h.writes d buffers hold
    · cases List.mem_singleton.mp hnew
      refine ⟨outcome, f connection.request connection.reply, hlast, ?_, rfl⟩
      rw [hfresh]
      exact hcomposed

/-- The reply of a connection that reads is composed from a new one. -/
theorem answers_read (hkept : s.Kept) (h : Answers past s) (hop : .readSome c ∈ s.pending)
    (hhandle : (s.complete (.readSome c)).handle outcome (.readSome c) = some s') :
    Answers (past ++ [(.readSome c, outcome)]) s' := by
  obtain ⟨hstage, -, halive⟩ := read_of_pending hkept hop
  obtain ⟨connection, hconnection⟩ := Option.isSome_iff_exists.mp halive
  have hhere : ((s.complete (.readSome c)).note c .received).connections c = some connection :=
    hconnection
  have hnot : (c, Happening.modified) ∉ s.trace := by
    rw [← mem_happened, ← List.count_eq_zero, Stage.count_modified hstage]
    rfl
  have hfresh : connection.reply = .fresh := h.fresh c connection hconnection hnot
  have hreceived : Answers (past ++ [(.readSome c, outcome)])
      ((s.complete (.readSome c)).note c .received) :=
    (h.complete hkept hop).untouched (untouched_note _)
  have hlast : LastRead (past ++ [(.readSome c, outcome)]) c outcome := ⟨past, [], rfl, nofun⟩
  obtain ⟨error, bytes, result, file⟩ := outcome
  rw [handle, handleRead.eq_def] at hhandle
  cases error with
  | some e =>
      obtain rfl := Option.some.inj hhandle
      exact hreceived
  | none => cases result with
      | yes => exact hreceived.reply hlast hhere hfresh (.handled _ rfl rfl) hhandle
      | no =>
          exact hreceived.reply (f := fun _ _ => stockReply .badRequest) hlast hhere hfresh
            (.refused rfl rfl) hhandle
      | indeterminate => exact hreceived.untouched (untouched_asyncReadSome hhandle)

theorem answers_step (hkept : s.Kept) (h : Answers past s) (hstep : s.step (op, outcome) = some s') :
    Answers (past ++ [(op, outcome)]) s' := by
  rw [step] at hstep
  split at hstep
  · rename_i hop
    obtain ⟨mid, hhandle, hlast⟩ := Option.bind_eq_some_iff.mp hstep
    obtain rfl := Option.some.inj hlast
    refine Answers.untouched ?_ untouched_collect
    cases op with
    | accept c => exact (h.complete hkept hop).untouched (untouched_accept hhandle)
    | readSome c => exact answers_read hkept h hop hhandle
    | write c buffers => exact (h.complete hkept hop).untouched (untouched_write hhandle)
  · cases hstep

theorem answers_start : Answers [] start := by
  have hconstructed : Answers [] constructed := by
    refine ⟨fun c connection hconnection _ => ?_, fun c buffers hmem => absurd hmem List.not_mem_nil⟩
    by_cases hc : c = 0
    · subst hc
      cases hconnection
      rfl
    · cases (Function.update_of_ne hc ..).symm.trans hconnection
  exact (hconstructed.untouched untouched_startAccept).untouched untouched_collect

/-! ## Runs -/

variable {completions : List (Operation × Outcome)} {server : TcpServer}

/-- Whatever completes, in whatever order and however: all that is written are replies to the
reads. -/
theorem answers_run (hrun : Machine.run step start completions = some server) :
    Answers completions server := by
  have hboth : server.Kept ∧ Answers completions server := by
    refine Machine.run_invariant (I := fun past s => Kept s ∧ Answers past s)
      ⟨kept_start, answers_start⟩ ?_ hrun
    rintro past s ⟨op, outcome⟩ s' ⟨hkept, hanswers⟩ hstep
    exact ⟨hkept.next hstep, answers_step hkept hanswers hstep⟩
  exact hboth.2

/-- What is written to a client is, buffer by buffer, the reply to the last read on its connection:
that its request is none, or that to the request with the file that was found. The client reads it
back. -/
theorem always_answers (hrun : Machine.run step start completions = some server)
    {buffers : List (List Char)} (hwrite : .write c buffers ∈ server.pending) :
    ∃ outcome, ∃ r : Reply, LastRead completions c outcome ∧ r.Composed outcome ∧
      r.toBuffers = buffers ∧ Client.decode buffers.flatten = some r := by
  obtain ⟨outcome, r, hlast, hcomposed, rfl⟩ := (answers_run hrun).writes c buffers hwrite
  exact ⟨outcome, r, hlast, hcomposed, rfl, hcomposed.decode⟩

/-- Two clients, and a request of the first in two pieces, for a file of these bytes. -/
def serving (file : List Char) : List (Operation × Outcome) :=
  [(.accept 1, ⟨none, 0, .indeterminate, none⟩), (.readSome 1, ⟨none, 7, .indeterminate, none⟩),
    (.accept 2, ⟨none, 0, .indeterminate, none⟩), (.readSome 1, ⟨none, 9, .yes, some file⟩)]

theorem last_serving {file : List Char} (h : LastRead (serving file) 1 outcome) :
    outcome = ⟨none, 9, .yes, some file⟩ := by
  have hlast : LastRead ((serving file).take 3 ++ [(.readSome 1, ⟨none, 9, .yes, some file⟩)]) 1 outcome :=
    h
  exact hlast.eq

/-- The first is sent the file. -/
theorem found_file_answered : ∃ server buffers req,
    Machine.run step start (serving ['o', 'k']) = some server ∧ .write 1 buffers ∈ server.pending ∧
      Client.decode buffers.flatten = some (handleRequest (some ['o', 'k']) req .fresh) := by
  have hrun : ∃ server, Machine.run step start (serving ['o', 'k']) = some server ∧
      .write 1 (handleRequest (some ['o', 'k']) ⟨[], 0⟩ .fresh).toBuffers ∈ server.pending :=
    Machine.exists_run (by decide +kernel)
  obtain ⟨server, hrun, hwrite⟩ := hrun
  obtain ⟨outcome, r, hlast, hcomposed, -, hdecode⟩ := always_answers hrun hwrite
  obtain rfl := last_serving hlast
  cases hcomposed with
  | handled req herror hresult => exact ⟨server, _, req, hrun, hwrite, hdecode⟩
  | refused herror hresult => cases hresult

end TcpServer

end Robotd.Slaves
