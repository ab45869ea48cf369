import Robotd.Slaves.TcpServer

/-!
# The stages of a connection

What a server does to its connections, connection by connection. `Stage` is what one of them goes
through; `Kept` says that each has gone through its stages so far and has the pending operation of
the stage that it has reached. Every handler keeps this (`kept_step`), whatever the order in which
the operations complete, and `orderly` reads off what holds of the server.
-/

namespace Robotd.Slaves

open Lib

/-! ## The life of one connection -/

/-- A connection before it is constructed, in `new_connection_`, offered to the acceptor, with a
client, started and reading; or without a client; forgotten by the server; reading, with what it has
read, with a reply to it, writing the reply, and with the reply written. -/
inductive Stage where
  | unborn
  | slotted
  | offered
  | accepted
  | started
  | begun
  | refused
  | dropped
  | reading
  | received
  | composed
  | writing
  | answered
  deriving DecidableEq, Repr

def Stage.after : Stage → Happening → Option Stage
  | unborn, .constructed => some slotted
  | slotted, .accepting => some offered
  | slotted, .replaced => some dropped
  | offered, .accepted => some accepted
  | offered, .refused => some refused
  | accepted, .started => some started
  | started, .reading => some begun
  | begun, .replaced => some reading
  | refused, .replaced => some dropped
  | reading, .received => some received
  | received, .reading => some reading
  | received, .modified => some composed
  | composed, .writing => some writing
  | writing, .written => some answered
  | _, _ => none

namespace Stage

/-- The stage after all of this. -/
def afterAll (l : List Happening) (stage : Stage) : Option Stage := l.foldlM after stage

theorem afterAll_append (l l' : List Happening) (stage : Stage) :
    afterAll (l ++ l') stage = afterAll l stage >>= afterAll l' :=
  List.foldlM_append

theorem afterAll_concat (l : List Happening) (what : Happening) (stage : Stage) :
    afterAll (l ++ [what]) stage = afterAll l stage >>= fun mid => mid.after what := by
  rw [afterAll_append]
  refine congrArg _ (funext fun mid => ?_)
  rw [afterAll, List.foldlM_cons]
  cases mid.after what <;> rfl

/-- The connection has been started. -/
def hasStarted : Stage → Bool
  | started | begun | reading | received | composed | writing | answered => true
  | _ => false

variable {l : List Happening} {stage : Stage}

/-- A number that each stage has, and that goes up with one kind of happening only. -/
theorem count_of_after {what : Happening} {f : Stage → Nat} (hstart : f unborn = 0)
    (hafter : ∀ stage o stage', Stage.after stage o = some stage' →
      f stage' = f stage + [o].count what)
    (h : afterAll l unborn = some stage) : l.count what = f stage := by
  induction l using List.reverseRecOn generalizing stage with
  | nil =>
      cases h
      exact hstart.symm
  | append_singleton l o ih =>
      rw [afterAll_concat] at h
      obtain ⟨mid, hmid, hlast⟩ := Option.bind_eq_some_iff.mp h
      rw [List.count_append, ih hmid, hafter mid o stage hlast]

theorem count_started (h : afterAll l unborn = some stage) :
    l.count .started = if stage.hasStarted then 1 else 0 := by
  refine count_of_after (f := fun stage => if stage.hasStarted then 1 else 0) rfl ?_ h
  intro stage o stage' hafter
  cases stage <;> cases o <;> cases hafter <;> rfl

theorem count_accepted (h : afterAll l unborn = some stage) :
    l.count .accepted = if stage.hasStarted ∨ stage = accepted then 1 else 0 := by
  refine count_of_after (f := fun stage => if stage.hasStarted ∨ stage = accepted then 1 else 0)
    rfl ?_ h
  intro stage o stage' hafter
  cases stage <;> cases o <;> cases hafter <;> rfl

theorem count_writing (h : afterAll l unborn = some stage) :
    l.count .writing = if stage = writing ∨ stage = answered then 1 else 0 := by
  refine count_of_after (f := fun stage => if stage = writing ∨ stage = answered then 1 else 0)
    rfl ?_ h
  intro stage o stage' hafter
  cases stage <;> cases o <;> cases hafter <;> rfl

/-- What has happened to a connection up to its client. -/
def history : Stage → Option (List Happening)
  | unborn => some []
  | slotted => some [.constructed]
  | offered => some [.constructed, .accepting]
  | accepted => some [.constructed, .accepting, .accepted]
  | _ => none

theorem eq_history {past : List Happening} (h : afterAll l unborn = some stage)
    (hpast : stage.history = some past) : l = past := by
  induction l using List.reverseRecOn generalizing stage past with
  | nil =>
      cases h
      cases hpast
      rfl
  | append_singleton l o ih =>
      rw [afterAll_concat] at h
      obtain ⟨mid, hmid, hlast⟩ := Option.bind_eq_some_iff.mp h
      cases mid <;> cases o <;> cases hlast <;> cases hpast <;> rw [ih hmid rfl] <;> rfl

/-- A connection is started when a client has been accepted, and the server still has it. -/
theorem before_started (h : afterAll l unborn = some stage) (hstarted : stage.after .started ≠ none) :
    l = [.constructed, .accepting, .accepted] := by
  refine eq_history h ?_
  cases stage with
  | accepted => rfl
  | _ => exact absurd rfl hstarted

/-- Nothing happens to a connection that writes but that the write completes. -/
theorem after_writing (h : afterAll l writing = some stage) : l = [] ∨ l = [.written] := by
  cases l with
  | nil => exact .inl rfl
  | cons o rest =>
      rw [afterAll, List.foldlM_cons] at h
      obtain ⟨mid, hmid, hrest⟩ := Option.bind_eq_some_iff.mp h
      cases o <;> cases hmid
      cases rest with
      | nil => exact .inr rfl
      | cons o rest =>
          rw [List.foldlM_cons] at hrest
          obtain ⟨last, hlast, -⟩ := Option.bind_eq_some_iff.mp hrest
          cases o <;> cases hlast

end Stage

/-! ## All connections -/

/-- What has happened to this connection. -/
def happened (trace : List (ConnectionPtr × Happening)) (c : ConnectionPtr) : List Happening :=
  (trace.filter fun x => x.1 = c).map Prod.snd

section Happened

variable {trace trace' : List (ConnectionPtr × Happening)} {c : ConnectionPtr}

theorem happened_append : happened (trace ++ trace') c = happened trace c ++ happened trace' c := by
  simp [happened]

/-- What happens to other connections. -/
theorem happened_eq_nil (h : ∀ x ∈ trace, x.1 ≠ c) : happened trace c = [] := by
  rw [happened, List.filter_eq_nil_iff.mpr fun x hx => by simpa using h x hx, List.map_nil]

theorem mem_happened {what : Happening} : what ∈ happened trace c ↔ (c, what) ∈ trace := by
  simp [happened]

theorem count_happened {what : Happening} : (happened trace c).count what = trace.count (c, what) := by
  induction trace with
  | nil => rfl
  | cons x rest ih =>
      obtain ⟨d, o⟩ := x
      by_cases hd : d = c
      · subst hd
        rw [List.count_cons, ← ih, happened, List.filter_cons_of_pos (by simp), List.map_cons,
          List.count_cons, happened]
        simp
      · rw [List.count_cons, ← ih, happened, List.filter_cons_of_neg (by simpa using hd), happened]
        simp [hd]

end Happened

namespace TcpServer

/-- The pending operations on the socket of a connection. -/
def operations (s : TcpServer) (c : ConnectionPtr) : List Operation :=
  s.pending.filter fun op => op.peer = c

/-- Where a connection stands. -/
def stage (s : TcpServer) (c : ConnectionPtr) : Option Stage :=
  Stage.afterAll (happened s.trace c) .unborn

/-- Between two handlers the connection has the operation of its stage. -/
def Fits (s : TcpServer) (c : ConnectionPtr) : Stage → Prop
  | .offered => c = s.newConnection ∧ s.operations c = [.accept c] ∧ (s.connections c).isSome = true
  | .reading => s.operations c = [.readSome c] ∧ (s.connections c).isSome = true
  | .writing => ∃ connection, s.connections c = some connection ∧
      s.operations c = [.write c connection.reply.toBuffers]
  | .unborn | .dropped | .received | .answered => s.operations c = []
  | _ => False

/-- The connection has gone through stages to one that it fits. -/
def Stands (s : TcpServer) (c : ConnectionPtr) : Prop := ∃ stage, s.stage c = some stage ∧ s.Fits c stage

structure Kept (s : TcpServer) : Prop where
  stands : ∀ c, s.Stands c
  fresh : ∀ c, s.size ≤ c → happened s.trace c = []
  slot : s.stage s.newConnection = some .offered
  accepts : s.pending.filter Operation.isAccept = [.accept s.newConnection]

variable {s s' : TcpServer} {c : ConnectionPtr}

theorem Stands.congr (h : s.Stands c) (hhappened : happened s'.trace c = happened s.trace c)
    (hoperations : s'.operations c = s.operations c) (hconnections : s'.connections c = s.connections c)
    (hnew : c = s.newConnection → c = s'.newConnection) : s'.Stands c := by
  obtain ⟨stage, hstage, hfits⟩ := h
  refine ⟨stage, ?_, ?_⟩
  · rw [TcpServer.stage, hhappened]
    exact hstage
  · cases stage with
    | offered => exact ⟨hnew hfits.1, hoperations.trans hfits.2.1, hconnections ▸ hfits.2.2⟩
    | reading => exact ⟨hoperations.trans hfits.1, hconnections ▸ hfits.2⟩
    | writing =>
        obtain ⟨connection, hconnection, hops⟩ := hfits
        exact ⟨connection, hconnections.trans hconnection, hoperations.trans hops⟩
    | unborn | dropped | received | answered => exact hoperations.trans hfits
    | _ => exact hfits

theorem mem_operations {op : Operation} : op ∈ s.operations c ↔ op ∈ s.pending ∧ op.peer = c := by
  simp [operations]

/-- To destroy what nothing points to changes no connection that has an operation. -/
theorem Stands.collect (h : s.Stands c) : s.collect.Stands c := by
  by_cases hheld : c = s.newConnection ∨ s.pending.any (·.holds c) = true
  · exact h.congr rfl rfl (if_pos hheld) id
  · obtain ⟨stage, hstage, hfits⟩ := h
    refine ⟨stage, hstage, ?_⟩
    have hidle : ∀ op ∈ s.operations c, op.holds c = false := by
      intro op hop
      have hnone := not_or.mp hheld
      rw [List.any_eq_true] at hnone
      exact Bool.eq_false_iff.mpr fun hholds =>
        hnone.2 ⟨op, (mem_operations.mp hop).1, hholds⟩
    cases stage with
    | offered => exact absurd (.inl hfits.1) hheld
    | reading =>
        rw [hfits.1] at hidle
        simp [Operation.holds] at hidle
    | writing =>
        obtain ⟨connection, -, hops⟩ := hfits
        rw [hops] at hidle
        simp [Operation.holds] at hidle
    | _ => exact hfits

theorem Kept.collect (h : s.Kept) : s.collect.Kept :=
  ⟨fun c => (h.stands c).collect, h.fresh, h.slot, h.accepts⟩

/-! ## What completes -/

/-- A pending operation is the one of the stage that its connection has reached. -/
theorem Stands.of_pending (h : s.Stands c) {op : Operation} (hop : op ∈ s.pending)
    (hpeer : op.peer = c) : ∃ stage, s.stage c = some stage ∧ s.Fits c stage ∧ s.operations c = [op] ∧
      (stage = .offered ∧ op = .accept c ∨ stage = .reading ∧ op = .readSome c ∨
        stage = .writing ∧ ∃ buffers, op = .write c buffers) := by
  have hmem : op ∈ s.operations c := mem_operations.mpr ⟨hop, hpeer⟩
  obtain ⟨stage, hstage, hfits⟩ := h
  refine ⟨stage, hstage, hfits, ?_⟩
  cases stage with
  | offered =>
      have hops : s.operations c = [.accept c] := hfits.2.1
      obtain rfl := List.mem_singleton.mp (hops ▸ hmem)
      exact ⟨hops, .inl ⟨rfl, rfl⟩⟩
  | reading =>
      have hops : s.operations c = [.readSome c] := hfits.1
      obtain rfl := List.mem_singleton.mp (hops ▸ hmem)
      exact ⟨hops, .inr (.inl ⟨rfl, rfl⟩)⟩
  | writing =>
      obtain ⟨connection, -, hops⟩ := hfits
      obtain rfl := List.mem_singleton.mp (hops ▸ hmem)
      exact ⟨hops, .inr (.inr ⟨rfl, _, rfl⟩)⟩
  | unborn | dropped | received | answered =>
      have hops : s.operations c = [] := hfits
      exact absurd (hops ▸ hmem) List.not_mem_nil
  | _ => exact absurd hfits id

theorem accept_of_pending (h : s.Kept) (hop : .accept c ∈ s.pending) :
    c = s.newConnection ∧ s.operations c = [.accept c] ∧ (s.connections c).isSome = true := by
  rcases (h.stands c).of_pending hop rfl with
    ⟨stage, -, hfits, -, ⟨rfl, -⟩ | ⟨-, hread⟩ | ⟨-, buffers, hwrite⟩⟩
  · exact hfits
  · cases hread
  · cases hwrite

theorem read_of_pending (h : s.Kept) (hop : .readSome c ∈ s.pending) : s.stage c = some .reading ∧
    s.operations c = [.readSome c] ∧ (s.connections c).isSome = true := by
  rcases (h.stands c).of_pending hop rfl with
    ⟨stage, hstage, hfits, -, ⟨-, haccept⟩ | ⟨rfl, -⟩ | ⟨-, buffers, hwrite⟩⟩
  · cases haccept
  · exact ⟨hstage, hfits⟩
  · cases hwrite

theorem write_of_pending (h : s.Kept) {buffers : List (List Char)}
    (hop : .write c buffers ∈ s.pending) : s.stage c = some .writing ∧
      s.operations c = [.write c buffers] ∧ ∃ connection, s.connections c = some connection ∧
        connection.reply.toBuffers = buffers := by
  rcases (h.stands c).of_pending hop rfl with
    ⟨stage, hstage, hfits, hone, ⟨-, haccept⟩ | ⟨-, hread⟩ | ⟨rfl, -⟩⟩
  · cases haccept
  · cases hread
  · obtain ⟨connection, hconnection, hops⟩ := hfits
    have hsame := (List.cons.inj (hops.symm.trans hone)).1
    exact ⟨hstage, hone, connection, hconnection, (Operation.write.inj hsame).2⟩

/-- The operations of another connection stay, and this one has the new ones in place of its old. -/
theorem operations_erase {op : Operation} {ops : List Operation} {d : ConnectionPtr}
    (hpending : s'.pending = s.pending.erase op ++ ops) (hop : s.operations c = [op])
    (hops : ∀ o ∈ ops, o.peer = c) : s'.operations d = if d = c then ops else s.operations d := by
  have herase : s'.operations d = (s.operations d).erase op ++ ops.filter fun o => o.peer = d := by
    rw [operations, hpending, List.filter_append, ← List.erase_filter, operations]
  rw [herase]
  have hpeer : op.peer = c := (mem_operations.mp (hop ▸ List.mem_singleton_self op)).2
  by_cases hd : d = c
  · subst hd
    rw [if_pos rfl, hop, List.erase_cons_head, List.nil_append]
    exact List.filter_eq_self.mpr fun o ho => by simpa using hops o ho
  · have hnot : op ∉ s.operations d := fun hmem => hd ((mem_operations.mp hmem).2.symm.trans hpeer)
    rw [if_neg hd, List.erase_of_not_mem hnot, List.filter_eq_nil_iff.mpr, List.append_nil]
    intro o ho
    rw [hops o ho]
    simpa using fun hc => hd hc.symm

theorem happened_here {what : List Happening} : happened (what.map (Prod.mk c)) c = what := by
  simp [happened, List.filter_map, Function.comp_def]

theorem stage_append (what : List Happening) {trace : List (ConnectionPtr × Happening)}
    (htrace : s'.trace = s.trace ++ trace) (hhere : happened trace c = what) {mid stage : Stage}
    (hmid : s.stage c = some mid) (hstage : Stage.afterAll what mid = some stage) :
    s'.stage c = some stage := by
  rw [TcpServer.stage, htrace, happened_append, Stage.afterAll_append, hhere]
  rw [TcpServer.stage] at hmid
  rw [hmid]
  exact hstage

theorem happened_else {what : List Happening} {d : ConnectionPtr}
    (htrace : s'.trace = s.trace ++ what.map (Prod.mk c)) (hd : d ≠ c) :
    happened s'.trace d = happened s.trace d := by
  have hnone : happened (what.map (Prod.mk c)) d = [] := by
    refine happened_eq_nil fun x hx => ?_
    obtain ⟨o, -, rfl⟩ := List.mem_map.mp hx
    exact fun hc => hd hc.symm
  rw [htrace, happened_append, hnone, List.append_nil]

/-- A connection has been constructed if it has an operation. -/
theorem Kept.born {op : Operation} (h : s.Kept) (hop : s.operations c = [op]) : c < s.size := by
  by_contra hfresh
  obtain ⟨stage, hstage, hfits⟩ := h.stands c
  rw [TcpServer.stage, h.fresh c (Nat.le_of_not_lt hfresh)] at hstage
  cases hstage
  exact absurd (hop.symm.trans hfits) (List.cons_ne_nil _ _)

/-- The one operation of a connection completes; its handler starts some for the connection. -/
structure Handles (s s' : TcpServer) (c : ConnectionPtr) (op : Operation) (ops : List Operation)
    (what : List Happening) : Prop where
  only : s.operations c = [op]
  pending : s'.pending = s.pending.erase op ++ ops
  starts : ∀ o ∈ ops, o.peer = c ∧ o.isAccept = false
  trace : s'.trace = s.trace ++ what.map (Prod.mk c)
  connections : ∀ d, d ≠ c → s'.connections d = s.connections d
  size : s'.size = s.size
  newConnection : s'.newConnection = s.newConnection

section Handles

variable {op : Operation} {ops : List Operation} {what : List Happening} {mid stage : Stage}

theorem Handles.operations (hs : Handles s s' c op ops what) : s'.operations c = ops :=
  (operations_erase hs.pending hs.only fun o ho => (hs.starts o ho).1).trans (if_pos rfl)

theorem Handles.stands (hs : Handles s s' c op ops what) {d : ConnectionPtr} (hd : d ≠ c)
    (h : s.Stands d) : s'.Stands d := by
  refine h.congr (happened_else hs.trace hd) ?_ (hs.connections d hd) ?_
  · exact (operations_erase hs.pending hs.only fun o ho => (hs.starts o ho).1).trans (if_neg hd)
  · exact fun hslot => hslot.trans hs.newConnection.symm

theorem Handles.fresh (hs : Handles s s' c op ops what) (h : s.Kept) {d : ConnectionPtr}
    (hd : s'.size ≤ d) : happened s'.trace d = [] := by
  rw [hs.size] at hd
  rw [happened_else hs.trace ((h.born hs.only).trans_le hd).ne', h.fresh d hd]

theorem Handles.accepts (hs : Handles s s' c op ops what) : s'.pending.filter Operation.isAccept =
    (s.pending.filter Operation.isAccept).erase op := by
  have hnone : ops.filter Operation.isAccept = [] :=
    List.filter_eq_nil_iff.mpr fun o ho => by simp [(hs.starts o ho).2]
  rw [hs.pending, List.filter_append, ← List.erase_filter, hnone, List.append_nil]

/-- A handler of a connection for which the server does not await a client. -/
theorem Handles.kept (hs : Handles s s' c op ops what) (h : s.Kept) (haccept : op.isAccept = false)
    (hmid : s.stage c = some mid) (hstage : Stage.afterAll what mid = some stage)
    (hfits : s'.Fits c stage) : s'.Kept := by
  -- the connection in the slot has its accept pending, and `op` is none
  have hslot : s.newConnection ≠ c := by
    intro hc
    obtain ⟨stage, hstage, hfits⟩ := h.stands s.newConnection
    cases h.slot.symm.trans hstage
    rw [hc] at hfits
    rw [(List.cons.inj (hs.only.symm.trans hfits.2.1)).1] at haccept
    cases haccept
  refine ⟨fun d => ?_, fun d hd => hs.fresh h hd, ?_, ?_⟩
  · by_cases hd : d = c
    · subst hd
      exact ⟨stage, stage_append what hs.trace happened_here hmid hstage, hfits⟩
    · exact hs.stands hd (h.stands d)
  · rw [hs.newConnection, TcpServer.stage, happened_else hs.trace hslot]
    exact h.slot
  · rw [hs.accepts, h.accepts, hs.newConnection]
    refine List.erase_of_not_mem fun hmem => ?_
    rw [List.mem_singleton.mp hmem] at haccept
    cases haccept

end Handles

section Library

variable {connection : Connection} (h : s.connections c = some connection)

include h

theorem update_eq (f : Connection → Connection) : s.update c f =
    some { s with connections := Function.update s.connections c (some (f connection)) } := by
  rw [update, h]
  rfl

theorem asyncReadSome_eq : s.asyncReadSome c = some ((s.initiate (.readSome c)).note c .reading) := by
  rw [asyncReadSome, h]
  rfl

/-- The reply is assigned and written. -/
theorem write_eq (f : Request → Reply → Reply) :
    (s.setReply c f >>= fun s' => s'.asyncWrite c) =
      some { s with
        connections := Function.update s.connections c
          (some { connection with reply := f connection.request connection.reply })
        pending := s.pending ++ [.write c (f connection.request connection.reply).toBuffers]
        trace := s.trace ++ [(c, .modified), (c, .writing)] } := by
  rw [setReply, update_eq h]
  simp [asyncWrite, note, initiate]

end Library

theorem kept_read {outcome : Outcome} (h : s.Kept) (hop : .readSome c ∈ s.pending) :
    ∃ s', (s.complete (.readSome c)).handle outcome (.readSome c) = some s' ∧ s'.Kept := by
  obtain ⟨hstage, hops, halive⟩ := read_of_pending h hop
  obtain ⟨connection, hconnection⟩ := Option.isSome_iff_exists.mp halive
  obtain ⟨error, bytes, result, file⟩ := outcome
  have hhere : ((s.complete (.readSome c)).note c .received).connections c = some connection :=
    hconnection
  -- the two replies differ only in what is assigned
  have hreplies : ∀ f : Request → Reply → Reply, ({ (s.complete (.readSome c)).note c .received with
      connections := Function.update s.connections c
        (some { connection with reply := f connection.request connection.reply })
      pending := s.pending.erase (.readSome c) ++
        [.write c (f connection.request connection.reply).toBuffers]
      trace := s.trace ++ [(c, .received)] ++ [(c, .modified), (c, .writing)] } : TcpServer).Kept := by
    intro f
    have hs : Handles s { (s.complete (.readSome c)).note c .received with
        connections := Function.update s.connections c
          (some { connection with reply := f connection.request connection.reply })
        pending := s.pending.erase (.readSome c) ++
          [.write c (f connection.request connection.reply).toBuffers]
        trace := s.trace ++ [(c, .received)] ++ [(c, .modified), (c, .writing)] } c (.readSome c)
        [.write c (f connection.request connection.reply).toBuffers] [.received, .modified, .writing] :=
      ⟨hops, rfl, by simp [Operation.peer, Operation.isAccept], List.append_assoc _ _ _,
        fun d hd => Function.update_of_ne hd _ _, rfl, rfl⟩
    exact hs.kept h rfl hstage rfl ⟨_, Function.update_self .., hs.operations⟩
  cases error with
  | some e =>
      have hs : Handles s ((s.complete (.readSome c)).note c .received) c (.readSome c) [] [.received] :=
        ⟨hops, (List.append_nil _).symm, nofun, rfl, fun _ _ => rfl, rfl, rfl⟩
      exact ⟨_, rfl, hs.kept h rfl hstage rfl hs.operations⟩
  | none => cases result with
      | indeterminate =>
          have hs : Handles s ((((s.complete (.readSome c)).note c .received).initiate
              (.readSome c)).note c .reading) c (.readSome c) [.readSome c] [.received, .reading] :=
            ⟨hops, rfl, by simp [Operation.peer, Operation.isAccept], List.append_assoc _ _ _,
              fun _ _ => rfl, rfl, rfl⟩
          exact ⟨_, asyncReadSome_eq hhere, hs.kept h rfl hstage rfl ⟨hs.operations, halive⟩⟩
      | yes => exact ⟨_, write_eq hhere (handleRequest file), hreplies (handleRequest file)⟩
      | no =>
          have hkept := hreplies fun _ _ => stockReply .badRequest
          exact ⟨_, write_eq hhere fun _ _ => stockReply .badRequest, hkept⟩

theorem kept_write {outcome : Outcome} {buffers : List (List Char)} (h : s.Kept)
    (hop : .write c buffers ∈ s.pending) :
    ∃ s', (s.complete (.write c buffers)).handle outcome (.write c buffers) = some s' ∧ s'.Kept := by
  obtain ⟨hstage, hops, connection, hconnection, -⟩ := write_of_pending h hop
  obtain ⟨error, bytes, result, file⟩ := outcome
  have hhere : ((s.complete (.write c buffers)).note c .written).connections c = some connection :=
    hconnection
  cases error with
  | some e =>
      have hs : Handles s ((s.complete (.write c buffers)).note c .written) c (.write c buffers) []
          [.written] :=
        ⟨hops, (List.append_nil _).symm, nofun, rfl, fun _ _ => rfl, rfl, rfl⟩
      exact ⟨_, rfl, hs.kept h rfl hstage rfl hs.operations⟩
  | none =>
      have hs : Handles s { (s.complete (.write c buffers)).note c .written with
          connections := Function.update s.connections c (some { connection with shut := true }) } c
          (.write c buffers) [] [.written] :=
        ⟨hops, (List.append_nil _).symm, nofun, rfl, fun d hd => Function.update_of_ne hd _ _, rfl, rfl⟩
      exact ⟨_, update_eq hhere _, hs.kept h rfl hstage rfl hs.operations⟩

/-! ## The acceptor -/

/-- The server is about to await its next client. The connection that it had is the last one's, or
has got none. -/
structure Pausing (s : TcpServer) : Prop where
  stands : ∀ c, c ≠ s.newConnection → s.Stands c
  fresh : ∀ c, s.size ≤ c → happened s.trace c = []
  leaves : ∃ mid stage, s.stage s.newConnection = some mid ∧ mid.after .replaced = some stage ∧
    s.Fits s.newConnection stage
  accepts : s.pending.filter Operation.isAccept = []

theorem startAccept_trace : s.startAccept.trace = s.trace ++
    [(s.size, .constructed), (s.newConnection, .replaced), (s.size, .accepting)] := by
  simp [startAccept, construct, asyncAccept, initiate, note]

theorem startAccept_operations {d : ConnectionPtr} :
    s.startAccept.operations d = s.operations d ++ if d = s.size then [.accept s.size] else [] := by
  by_cases hd : d = s.size
  · simp [operations, startAccept, construct, asyncAccept, initiate, note, Operation.peer, hd]
  · have hne : s.size ≠ d := fun hsize => hd hsize.symm
    simp [operations, startAccept, construct, asyncAccept, initiate, note, Operation.peer, hd, hne]

theorem startAccept_connections {d : ConnectionPtr} (hd : d ≠ s.size) :
    s.startAccept.connections d = s.connections d :=
  Function.update_of_ne hd _ _

theorem Pausing.born (h : s.Pausing) : s.newConnection < s.size := by
  by_contra hfresh
  obtain ⟨mid, stage, hmid, hafter, -⟩ := h.leaves
  rw [TcpServer.stage, h.fresh _ (Nat.le_of_not_lt hfresh)] at hmid
  cases hmid
  cases hafter

theorem kept_startAccept (h : s.Pausing) : s.startAccept.Kept := by
  have hborn := h.born
  have hnew : s.newConnection ≠ s.size := hborn.ne
  -- The next connection is at an address where nothing has happened.
  have hoffered : s.startAccept.stage s.size = some .offered := by
    have hnothing : s.stage s.size = some .unborn := by
      rw [TcpServer.stage, h.fresh _ le_rfl]
      rfl
    refine stage_append [.constructed, .accepting] startAccept_trace ?_ hnothing rfl
    simp [happened, hnew]
  have helse : ∀ d, d ≠ s.newConnection → d ≠ s.size →
      happened s.startAccept.trace d = happened s.trace d := by
    intro d hd hsize
    rw [startAccept_trace, happened_append]
    simp [happened, hd.symm, hsize.symm]
  have hops : ∀ d, d ≠ s.size → s.startAccept.operations d = s.operations d := by
    intro d hd
    rw [startAccept_operations, if_neg hd, List.append_nil]
  have hidle : s.operations s.size = [] := by
    obtain ⟨stage, hstage, hfits⟩ := h.stands s.size hnew.symm
    rw [TcpServer.stage, h.fresh _ le_rfl] at hstage
    cases hstage
    exact hfits
  refine ⟨fun d => ?_, fun d hd => ?_, hoffered, ?_⟩
  · by_cases hsize : d = s.size
    · subst hsize
      refine ⟨.offered, hoffered, rfl, ?_, ?_⟩
      · rw [startAccept_operations, hidle, if_pos rfl, List.nil_append]
      · rw [startAccept, asyncAccept]
        simp [initiate, note, construct]
    · by_cases hd : d = s.newConnection
      · subst hd
        obtain ⟨mid, stage, hmid, hafter, hfits⟩ := h.leaves
        refine ⟨stage, stage_append [.replaced] startAccept_trace ?_ hmid ?_, ?_⟩
        · simp [happened, hnew.symm]
        · rw [Stage.afterAll, List.foldlM_cons, hafter]
          rfl
        -- it was never offered, a read of it is pending, or no client came
        · cases mid <;> cases hafter
          · exact (hops _ hnew).trans hfits
          · exact ⟨(hops _ hnew).trans hfits.1, (startAccept_connections hnew).symm ▸ hfits.2⟩
          · exact (hops _ hnew).trans hfits
      · refine (h.stands d hd).congr (helse d hd hsize) (hops d hsize) (startAccept_connections hsize) ?_
        exact fun hslot => absurd hslot hd
  · have hlt : s.size < d := hd
    rw [helse d (hborn.trans hlt).ne' hlt.ne', h.fresh d hlt.le]
  · show (s.pending ++ [Operation.accept s.size]).filter Operation.isAccept = [.accept s.size]
    rw [List.filter_append, h.accepts]
    rfl

/-- The accept has completed, and the connection is done with. -/
theorem Handles.pausing {ops : List Operation} {what : List Happening} {mid stage : Stage}
    (hs : Handles s s' s.newConnection (.accept s.newConnection) ops what) (h : s.Kept)
    (hmid : Stage.afterAll what .offered = some mid) (hafter : mid.after .replaced = some stage)
    (hfits : s'.Fits s.newConnection stage) : s'.Pausing := by
  refine ⟨fun d hd => ?_, fun d hd => hs.fresh h hd, ⟨mid, stage, ?_, hafter, ?_⟩, ?_⟩
  · rw [hs.newConnection] at hd
    exact hs.stands hd (h.stands d)
  · rw [hs.newConnection]
    exact stage_append what hs.trace happened_here h.slot hmid
  · rw [hs.newConnection]
    exact hfits
  · rw [hs.accepts, h.accepts, List.erase_cons_head]

theorem kept_accept {outcome : Outcome} (h : s.Kept) (hop : .accept c ∈ s.pending) :
    ∃ s', (s.complete (.accept c)).handle outcome (.accept c) = some s' ∧ s'.Kept := by
  obtain ⟨rfl, hops, halive⟩ := accept_of_pending h hop
  obtain ⟨connection, hconnection⟩ := Option.isSome_iff_exists.mp halive
  obtain ⟨error, bytes, result, file⟩ := outcome
  cases error with
  | some e =>
      have hs : Handles s ((s.complete (.accept s.newConnection)).note s.newConnection .refused)
          s.newConnection (.accept s.newConnection) [] [.refused] :=
        ⟨hops, (List.append_nil _).symm, nofun, rfl, fun _ _ => rfl, rfl, rfl⟩
      exact ⟨_, rfl, kept_startAccept (hs.pausing h rfl rfl hs.operations)⟩
  | none =>
      have hhere : (((s.complete (.accept s.newConnection)).note s.newConnection .accepted).note
        s.newConnection .started).connections s.newConnection = some connection := hconnection
      have hs : Handles s (((((s.complete (.accept s.newConnection)).note s.newConnection
          .accepted).note s.newConnection .started).initiate (.readSome s.newConnection)).note
            s.newConnection .reading)
          s.newConnection (.accept s.newConnection) [.readSome s.newConnection]
          [.accepted, .started, .reading] :=
        ⟨hops, rfl, by simp [Operation.peer, Operation.isAccept], by simp [note, initiate, complete],
          fun _ _ => rfl, rfl, rfl⟩
      have hkept := kept_startAccept (hs.pausing h rfl rfl ⟨hs.operations, halive⟩)
      refine ⟨_, ?_, hkept⟩
      exact congrArg (fun s' => s' >>= fun s' => some s'.startAccept) (asyncReadSome_eq hhere)

theorem kept_step {op : Operation} {outcome : Outcome} (h : s.Kept) (hop : op ∈ s.pending) :
    ∃ s', s.step (op, outcome) = some s' ∧ s'.Kept := by
  have hhandle : ∃ s', (s.complete op).handle outcome op = some s' ∧ s'.Kept := by
    cases op with
    | accept c => exact kept_accept h hop
    | readSome c => exact kept_read h hop
    | write c buffers => exact kept_write h hop
  obtain ⟨s', hs', hkept⟩ := hhandle
  refine ⟨s'.collect, ?_, hkept.collect⟩
  rw [step, if_pos hop, hs']
  rfl

theorem Kept.next {op : Operation} {outcome : Outcome} (h : s.Kept)
    (hstep : s.step (op, outcome) = some s') : s'.Kept := by
  have hop : op ∈ s.pending := by
    by_contra hnot
    rw [step, if_neg hnot] at hstep
    cases hstep
  obtain ⟨next, hnext, hkept⟩ := kept_step h hop
  rw [hstep] at hnext
  exact Option.some.inj hnext ▸ hkept

theorem pausing_constructed : constructed.Pausing := by
  have helse : ∀ c, c ≠ 0 → happened constructed.trace c = [] := by
    intro c hc
    refine happened_eq_nil fun x hx => ?_
    rw [List.mem_singleton.mp hx]
    exact hc.symm
  refine ⟨fun c hc => ⟨.unborn, ?_, rfl⟩, fun c hc => helse c (Nat.ne_of_gt hc), ?_, rfl⟩
  · rw [TcpServer.stage, helse c hc]
    rfl
  · have hidle : constructed.Fits 0 .dropped := rfl
    exact ⟨.slotted, .dropped, rfl, rfl, hidle⟩

theorem kept_start : start.Kept := (kept_startAccept pausing_constructed).collect

/-! ## What holds of the server -/

/-- The server has one accept outstanding. Every client that it has accepted is started once, on
its connection and before the server takes the next; every connection has at most one operation
outstanding and at most one reply written; while that is written it is not changed, nor is anything
read. Every handler finds its connection. -/
structure Orderly (s : TcpServer) : Prop where
  accepts : s.pending.countP Operation.isAccept = 1
  starts : ∀ c, (c, .accepted) ∈ s.trace → s.trace.count (c, .started) = 1
  startsAccepted : ∀ c before after, s.trace = before ++ (c, .started) :: after →
    (c, .accepted) ∈ before ∧ (c, .replaced) ∉ before
  outstanding : ∀ c, s.pending.countP (fun op => op.peer = c) ≤ 1
  answers : ∀ c, s.trace.count (c, .writing) ≤ 1
  untouched : ∀ c before during, s.trace = before ++ (c, .writing) :: during →
    (c, .written) ∉ during → (c, .modified) ∉ during ∧ (c, .reading) ∉ during
  buffers : ∀ c buffers, .write c buffers ∈ s.pending → ∃ connection,
    s.connections c = some connection ∧ connection.reply.toBuffers = buffers
  handled : ∀ op ∈ s.pending, ∀ outcome, (s.step (op, outcome)).isSome = true

theorem Kept.starts (h : s.Kept) (hmem : (c, .accepted) ∈ s.trace) :
    s.trace.count (c, .started) = 1 := by
  obtain ⟨stage, hstage, hfits⟩ := h.stands c
  have haccepted : 0 < (happened s.trace c).count .accepted :=
    List.count_pos_iff.mpr (mem_happened.mpr hmem)
  rw [Stage.count_accepted hstage] at haccepted
  rw [← count_happened, Stage.count_started hstage]
  by_cases hstarted : stage.hasStarted = true
  · rw [if_pos hstarted]
  · -- No handler leaves a connection accepted and not started.
    have hnot : stage ≠ .accepted := by
      rintro rfl
      exact hfits
    simp [hstarted, hnot] at haccepted

/-- The stage of a connection before something happened to it. -/
theorem Kept.before (h : s.Kept) {before after : List (ConnectionPtr × Happening)} {what : Happening}
    (htrace : s.trace = before ++ (c, what) :: after) : ∃ mid next stage,
      Stage.afterAll (happened before c) .unborn = some mid ∧ mid.after what = some next ∧
      Stage.afterAll (happened after c) next = some stage := by
  obtain ⟨stage, hstage, -⟩ := h.stands c
  have hhappened : happened s.trace c = happened before c ++ what :: happened after c := by
    rw [htrace, happened_append]
    simp [happened]
  rw [TcpServer.stage, hhappened, Stage.afterAll_append] at hstage
  obtain ⟨mid, hmid, hrest⟩ := Option.bind_eq_some_iff.mp hstage
  rw [Stage.afterAll, List.foldlM_cons] at hrest
  obtain ⟨next, hnext, hafter⟩ := Option.bind_eq_some_iff.mp hrest
  exact ⟨mid, next, stage, hmid, hnext, hafter⟩

theorem Kept.startsAccepted (h : s.Kept) {before after : List (ConnectionPtr × Happening)}
    (htrace : s.trace = before ++ (c, .started) :: after) :
    (c, .accepted) ∈ before ∧ (c, .replaced) ∉ before := by
  obtain ⟨mid, next, stage, hmid, hnext, -⟩ := h.before htrace
  have hpast := Stage.before_started hmid (by rw [hnext]; exact nofun)
  rw [← mem_happened, ← mem_happened, hpast]
  decide

theorem Kept.untouched (h : s.Kept) {before during : List (ConnectionPtr × Happening)}
    (htrace : s.trace = before ++ (c, .writing) :: during) (hwritten : (c, .written) ∉ during) :
    (c, .modified) ∉ during ∧ (c, .reading) ∉ during := by
  obtain ⟨mid, next, stage, -, hnext, hafter⟩ := h.before htrace
  obtain rfl : next = .writing := by
    cases mid <;> cases hnext
    rfl
  rcases Stage.after_writing hafter with hnone | hdone
  · rw [← mem_happened, ← mem_happened, hnone]
    exact ⟨List.not_mem_nil, List.not_mem_nil⟩
  · rw [← mem_happened, hdone] at hwritten
    exact absurd (List.mem_singleton_self _) hwritten

theorem Kept.outstanding (h : s.Kept) : s.pending.countP (fun op => op.peer = c) ≤ 1 := by
  rw [List.countP_eq_length_filter]
  show (s.operations c).length ≤ 1
  cases hops : s.operations c with
  | nil => exact Nat.zero_le 1
  | cons op rest =>
      obtain ⟨hop, hpeer⟩ := mem_operations.mp (hops ▸ List.mem_cons_self : op ∈ s.operations c)
      obtain ⟨-, -, -, hone, -⟩ := (h.stands c).of_pending hop hpeer
      rw [← hops, hone, List.length_singleton]

theorem Kept.answers (h : s.Kept) : s.trace.count (c, .writing) ≤ 1 := by
  obtain ⟨stage, hstage, -⟩ := h.stands c
  rw [← count_happened, Stage.count_writing hstage]
  split
  · exact le_rfl
  · exact Nat.zero_le 1

theorem Kept.orderly (h : s.Kept) : s.Orderly where
  accepts := by rw [List.countP_eq_length_filter, h.accepts, List.length_singleton]
  starts _ := h.starts
  startsAccepted _ _ _ := h.startsAccepted
  outstanding _ := h.outstanding
  answers _ := h.answers
  untouched _ _ _ := h.untouched
  buffers _ _ hop := (write_of_pending h hop).2.2
  handled _ hop _ := by
    obtain ⟨s', hstep, -⟩ := kept_step h hop
    rw [hstep, Option.isSome_some]

/-- Whatever completes, in whatever order and however, the server is orderly. -/
theorem always_orderly (completions : List (Operation × Outcome)) :
    Machine.Always step Orderly start completions := by
  have halong : Machine.Along step (fun _ _ => True) start completions :=
    Machine.along_of_forall fun _ _ => trivial
  have hkept : Machine.Always step Kept start completions :=
    Machine.Along.always (fun s a s' h _ hstep => h.next hstep) kept_start halong
  exact hkept.mono fun s h => h.orderly

end TcpServer

end Robotd.Slaves
