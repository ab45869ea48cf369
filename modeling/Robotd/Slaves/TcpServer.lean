import Robotd.Lib.FileSystem
import Robotd.Lib.Machine
import Robotd.Slaves.Reply

/-!
# The TCP server

`tcp_server` after its constructor, and `connection`. An asynchronous operation that has been
started is in `pending` until it completes; then its handler runs to its end. The handlers of one
connection go through a strand and the acceptor has one handler at a time, so they do not overlap.
A connection lives as long as something points to it: the server, or the handler of one of its
operations.

`trace` records what happens to which connection. A handler that comes to a connection that is no
more has no result.
-/

namespace Robotd.Slaves

open Lib

/-- A `boost::tribool`. -/
inductive Tribool where
  | yes
  | no
  | indeterminate
  deriving DecidableEq, Repr

/-- An `error_code`; `none` is success. -/
abbrev ErrorCode := Option Errno

/-- A connection object. Its buffer, strand and logger are left out, as nothing is read from
them. -/
structure Connection where
  request : Request
  reply : Reply
  shut : Bool
  deriving DecidableEq

/-- A pointer to a connection. -/
abbrev ConnectionPtr := Nat

/-- An asynchronous operation: an accept on the socket of a connection, a read, a write of these
buffers. -/
inductive Operation where
  | accept (c : ConnectionPtr)
  | readSome (c : ConnectionPtr)
  | write (c : ConnectionPtr) (buffers : List (List Char))
  deriving DecidableEq

namespace Operation

/-- The connection whose socket the operation is on. -/
def peer : Operation → ConnectionPtr
  | accept c | readSome c | write c _ => c

/-- The handler of the operation points to the connection. That of an accept only has the server. -/
def holds (op : Operation) (c : ConnectionPtr) : Bool := match op with
  | accept _ => false
  | readSome d | write d _ => d = c

def isAccept : Operation → Bool
  | accept _ => true
  | _ => false

end Operation

/-- What happens to a connection: it is constructed for the next client and awaits it, which comes
or does not; it is started; the server forgets it; a read of it is started and completes; its reply
is assigned; a write is started and completes. -/
inductive Happening where
  | constructed
  | accepting
  | accepted
  | refused
  | started
  | replaced
  | reading
  | received
  | modified
  | writing
  | written
  deriving DecidableEq, Repr

structure TcpServer where
  connections : ConnectionPtr → Option Connection
  size : Nat
  newConnection : ConnectionPtr
  pending : List Operation
  trace : List (ConnectionPtr × Happening)

namespace TcpServer

/-! ## Operations of the library -/

def note (s : TcpServer) (c : ConnectionPtr) (what : Happening) : TcpServer :=
  { s with trace := s.trace ++ [(c, what)] }

/-- `new connection`, at an address that has not been used before. -/
def construct (s : TcpServer) : TcpServer :=
  { s with
    connections := Function.update s.connections s.size (some ⟨⟨[], 0⟩, .fresh, false⟩)
    size := s.size + 1
    trace := s.trace ++ [(s.size, .constructed)] }

/-- The members of a connection that is still there. -/
def update (s : TcpServer) (c : ConnectionPtr) (f : Connection → Connection) : Option TcpServer := do
  let connection ← s.connections c
  return { s with connections := Function.update s.connections c (some (f connection)) }

/-- Start an operation. -/
def initiate (s : TcpServer) (op : Operation) : TcpServer := { s with pending := s.pending ++ [op] }

def asyncAccept (s : TcpServer) (c : ConnectionPtr) : TcpServer :=
  (s.initiate (.accept c)).note c .accepting

def asyncReadSome (s : TcpServer) (c : ConnectionPtr) : Option TcpServer := do
  let _ ← s.connections c
  return (s.initiate (.readSome c)).note c .reading

/-- `async_write` of `reply_.to_buffers()`. -/
def asyncWrite (s : TcpServer) (c : ConnectionPtr) : Option TcpServer := do
  let connection ← s.connections c
  return (s.initiate (.write c connection.reply.toBuffers)).note c .writing

/-- An assignment to `reply_`. -/
def setReply (s : TcpServer) (c : ConnectionPtr) (f : Request → Reply → Reply) : Option TcpServer := do
  let s ← s.update c fun connection =>
    { connection with reply := f connection.request connection.reply }
  return s.note c .modified

/-- A connection to which nothing points any more is destroyed. -/
def collect (s : TcpServer) : TcpServer :=
  { s with connections := fun c =>
      if c = s.newConnection ∨ s.pending.any (·.holds c) = true then s.connections c else none }

/-! ## The code -/

/-- `connection::start`. -/
def startConnection (s : TcpServer) (c : ConnectionPtr) : Option TcpServer :=
  (s.note c .started).asyncReadSome c

/-- `connection::handle_read`, with the result of the parser, and the bytes of the file that
`handle_request` finds. -/
def handleRead (s : TcpServer) (c : ConnectionPtr) (e : ErrorCode) (result : Tribool)
    (file : Option (List Char)) : Option TcpServer :=
  match e with
  -- no operation is started, so nothing holds the connection any more
  | some _ => some s
  | none => match result with
    | .yes => do
      let s ← s.setReply c (handleRequest file)
      s.asyncWrite c
    | .no => do
      let s ← s.setReply c fun _ _ => stockReply .badRequest
      s.asyncWrite c
    | .indeterminate => s.asyncReadSome c

/-- `connection::handle_write`. -/
def handleWrite (s : TcpServer) (c : ConnectionPtr) (e : ErrorCode) : Option TcpServer :=
  match e with
  | some _ => some s
  | none => s.update c fun connection => { connection with shut := true }

/-- `tcp_server::start_accept`. -/
def startAccept (s : TcpServer) : TcpServer :=
  let c := s.size
  let reset : TcpServer := { s.construct with newConnection := c }
  (reset.note s.newConnection .replaced).asyncAccept c

/-- `tcp_server::handle_accept`. -/
def handleAccept (s : TcpServer) (e : ErrorCode) : Option TcpServer := do
  let s ← match e with
    | none => s.startConnection s.newConnection
    | some _ => some s
  return s.startAccept

/-- The constructor of `tcp_server`, with its first connection. -/
def constructed : TcpServer := construct ⟨fun _ => none, 0, 0, [], []⟩

/-- `tcp_server::run`. -/
def run (s : TcpServer) : TcpServer := s.startAccept

/-! ## Runs -/

/-- How an operation completes: with an error code; a read, with the number of bytes, what the
parser makes of them, and the file that is asked for. -/
structure Outcome where
  error : ErrorCode
  bytesTransferred : Nat
  result : Tribool
  file : Option (List Char)
  deriving DecidableEq

/-- The handler of an operation that has completed. -/
def handle (s : TcpServer) (outcome : Outcome) : Operation → Option TcpServer
  | .accept c =>
      (s.note c (if outcome.error = none then .accepted else .refused)).handleAccept outcome.error
  | .readSome c => (s.note c .received).handleRead c outcome.error outcome.result outcome.file
  | .write c _ => (s.note c .written).handleWrite c outcome.error

/-- The operation is over, but for its handler. -/
def complete (s : TcpServer) (op : Operation) : TcpServer := { s with pending := s.pending.erase op }

/-- One of the pending operations completes. -/
def step (s : TcpServer) : Operation × Outcome → Option TcpServer
  | (op, outcome) =>
      if op ∈ s.pending then do
        let s ← (s.complete op).handle outcome op
        return s.collect
      else
        none

/-- A server that runs. -/
def start : TcpServer := constructed.run.collect

end TcpServer

end Robotd.Slaves
