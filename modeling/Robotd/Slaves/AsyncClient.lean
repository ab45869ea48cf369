import Robotd.Lib.Machine
import Robotd.Lib.Pieces
import Robotd.Slaves.Client

/-!
# The HTTP client

`async_client.cpp`. One asynchronous operation is pending at a time, and when it completes its
handler runs and may start the next. What the server sends is `arriving` until a read has it; a read
completes with as much of it as `Permits` allows, which is what the library promises of its
operations and no more. So the reply comes in any pieces.

`transcript` is what the client prints of a reply that it has as a whole.
-/

namespace Robotd.Slaves

open Lib Lib.CLib

/-- An `error_code` that is not success, and what `message()` says of it. -/
structure Failure where
  category : List Char
  value : Nat
  message : List Char
  deriving DecidableEq, Repr

namespace Failure

/-- `operator<<` for an `error_code`. -/
def shown (e : Failure) : List Char := e.category ++ ':' :: decimal e.value

/-- `boost::asio::error::eof`. -/
def eof : Failure := ⟨"asio.misc".toList, 2, "End of file".toList⟩

/-- Two error codes are the same when their categories and values are. -/
def isEof (e : Failure) : Bool := e.category = eof.category && e.value = eof.value

end Failure

/-- `std::cout`, and whether it still takes what it is given. -/
structure Ostream where
  text : List Char
  good : Bool
  deriving DecidableEq, Repr

/-- `operator<<` for a text. -/
def Ostream.put (o : Ostream) (text : List Char) : Ostream :=
  if o.good then { o with text := o.text ++ text } else o

/-- The stages of a `client`, by the operation that is pending. -/
inductive Client.Operation where
  | resolve
  | connect
  | writeRequest
  | readStatusLine
  | readHeaders
  | readContent
  deriving DecidableEq, Repr

/-- A `client`, what it has printed, and what is on its way from and to the server. -/
structure Client where
  request : List Char
  response : List Char
  cout : Ostream
  pending : Option Client.Operation
  written : List Char
  arriving : List Char
  deriving DecidableEq, Repr

namespace Client

/-! ## The code -/

/-- The request that the constructor forms, piece by piece. -/
def requestText (server path : List Char) : List Char :=
  ["GET ".toList, path, " HTTP/1.0".toList, crlf, "Host: ".toList, server, crlf, "Accept: */*".toList, crlf,
    "Connection: close".toList, crlf, crlf].flatten

/-- The constructor, with what the server is going to send. -/
def construct (server path sent : List Char) : Client :=
  ⟨requestText server path, [], ⟨[], true⟩, some .resolve, [], sent⟩

def print (s : Client) (text : List Char) : Client := { s with cout := s.cout.put text }

def initiate (s : Client) (op : Operation) : Client := { s with pending := some op }

/-- `std::cout << &response_`. A stream that is given nothing fails, and one that has failed takes
nothing. -/
def printResponse (s : Client) : Client :=
  if s.cout.good then
    if s.response = [] then { s with cout := { s.cout with good := false } }
    else { s.print s.response with response := [] }
  else
    s

def errorLine (text : List Char) : List Char := "Error: ".toList ++ text ++ ['\n']

def invalidLine : List Char := "Invalid response\n".toList

def statusLine (statusCode : Nat) : List Char :=
  "Response returned with status code ".toList ++ decimal statusCode ++ ['\n']

def handleResolve (s : Client) : Option Failure → Client
  | none => s.initiate .connect
  | some e => s.print (errorLine e.message)

def handleConnect (s : Client) : Option Failure → Client
  | none => s.initiate .writeRequest
  | some e => s.print (errorLine e.message)

def handleWriteRequest (s : Client) : Option Failure → Client
  | none => s.initiate .readStatusLine
  | some e => s.print (errorLine e.message)

/-- What an invalid status line leaves in the buffer is not read any more. -/
def handleReadStatusLine (s : Client) : Option Failure → Client
  | none => match readStatusLine s.response with
    | none => s.print invalidLine
    | some (line, rest) =>
        let s := { s with response := rest }
        if line.statusCode ≠ 200 then s.print (statusLine line.statusCode)
        else s.initiate .readHeaders
  | some e => s.print (errorLine e.shown)

def handleReadHeaders (s : Client) : Option Failure → Client
  | none =>
      let (headers, rest) := readHeaders s.response
      let s := { s with response := rest }
      let s := s.print (headers.flatMap (· ++ ['\n']))
      let s := s.print ['\n']
      let s := if 0 < s.response.length then s.printResponse else s
      s.initiate .readContent
  | some e => s.print (errorLine e.shown)

def handleReadContent (s : Client) : Option Failure → Client
  | none => s.printResponse.initiate .readContent
  | some e => if e.isEof then s else s.print (errorLine e.shown)

/-- The handler of an operation that has completed. -/
def handle (s : Client) (error : Option Failure) : Operation → Client
  | .resolve => s.handleResolve error
  | .connect => s.handleConnect error
  | .writeRequest => s.handleWriteRequest error
  | .readStatusLine => s.handleReadStatusLine error
  | .readHeaders => s.handleReadHeaders error
  | .readContent => s.handleReadContent error

/-! ## Runs -/

/-- How an operation completes. -/
structure Completion where
  error : Option Failure
  bytesTransferred : Nat
  deriving DecidableEq, Repr

/-- What an operation moves. -/
def transfer (s : Client) (bytes : Nat) : Operation → Client
  | .resolve | .connect => s
  | .writeRequest =>
      { s with written := s.written ++ s.request.take bytes, request := s.request.drop bytes }
  | .readStatusLine | .readHeaders | .readContent =>
      { s with response := s.response ++ s.arriving.take bytes, arriving := s.arriving.drop bytes }

/-- `async_read_until` succeeds when the delimiter is in the buffer, whatever more is, and fails
without it; the end of the file is found when all has been read. -/
def PermitsUntil (s : Client) (delim : List Char) (c : Completion) : Prop :=
  match c.error with
  | none => delim <:+: s.response ++ s.arriving.take c.bytesTransferred
  | some e => ¬ delim <:+: s.response ++ s.arriving.take c.bytesTransferred ∧
      (e.isEof = true → s.arriving.length ≤ c.bytesTransferred)

/-- `async_read` with `transfer_at_least(1)`. -/
def PermitsSome (s : Client) (c : Completion) : Prop :=
  match c.error with
  | none => 1 ≤ c.bytesTransferred ∧ c.bytesTransferred ≤ s.arriving.length
  | some e => c.bytesTransferred = 0 ∧ (e.isEof = true → s.arriving = [])

/-- The operation may complete in this way. -/
def Permits (s : Client) (c : Completion) : Operation → Prop
  | .resolve | .connect => True
  | .writeRequest => c.error = none → s.request.length ≤ c.bytesTransferred
  | .readStatusLine => s.PermitsUntil crlf c
  | .readHeaders => s.PermitsUntil (crlf ++ crlf) c
  | .readContent => s.PermitsSome c

instance (s : Client) (delim : List Char) : ∀ c, Decidable (s.PermitsUntil delim c)
  | ⟨none, bytes⟩ => inferInstanceAs (Decidable (delim <:+: s.response ++ s.arriving.take bytes))
  | ⟨some e, bytes⟩ => inferInstanceAs (Decidable (¬ delim <:+: s.response ++ s.arriving.take bytes ∧
      (e.isEof = true → s.arriving.length ≤ bytes)))

instance (s : Client) : ∀ c, Decidable (s.PermitsSome c)
  | ⟨none, bytes⟩ => inferInstanceAs (Decidable (1 ≤ bytes ∧ bytes ≤ s.arriving.length))
  | ⟨some e, bytes⟩ => inferInstanceAs (Decidable (bytes = 0 ∧ (e.isEof = true → s.arriving = [])))

instance (s : Client) (c : Completion) : ∀ op, Decidable (s.Permits c op)
  | .resolve | .connect => inferInstanceAs (Decidable True)
  | .writeRequest => inferInstanceAs (Decidable (c.error = none → s.request.length ≤ c.bytesTransferred))
  | .readStatusLine => inferInstanceAs (Decidable (s.PermitsUntil crlf c))
  | .readHeaders => inferInstanceAs (Decidable (s.PermitsUntil (crlf ++ crlf) c))
  | .readContent => inferInstanceAs (Decidable (s.PermitsSome c))

/-- The pending operation completes. -/
def step (s : Client) (c : Completion) : Option Client :=
  match s.pending with
  | none => none
  | some op =>
      if s.Permits c op then
        some (({ s with pending := none }.transfer c.bytesTransferred op).handle c.error op)
      else
        none

/-- Nothing fails but that a read comes to the end of what is sent. -/
def Orderly (s : Client) (c : Completion) : Prop :=
  match c.error with
  | none => True
  | some e => e.isEof = true ∧
      (s.pending = some .readStatusLine ∨ s.pending = some .readHeaders ∨ s.pending = some .readContent)

instance (s : Client) : ∀ c, Decidable (s.Orderly c)
  | ⟨none, _⟩ => inferInstanceAs (Decidable True)
  | ⟨some e, _⟩ => inferInstanceAs (Decidable (e.isEof = true ∧ (s.pending = some .readStatusLine ∨
      s.pending = some .readHeaders ∨ s.pending = some .readContent)))

/-! ## A reply as a whole -/

/-- What is printed of the headers and the content. -/
def shownContent (headers : List (List Char)) (content : List Char) : List Char :=
  headers.flatMap (· ++ ['\n']) ++ ['\n'] ++ content

/-- What is printed of what comes after a status line with the code 200. -/
def shownRest (rest : List Char) : List Char :=
  if crlf ++ crlf <:+: rest then shownContent (readHeaders rest).1 (readHeaders rest).2
  else errorLine Failure.eof.shown

/-- What is printed of what comes from a server, if it is all there at once. -/
def transcript (sent : List Char) : List Char :=
  if crlf <:+: sent then
    match readStatusLine sent with
    | none => invalidLine
    | some (line, rest) => if line.statusCode ≠ 200 then statusLine line.statusCode else shownRest rest
  else
    errorLine Failure.eof.shown

/-- Something comes after the first word of the line. -/
def TwoWords (line : List Char) : Prop := ∃ c ∈ (extractWord line).2, isSpace c = false

instance (line : List Char) : Decidable (TwoWords line) :=
  decidable_of_iff (((extractWord line).2.any fun c => !isSpace c) = true) (by simp [TwoWords])

example : transcript (stockReply .notFound).bytes =
    "Response returned with status code 404\n".toList := by decide +kernel

end Client

end Robotd.Slaves
