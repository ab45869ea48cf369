import Robotd.Lib.CLib

/-!
# Replies of the TCP server

`reply.cpp` and `request_handler.cpp`. A text is the list of its bytes, each a character. A reply
is sent as the list of buffers that `toBuffers` makes of it; they point into the reply.
-/

namespace Robotd.Slaves

open Lib.CLib

inductive StatusType where
  | ok
  | created
  | accepted
  | noContent
  | multipleChoices
  | movedPermanently
  | movedTemporarily
  | notModified
  | badRequest
  | unauthorized
  | forbidden
  | notFound
  | internalServerError
  | notImplemented
  | badGateway
  | serviceUnavailable
  deriving DecidableEq, Repr

structure Header where
  name : List Char
  value : List Char
  deriving DecidableEq, Repr

/-- A reply. The member `status` may hold a value that is no enumerator, as it does until it is
first written; `none` stands for these. -/
structure Reply where
  status : Option StatusType
  headers : List Header
  content : List Char
  deriving DecidableEq, Repr

/-- A reply with its members as they are constructed. -/
def Reply.fresh : Reply := ⟨none, [], []⟩

/-- `status_strings`. -/
def StatusType.statusString : StatusType → String
  | ok => "HTTP/1.0 200 OK\r\n"
  | created => "HTTP/1.0 201 Created\r\n"
  | accepted => "HTTP/1.0 202 Accepted\r\n"
  | noContent => "HTTP/1.0 204 No Content\r\n"
  | multipleChoices => "HTTP/1.0 300 Multiple Choices\r\n"
  | movedPermanently => "HTTP/1.0 301 Moved Permanently\r\n"
  | movedTemporarily => "HTTP/1.0 302 Moved Temporarily\r\n"
  | notModified => "HTTP/1.0 304 Not Modified\r\n"
  | badRequest => "HTTP/1.0 400 Bad Request\r\n"
  | unauthorized => "HTTP/1.0 401 Unauthorized\r\n"
  | forbidden => "HTTP/1.0 403 Forbidden\r\n"
  | notFound => "HTTP/1.0 404 Not Found\r\n"
  | internalServerError => "HTTP/1.0 500 Internal Server Error\r\n"
  | notImplemented => "HTTP/1.0 501 Not Implemented\r\n"
  | badGateway => "HTTP/1.0 502 Bad Gateway\r\n"
  | serviceUnavailable => "HTTP/1.0 503 Service Unavailable\r\n"

/-- `to_buffer`. -/
def toBuffer (status : Option StatusType) : List Char :=
  (status.getD .internalServerError).statusString.toList

/-- `misc_strings::name_value_separator`. -/
def nameValueSeparator : List Char := [':', ' ']

/-- `misc_strings::crlf`. -/
def crlf : List Char := ['\r', '\n']

/-- The buffers of a header line. -/
def Header.toBuffers (h : Header) : List (List Char) := [h.name, nameValueSeparator, h.value, crlf]

/-- `reply::to_buffers`. -/
def Reply.toBuffers (r : Reply) : List (List Char) :=
  toBuffer r.status :: (r.headers.flatMap Header.toBuffers ++ [crlf, r.content])

/-- `stock_replies::to_string`. -/
def StatusType.stockContent : StatusType → String
  | ok => ""
  | created =>
      "<html>" ++
      "<head><title>Created</title></head>" ++
      "<body><h1>201 Created</h1></body>" ++
      "</html>"
  | accepted =>
      "<html>" ++
      "<head><title>Accepted</title></head>" ++
      "<body><h1>202 Accepted</h1></body>" ++
      "</html>"
  | noContent =>
      "<html>" ++
      "<head><title>No Content</title></head>" ++
      "<body><h1>204 Content</h1></body>" ++
      "</html>"
  | multipleChoices =>
      "<html>" ++
      "<head><title>Multiple Choices</title></head>" ++
      "<body><h1>300 Multiple Choices</h1></body>" ++
      "</html>"
  | movedPermanently =>
      "<html>" ++
      "<head><title>Moved Permanently</title></head>" ++
      "<body><h1>301 Moved Permanently</h1></body>" ++
      "</html>"
  | movedTemporarily =>
      "<html>" ++
      "<head><title>Moved Temporarily</title></head>" ++
      "<body><h1>302 Moved Temporarily</h1></body>" ++
      "</html>"
  | notModified =>
      "<html>" ++
      "<head><title>Not Modified</title></head>" ++
      "<body><h1>304 Not Modified</h1></body>" ++
      "</html>"
  | badRequest =>
      "<html>" ++
      "<head><title>Bad Request</title></head>" ++
      "<body><h1>400 Bad Request</h1><br>" ++
      "<h2>MOTHEROFGOD! It is C++ http-server!</h2>" ++
      "<img src=http://www.hdwallpapers.net/images/mother-of-god-meme-wallpaper-for-ipad-4-87-589.jpg height=\"255\">" ++
      "</body></html>"
  | unauthorized =>
      "<html>" ++
      "<head><title>Unauthorized</title></head>" ++
      "<body><h1>401 Unauthorized</h1></body>" ++
      "</html>"
  | forbidden =>
      "<html>" ++
      "<head><title>Forbidden</title></head>" ++
      "<body><h1>403 Forbidden</h1></body>" ++
      "</html>"
  | notFound =>
      "<html>" ++
      "<head><title>Not Found</title></head>" ++
      "<body><h1>404 Not Found</h1></body>" ++
      "</html>"
  | internalServerError =>
      "<html>" ++
      "<head><title>Internal Server Error</title></head>" ++
      "<body><h1>500 Internal Server Error</h1></body>" ++
      "</html>"
  | notImplemented =>
      "<html>" ++
      "<head><title>Not Implemented</title></head>" ++
      "<body><h1>501 Not Implemented</h1></body>" ++
      "</html>"
  | badGateway =>
      "<html>" ++
      "<head><title>Bad Gateway</title></head>" ++
      "<body><h1>502 Bad Gateway</h1></body>" ++
      "</html>"
  | serviceUnavailable =>
      "<html>" ++
      "<head><title>Service Unavailable</title></head>" ++
      "<body><h1>503 Service Unavailable</h1></body>" ++
      "</html>"

/-- The two headers of every reply that is filled in. -/
def contentHeaders (content type : List Char) : List Header :=
  [⟨"Content-Length".toList, decimal content.length⟩, ⟨"Content-Type".toList, type⟩]

/-- `reply::stock_reply`. -/
def stockReply (status : StatusType) : Reply :=
  let content := status.stockContent.toList
  ⟨some status, contentHeaders content "text/html".toList, content⟩

/-! ## The request handler -/

/-- A request. No parser fills it in yet. -/
structure Request where
  data : List Char
  len : UInt32
  deriving DecidableEq

/-- The loop of `handle_request`: append the file to the content, 512 bytes at a time. -/
def appendFile (content file : List Char) : List Char :=
  if file = [] then content else appendFile (content ++ file.take 512) (file.drop 512)
termination_by file.length
decreasing_by
  have := List.length_pos_of_ne_nil ‹file ≠ []›
  simp only [List.length_drop]
  omega

/-- `request_handler::handle_request`, with the bytes of the file if it can be opened. The reply is
filled in where it stands; its headers are resized, so their names and values are all written. The
type is the integer 1, which a string takes for a character. -/
def handleRequest (file : Option (List Char)) (_req : Request) (rep : Reply) : Reply :=
  match file with
  | none => stockReply .notFound
  | some bytes =>
      let content := appendFile rep.content bytes
      ⟨some .ok, contentHeaders content [Char.ofNat 1], content⟩

end Robotd.Slaves
