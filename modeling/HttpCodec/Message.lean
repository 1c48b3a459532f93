import HttpCodec.Content
import HttpCodec.Fields
import HttpCodec.Query
import HttpCodec.StartLine

set_option autoImplicit false

/-! # Messages

A message is a start line, header fields, a body held in memory and trailer fields. This file
makes messages of what a caller gives and changes them; each part is checked, so that a message
can always be written. A change that fails leaves the message alone, except that `setBody` has
already changed the body when the header fields have no room for its length.
-/

namespace HttpCodec

/-- A request or a response. -/
structure Message where
  line : StartLine
  headers : Fields
  body : Octets
  trailers : Fields

/-- Why a message cannot have a part, or cannot be written. -/
inductive MessageError where
  | unsupportedProtocol (protocol : Text)
  | invalidMethod (method : Text)
  | invalidTarget (target : Text)
  | emptyPath (target : Text)
  | invalidQuery (query : Text)
  | invalidStatus (status : Int)
  /-- The status is not even a number that is written. -/
  | unwritten (cause : Decimal.Error)
  | invalidReason (reason : Text)
  /-- The status does not allow a body. -/
  | noBody (status : Int)
  /-- The status does not allow trailers. -/
  | noTrailers (status : Int)
  /-- Trailers cannot follow a body of declared length. -/
  | trailersWithLength
  /-- The part belongs to messages of the other kind. -/
  | wrongKind (kind : Kind)
  deriving DecidableEq

/-- The wording of an error. -/
def MessageError.message : MessageError → Text
  | .unsupportedProtocol protocol => "Unsupported protocol: " ++ Quoted.text protocol
  | .invalidMethod method => "Invalid method: " ++ Quoted.text method
  | .invalidTarget target => "Invalid request target: " ++ Quoted.text target
  | .emptyPath target => "Empty path in request target: " ++ Quoted.text target
  | .invalidQuery query => "Invalid query: " ++ Quoted.text query
  | .invalidStatus status => "Invalid status code: " ++ Decimal.ofInt status
  | .unwritten cause => cause.message
  | .invalidReason reason => "Invalid reason phrase: " ++ Quoted.text reason
  | .noBody status => "Status " ++ Decimal.ofInt status ++ " responses have no body"
  | .noTrailers status => "Status " ++ Decimal.ofInt status ++ " responses have no trailers"
  | .trailersWithLength => "Trailers require a chunked body, not a Content-Length"
  | .wrongKind .request => "Only requests have a method and a target"
  | .wrongKind .response => "Only responses have a status"

/-- What goes wrong when a message is made, changed or written. -/
inductive Fault where
  | field (cause : FieldError)
  | refused (cause : MessageError)
  | content (cause : Content.Error)
  | encoding (cause : Latin.Unencodable)
  deriving DecidableEq

/-- The wording of a fault. -/
def Fault.message : Fault → Text
  | .field cause => cause.message
  | .refused cause => cause.message
  | .content cause => cause.message
  | .encoding cause => cause.message

/-! ## Start lines from their parts -/

namespace RequestLine

/-- Sets the method, which has to be a token. -/
def setMethod (l : RequestLine) (method : Text) : Except MessageError RequestLine :=
  if FieldName.isToken method then .ok { l with method } else .error (.invalidMethod method)

/-- Sets the path and the query to those of a target. -/
def setUrl (l : RequestLine) (target : Text) : Except MessageError RequestLine :=
  if !StartLine.isTarget target then .error (.invalidTarget target)
  else
    let (path, query) := cut '?' target
    if path.isEmpty then .error (.emptyPath target) else .ok { l with path, query }

/-- Sets the query, which is empty or made of the characters of a target. -/
def setQuery (l : RequestLine) (query : Text) : Except MessageError RequestLine :=
  if !query.isEmpty && !StartLine.isTarget query then .error (.invalidQuery query)
  else .ok { l with query }

/-- A request line from its parts. Without a query the one in the target stays. -/
def make (version : Version) (method target : Text) (query : Option Text) :
    Except MessageError RequestLine := do
  let l ← setMethod ⟨[], [], [], version⟩ method
  let l ← l.setUrl target
  match query with
  | none => return l
  | some query => l.setQuery query

/-- The parameters in the query. -/
def parameters (l : RequestLine) : Dictionary Text Text := Query.read l.query

end RequestLine

namespace StatusLine

/-- Sets the status and its reason phrase, by default the registered one. The body that the
response has must be allowed with the status. -/
def setStatus (l : StatusLine) (status : Int) (reason : Option Text) (body : Octets) :
    Except MessageError StatusLine :=
  let reason := reason.getD (Status.reasonFor status)
  if !Status.isValid status then .error (refusal status)
  else if !StartLine.isReason reason then .error (.invalidReason reason)
  else if !body.isEmpty && !Status.hasBody status then .error (.noBody status)
  else .ok { l with status, reason }
where
  /-- What is wrong with a status that is none. -/
  refusal (status : Int) : MessageError :=
    match Decimal.write status with
    | .ok _ => .invalidStatus status
    | .error cause => .unwritten cause

/-- A status line from its parts. -/
def make (version : Version) (status : Int) (reason : Option Text) (body : Octets) :
    Except MessageError StatusLine :=
  setStatus ⟨version, 200, []⟩ status reason body

end StatusLine

namespace Message

/-! ## Making messages -/

/-- Where the header fields of a new message come from. -/
inductive HeaderSource where
  /-- Fields that are ready. -/
  | ready (fields : Fields)
  /-- Pairs that have yet to be checked. -/
  | pairs (pairs : List (Scalar × FieldValue))

/-- The header fields, unless a pair makes no field. -/
def HeaderSource.read : HeaderSource → Except FieldError Fields
  | .ready fs => .ok fs
  | .pairs ps => Fields.addAll {} ps

/-- What requests and responses are made of alike. -/
structure Parts where
  protocol : Text := "HTTP/1.1"
  headers : HeaderSource := .pairs []
  body : Content := Content.none
  trailers : Option Fields := none

/-- Checks the common parts in turn. -/
def Parts.read (parts : Parts) : Except Fault (Version × Fields × Octets × Fields) :=
  match Version.ofText? parts.protocol with
  | none => .error (.refused (.unsupportedProtocol parts.protocol))
  | some version => do
      let headers ← parts.headers.read.mapError .field
      let body ← parts.body.toOctets.mapError .content
      return (version, headers, body, parts.trailers.getD {})

/-- A new request. -/
def request (method target : Text) (query : Option Text) (parts : Parts) :
    Except Fault Message := do
  let (version, headers, body, trailers) ← parts.read
  let line ← (RequestLine.make version method target query).mapError .refused
  return ⟨.request line, headers, body, trailers⟩

/-- A new response. -/
def response (status : Int) (reason : Option Text) (parts : Parts) : Except Fault Message := do
  let (version, headers, body, trailers) ← parts.read
  let line ← (StatusLine.make version status reason body).mapError .refused
  return ⟨.response line, headers, body, trailers⟩

/-- The message that starts with a line that was read, if its parts can be written. -/
def ofStartLine (line : StartLine) (headers : Fields) (body : Octets) (trailers : Fields) :
    Except MessageError Message :=
  match line with
  | .request l =>
      let query := if l.query.isEmpty then none else some l.query
      (RequestLine.make l.version l.method l.path query).map fun l =>
        ⟨.request l, headers, body, trailers⟩
  | .response l =>
      (StatusLine.make l.version l.status (some l.reason) body).map fun l =>
        ⟨.response l, headers, body, trailers⟩

/-- Two messages are the same if their start lines, fields and bodies are; how their fields are
looked up does not matter. -/
def same (m n : Message) : Bool :=
  m.line = n.line && m.headers.fields = n.headers.fields && m.body = n.body &&
    m.trailers.fields = n.trailers.fields

/-! ## Changing messages -/

/-- Changes the request line. -/
def changeRequest (m : Message) (change : RequestLine → Except MessageError RequestLine) :
    Except Fault Message :=
  match m.line with
  | .request l => ((change l).map fun l => { m with line := .request l }).mapError .refused
  | .response _ => .error (.refused (.wrongKind .request))

/-- Sets the method of a request. -/
def setMethod (m : Message) (method : Text) : Except Fault Message :=
  m.changeRequest (·.setMethod method)

/-- Sets the path and the query of a request. -/
def setUrl (m : Message) (target : Text) : Except Fault Message :=
  m.changeRequest (·.setUrl target)

/-- Sets the query of a request. -/
def setQuery (m : Message) (query : Text) : Except Fault Message :=
  m.changeRequest (·.setQuery query)

/-- Sets the status of a response and its reason phrase. -/
def setStatus (m : Message) (status : Int) (reason : Option Text) : Except Fault Message :=
  match m.line with
  | .response l =>
      ((l.setStatus status reason m.body).map fun l =>
        { m with line := .response l }).mapError .refused
  | .request _ => .error (.refused (.wrongKind .response))

/-- Replaces the header fields of a name by one field, or removes them. -/
def setHeader (m : Message) (name : Scalar) (value : Option FieldValue) : Except Fault Message :=
  (do
    let name ← name.fieldName
    match value with
    | none => return { m with headers := m.headers.remove name }
    | some value => return { m with headers := ← m.headers.set name value }).mapError .field

/-- Adds a header field. -/
def addHeader (m : Message) (name : Scalar) (value : FieldValue) : Except Fault Message :=
  (do return { m with headers := ← m.headers.add (← name.fieldName) value }).mapError .field

/-- Adds a trailer field. -/
def addTrailer (m : Message) (name : Scalar) (value : FieldValue) : Except Fault Message :=
  (do return { m with trailers := ← m.trailers.add (← name.fieldName) value }).mapError .field

/-- Sets the body and then the header field with its length, which is written whatever it is: no body
has a length of more than `Decimal.maxDigits` digits. -/
def setBody (m : Message) (content : Content) : Message × Except Fault Unit :=
  match m.line with
  | .request _ => write content
  | .response l =>
      if content.isPresent && !Status.hasBody l.status then
        (m, .error (.refused (.noBody l.status)))
      else write content
where
  write (content : Content) : Message × Except Fault Unit :=
    match content.toOctets with
    | .error e => (m, .error (.content e))
    | .ok body =>
        -- no body in memory is so long that its length would not be written
        match m.headers.set FieldName.contentLength (.text (Decimal.ofNat body.length)) with
        | .error e => ({ m with body }, .error (.field e))
        | .ok headers => ({ m with body, headers }, .ok ())

/-- A change to a message. -/
inductive Edit where
  | setMethod (method : Text)
  | setUrl (target : Text)
  | setQuery (query : Text)
  | setStatus (status : Int) (reason : Option Text)
  | setHost (host : FieldValue)
  | setCookie (cookie : FieldValue)
  | setContentType (type : FieldValue)
  | setHeader (name : Scalar) (value : Option FieldValue)
  | addHeader (name : Scalar) (value : FieldValue)
  | addTrailer (name : Scalar) (value : FieldValue)
  | setBody (content : Content)

/-- The message after a change that leaves it alone when it fails. -/
def settle (m : Message) : Except Fault Message → Message × Except Fault Unit
  | .ok changed => (changed, .ok ())
  | .error e => (m, .error e)

/-- The message after a change, and whether the change succeeded. -/
def apply (m : Message) : Edit → Message × Except Fault Unit
  | .setMethod method => m.settle (m.setMethod method)
  | .setUrl target => m.settle (m.setUrl target)
  | .setQuery query => m.settle (m.setQuery query)
  | .setStatus status reason => m.settle (m.setStatus status reason)
  | .setHost host => m.settle (m.setHeader (.text "Host") (some host))
  | .setCookie cookie => m.settle (m.setHeader (.text "Cookie") (some cookie))
  | .setContentType type => m.settle (m.setHeader (.text FieldName.contentType) (some type))
  | .setHeader name value => m.settle (m.setHeader name value)
  | .addHeader name value => m.settle (m.addHeader name value)
  | .addTrailer name value => m.settle (m.addTrailer name value)
  | .setBody content => m.setBody content

/-- A response with a `Connection` field and, if they are given, a content type and a body. -/
def respond (status : Int) (content : Option Content) (contentType : Option FieldValue)
    (keepAlive : Bool) (reason : Option Text) (protocol : Text) : Except Fault Message := do
  let connection : Text := if keepAlive then "Keep-Alive" else "Close"
  let m ← response status reason { protocol }
  let m ← m.setHeader (.text "Connection") (some (.text connection))
  let m ← match contentType with
    | none => pure m
    | some type => m.setHeader (.text FieldName.contentType) (some type)
  match content with
  | none => return m
  | some content =>
      let (m, done) := m.setBody content
      done.map fun () => m

/-! ## Looking at messages -/

/-- The length that the header fields declare. -/
def contentLength (m : Message) : Except Decimal.Error (Option Int) :=
  match m.headers.get? FieldName.contentLength with
  | none => .ok none
  | some value => if Digit.allDigits value then (Decimal.read value).map some else .ok none

/-- What the header fields say that the body is. -/
def contentType (m : Message) : Option Text := m.headers.get? FieldName.contentType

/-- A message in one line, for reports. -/
def shown (m : Message) : Text :=
  match m.line with
  | .request l => "HTTPRequest(" ++ l.text ++ rest
  | .response l => "HTTPResponse(" ++ l.text ++ rest
where
  rest : Text :=
    " " ++ m.headers.shown ++ " body=" ++ Decimal.ofNat m.body.length ++ ")"

end Message

end HttpCodec
