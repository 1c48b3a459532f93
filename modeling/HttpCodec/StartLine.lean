import HttpCodec.Field.Name
import HttpCodec.Status
import HttpCodec.Text.Latin

set_option autoImplicit false

/-! # Start lines

A request starts with its method, its target and the protocol, a response with the protocol, a
status code and a reason phrase. The target is kept as a path and a query. `StartLine.read` takes
a line apart, and `StartLine.text` writes it.
-/

namespace HttpCodec

/-- What a message is. -/
inductive Kind where
  | request
  | response
  deriving DecidableEq

/-- The versions of the protocol. -/
inductive Version where
  | http10
  | http11
  deriving DecidableEq

/-- A version as it is written. -/
def Version.text : Version → Text
  | .http10 => "HTTP/1.0"
  | .http11 => "HTTP/1.1"

/-- The version that a text writes. -/
def Version.ofText? (t : Text) : Option Version :=
  if t = "HTTP/1.0" then some .http10
  else if t = "HTTP/1.1" then some .http11
  else none

/-- The first line of a request. -/
structure RequestLine where
  method : Text
  path : Text
  query : Text
  version : Version
  deriving DecidableEq

/-- The first line of a response. -/
structure StatusLine where
  version : Version
  status : Int
  reason : Text
  deriving DecidableEq

/-- The first line of a message. -/
inductive StartLine where
  | request (line : RequestLine)
  | response (line : StatusLine)
  deriving DecidableEq

/-- The target of a request: the path, and the query if there is one. -/
def RequestLine.target (l : RequestLine) : Text :=
  if l.query.isEmpty then l.path else l.path ++ "?" ++ l.query

/-- A request line without its end. -/
def RequestLine.text (l : RequestLine) : Text :=
  l.method ++ " " ++ l.target ++ " " ++ l.version.text

/-- A status line without its end. -/
def StatusLine.text (l : StatusLine) : Text :=
  l.version.text ++ " " ++ Decimal.ofInt l.status ++ " " ++ l.reason

namespace StartLine

/-- A start line without its end. -/
def text : StartLine → Text
  | .request l => l.text
  | .response l => l.text

/-- What the message is that a line starts. -/
def kind : StartLine → Kind
  | .request _ => .request
  | .response _ => .response

/-- The version of the protocol on a line. -/
def version : StartLine → Version
  | .request l => l.version
  | .response l => l.version

/-- Tells whether a message that starts like this may have a body. -/
def allowsBody : StartLine → Bool
  | .request _ => true
  | .response l => Status.hasBody l.status

/-! ## What the parts are made of -/

/-- A target is made of visible ASCII characters; all others have to be percent encoded. -/
def isTarget (t : Text) : Bool := !t.isEmpty && t.all fun c => 0x21 ≤ c.toNat && c.toNat ≤ 0x7E

/-- A reason phrase is made of Latin-1 characters without control characters but tabs. -/
def isReason (t : Text) : Bool :=
  !t.any CharClass.isForbiddenControl && t.all Latin.isLatin

/-! ## Reading -/

/-- Why a line is not a start line. -/
inductive Error where
  | malformedRequestLine (line : Text)
  | invalidMethod (method : Text)
  | invalidTarget (target : Text)
  | unsupportedProtocol (protocol : Text)
  | emptyPath (target : Text)
  | malformedStatusLine (line : Text)
  | invalidStatus (status : Int)
  | invalidReason (reason : Text)
  deriving DecidableEq

/-- A piece of a line in an error: quoted, and its first 64 characters at most. -/
def excerpt (t : Text) : Text := Quoted.text (t.take 64)

/-- The wording of an error. -/
def Error.message : Error → Text
  | .malformedRequestLine line => "Malformed request line: " ++ excerpt line
  | .invalidMethod method => "Invalid method: " ++ excerpt method
  | .invalidTarget target => "Invalid target: " ++ excerpt target
  | .unsupportedProtocol protocol => "Unsupported protocol: " ++ excerpt protocol
  | .emptyPath target => "Empty path in target: " ++ excerpt target
  | .malformedStatusLine line => "Malformed status line: " ++ excerpt line
  | .invalidStatus status => "Invalid status code: " ++ Decimal.ofInt status
  | .invalidReason reason => "Invalid reason phrase: " ++ excerpt reason

/-- Reads a request line. -/
def readRequest (line : Text) : Except Error RequestLine :=
  match splitOn ' ' line with
  | [method, target, protocol] =>
      if !FieldName.isToken method then .error (.invalidMethod method)
      else if !isTarget target then .error (.invalidTarget target)
      else
        match Version.ofText? protocol with
        | none => .error (.unsupportedProtocol protocol)
        | some version =>
            let (path, query) := cut '?' target
            if path.isEmpty then .error (.emptyPath target)
            else .ok ⟨method, path, query, version⟩
  | _ => .error (.malformedRequestLine line)

/-- The reason phrase after a status code: nothing, or what follows a space. -/
def reasonAfterCode : Text → Option Text
  | [] => some []
  | ' ' :: reason => some reason
  | _ => none

/-- The version, the three digits of the status code and the reason phrase of a line that has the
form of a status line. -/
def statusParts? (line : Text) : Option (Version × Text × Text) :=
  match Version.ofText? (line.take 8), line.drop 8 with
  | some version, ' ' :: a :: b :: c :: rest =>
      if a.isDigit && b.isDigit && c.isDigit then
        (reasonAfterCode rest).map fun reason => (version, [a, b, c], reason)
      else none
  | _, _ => none

/-- Reads a status line. -/
def readResponse (line : Text) : Except Error StatusLine :=
  match statusParts? line with
  | none => .error (.malformedStatusLine line)
  | some (version, digits, reason) =>
      let status : Int := Nat.ofDigitChars 10 digits 0
      if !Status.isValid status then .error (.invalidStatus status)
      else if reason.any CharClass.isForbiddenControl then .error (.invalidReason reason)
      else .ok ⟨version, status, reason⟩

/-- The kind of message that a line starts: only responses start with the protocol. -/
def kindOf (line : Text) : Kind :=
  if ("HTTP/" : Text).isPrefixOf line then .response else .request

/-- Reads the start line of a message of the given kind, or of the kind that the line itself
suggests. -/
def read (kind : Option Kind) (line : Text) : Except Error StartLine :=
  match kind.getD (kindOf line) with
  | .request => (readRequest line).map .request
  | .response => (readResponse line).map .response

end StartLine

end HttpCodec
