import HttpCodec.Text.Blank
import HttpCodec.Text.LetterCase

set_option autoImplicit false

/-! # Status codes

The registered status codes with their reason phrases, and which codes are valid and which allow
a body. A phrase is looked up without regard to letter case and surrounding blanks.
-/

namespace HttpCodec.Status

/-- Codes for requests that are being worked on. -/
def informational : List (Int × Text) := [
  (100, "Continue"),
  (101, "Switching Protocols"),
  (102, "Processing")]

/-- Codes for requests that were fulfilled. -/
def successful : List (Int × Text) := [
  (200, "OK"),
  (201, "Created"),
  (202, "Accepted"),
  (203, "Non-Authoritative Information"),
  (204, "No Content"),
  (205, "Reset Content"),
  (206, "Partial Content"),
  (207, "Multi-Status"),
  (208, "Already Reported"),
  (226, "IM Used")]

/-- Codes that send the client elsewhere. -/
def redirections : List (Int × Text) := [
  (300, "Multiple Choices"),
  (301, "Moved Permanently"),
  (302, "Found"),
  (303, "See Other"),
  (304, "Not Modified"),
  (305, "Use Proxy"),
  (307, "Temporary Redirect"),
  (308, "Permanent Redirect")]

/-- Codes that blame the request. -/
def clientErrors : List (Int × Text) := [
  (400, "Bad Request"),
  (401, "Unauthorized"),
  (402, "Payment Required"),
  (403, "Forbidden"),
  (404, "Not Found"),
  (405, "Method Not Allowed"),
  (406, "Not Acceptable"),
  (407, "Proxy Authentication Required"),
  (408, "Request Timeout"),
  (409, "Conflict"),
  (410, "Gone"),
  (411, "Length Required"),
  (412, "Precondition Failed"),
  (413, "Payload Too Large"),
  (414, "URI Too Long"),
  (415, "Unsupported Media Type"),
  (416, "Range Not Satisfiable"),
  (417, "Expectation Failed"),
  (421, "Misdirected Request"),
  (422, "Unprocessable Entity"),
  (423, "Locked"),
  (424, "Failed Dependency"),
  (426, "Upgrade Required"),
  (428, "Precondition Required"),
  (429, "Too Many Requests"),
  (431, "Request Header Fields Too Large"),
  (444, "Connection Closed Without Response"),
  (451, "Unavailable For Legal Reasons"),
  (499, "Client Closed Request")]

/-- Codes that blame the server. -/
def serverErrors : List (Int × Text) := [
  (500, "Internal Server Error"),
  (501, "Not Implemented"),
  (502, "Bad Gateway"),
  (503, "Service Unavailable"),
  (504, "Gateway Timeout"),
  (505, "HTTP Version Not Supported"),
  (506, "Variant Also Negotiates"),
  (507, "Insufficient Storage"),
  (508, "Loop Detected"),
  (510, "Not Extended"),
  (511, "Network Authentication Required"),
  (599, "Network Connect Timeout Error")]

/-- The registered codes and their reason phrases, by code. -/
def table : List (Int × Text) :=
  informational ++ successful ++ redirections ++ clientErrors ++ serverErrors

/-- The phrase for codes that are not registered. -/
def unknown : Text := "<unknown-status>"

/-- The registered phrase of a code. -/
def phrase? (code : Int) : Option Text := (table.find? (·.1 == code)).map (·.2)

/-- The phrase of a code, or `unknown`. -/
def reasonFor (code : Int) : Text := (phrase? code).getD unknown

/-- The code registered for a phrase. -/
def codeFor? (phrase : Text) : Option Int :=
  let key := LetterCase.lower (Blank.strip phrase)
  (table.find? fun entry => LetterCase.lower entry.2 == key).map (·.1)

/-- Codes have three digits and the first is one to five. -/
def isValid (code : Int) : Bool := 100 ≤ code && code ≤ 599

/-- Tells whether a response with the code may have a body: those with a code below 200 and
those with 204 or 304 never do. -/
def hasBody (code : Int) : Bool := 200 ≤ code && code != 204 && code != 304

end HttpCodec.Status
