import SessionWarden.Bytes
/-!
# Requests

A request is its method, its target, its headers and its body. Header names are compared without regard to
case; a header value is text only if it consists of printable ASCII characters and tabs. Four of the headers
are the signal of a client: a session is bound to it, so that a token is of use only to a client that tells
the same.
-/

namespace SessionWarden

/-! ### Client signals -/

/-- The four headers that make up a client's signal. -/
structure ClientHeaders where
  brands : Option String
  userAgent : Option String
  language : Option String
  upgrade : Option String
deriving DecidableEq, Repr

/-- The signal of a client: its headers with colons between them, an absent one counting as empty
(`client_signal`). -/
def ClientHeaders.signalText (h : ClientHeaders) : String :=
  ":".intercalate ([h.brands, h.userAgent, h.language, h.upgrade].map fun x => x.getD "")

def ClientHeaders.signal (h : ClientHeaders) : Bytes := Bytes.ofString h.signalText

/-! ### Requests -/

structure Request where
  method : String
  target : String
  headers : List (String × Bytes)
  body : Bytes

namespace Request

def headerValues (r : Request) (name : String) : List Bytes :=
  (r.headers.filter fun h => h.1.toList.map Char.toLower == name.toList).map Prod.snd

def header? (r : Request) (name : String) : Option Bytes := (r.headerValues name).head?

/-- Whether a byte may stand in a header value that is text. -/
def isTextByte (b : UInt8) : Bool := b == 0x09 || (0x20 ≤ b && b < 0x7f)

def valueText? (b : Bytes) : Option String := if b.all isTextByte then Bytes.toString? b else none

/-- The path of a request: its target up to a question mark or a number sign. -/
def path (r : Request) : List Char := r.target.toList.takeWhile fun c => c != '?' && c != '#'

/-- The segments of a path; one slash may stand at its front and one at its end. -/
def segmentsOf (path : List Char) : List String :=
  let bare := match path with
    | '/' :: rest => rest
    | path => path
  let segments := (bare.splitOn '/').map String.ofList
  if segments.getLast? = some "" then segments.dropLast else segments

def segments (r : Request) : List String := segmentsOf r.path

/-- Reads a header that may be absent; a value that is no text is refused. -/
def optional? (r : Request) (name : String) : Option (Option String) :=
  match r.header? name with
  | none => some none
  | some b => (valueText? b).map some

def clientHeaders? (r : Request) : Option ClientHeaders := do
  return ⟨← r.optional? "sec-ch-ua", ← r.optional? "user-agent", ← r.optional? "accept-language",
    ← r.optional? "upgrade-insecure-requests"⟩

/-- The signal of the client (`with_fingerprint`). -/
def signal? (r : Request) : Option Bytes := r.clientHeaders?.map ClientHeaders.signal

end Request

end SessionWarden
