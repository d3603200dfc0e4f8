import SessionWarden.Bytes
/-!
# Media types

The reading of a media type as far as its two names go. Parameters after it must have their form and are
otherwise passed over.
-/

namespace SessionWarden

/-- The names of a media type in lower case; what follows the last plus sign is left off. -/
structure MediaType where
  type : String
  subtype : String
deriving DecidableEq, Repr

namespace MediaType

def isTokenChar (c : Char) : Bool := c.isAlphanum || "!#$%&'*+-.^_\x60|~".toList.contains c

/-- Reads a value between quotes up to what follows it; it is not empty. -/
def readQuoted? (cs : List Char) : Option (List Char) :=
  let isInside (c : Char) : Bool := ' ' ≤ c && c != '\x7f' && c != '"'
  match cs with
  | c :: rest =>
    if c.toNat < 32 ∨ c = '\x7f' then none
    else
      match rest.dropWhile isInside with
      | '"' :: after => some after
      | _ => none
  | [] => none

/-- What follows a quoted value: blanks, and the next parameters or the end. -/
def afterQuoted? (cs : List Char) : Option (List Char) :=
  match cs.dropWhile (· == ' ') with
  | ';' :: rest => some rest
  | [] => some []
  | _ => none

/-- Whether a text is a list of parameters (`fuel` bounds their number). Blanks and semicolons may stand
before each. -/
def areParameters : Nat → List Char → Bool
  | _, [] => true
  | 0, _ => false
  | fuel + 1, c :: rest =>
    if c = ' ' ∨ c = ';' then areParameters fuel rest
    else
      match (c :: rest).dropWhile isTokenChar with
      | '=' :: value =>
        if c = '=' then false
        else
          match value with
          | '"' :: quoted =>
            match (readQuoted? quoted).bind afterQuoted? with
            | some after => areParameters fuel after
            | none => false
          | ';' :: _ => false
          | _ =>
            match value.dropWhile isTokenChar with
            | [] => true
            | ';' :: after => areParameters fuel after
            | _ => false
      | _ => false

/-- The part of a subtype before its last plus sign, unless that stands in front. -/
def withoutSuffix (cs : List Char) : List Char :=
  match cs.reverse.span (· != '+') with
  | (_, _ :: front) => if front = [] then cs else front.reverse
  | (_, []) => cs

def parse? (text : String) : Option MediaType :=
  let cs := text.toList.map Char.toLower
  let type := cs.takeWhile isTokenChar
  match cs.dropWhile isTokenChar with
  | '/' :: rest =>
    let subtype := rest.takeWhile isTokenChar
    let valid : Bool := match rest.dropWhile isTokenChar with
      | [] => true
      | c :: parameters => (c == ';' || c == ' ') && !subtype.isEmpty && areParameters cs.length parameters
    if !type.isEmpty && valid then some ⟨String.ofList type, String.ofList (withoutSuffix subtype)⟩ else none
  | _ => none

def json : MediaType := ⟨"application", "json"⟩

end MediaType

end SessionWarden
