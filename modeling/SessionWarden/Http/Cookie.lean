import SessionWarden.Http.Request
import SessionWarden.Session.Record
/-!
# The refresh cookie

The refresh token travels in a cookie of its own. Reading finds the first cookie of its name; writing sets it
for as long as the session lasts, or clears it.
-/

namespace SessionWarden

/-- The name of the cookie (`REFRESH_COOKIE`). -/
def refreshCookieName : String := "refresh_token"

/-! ### Reading -/

def splitCookies : Bool → List Char → List (List Char)
  | _, [] => [[]]
  | quoted, c :: rest =>
    if c = ';' ∧ !quoted then [] :: splitCookies false rest
    else
      match splitCookies (if c = '"' then !quoted else quoted) rest with
      | piece :: pieces => (c :: piece) :: pieces
      | [] => [[c]]

def trimBlanks (cs : List Char) : List Char :=
  let isBlank (c : Char) : Bool := c == ' ' || c == '\t'
  ((cs.dropWhile isBlank).reverse.dropWhile isBlank).reverse

/-- The name and the value of one cookie; a text without an equals sign is none. -/
def readCookie? (cs : List Char) : Option (String × String) :=
  match cs.span (· != '=') with
  | (name, _ :: value) => some (String.ofList (trimBlanks name), String.ofList (trimBlanks value))
  | (_, []) => none

/-- The cookies of a request: all its cookie headers, if they are text. -/
def Request.cookies (r : Request) : List (String × String) :=
  match (r.headerValues "cookie").mapM Request.valueText? with
  | none => []
  | some values => (splitCookies false ("; ".intercalate values).toList).filterMap readCookie?

def Request.cookie? (r : Request) (name : String) : Option String :=
  (r.cookies.find? fun c => c.1 == name).map Prod.snd

/-- The refresh token that a request carries (`with_refresh_id`). -/
def Request.refreshToken? (r : Request) : Option TokenId :=
  (r.cookie? refreshCookieName).bind fun value =>
    match Uuid.parse value with
    | .ok u => some ⟨u⟩
    | .error _ => none

/-! ### Writing -/

/-- The text that sets the cookie for a record under a path (`RefreshCookie::set`). It expires with a persistent
record and else with the browser. -/
def setRefreshCookie (path : String) (r : Record) : String :=
  refreshCookieName ++ "=" ++ r.id.uuid.toText ++ "; Path=" ++ path ++ "; HttpOnly; Secure; SameSite=None" ++
    (if r.persistent then "; Expires=" ++ r.expires.httpDate else "")

/-- The text that clears the cookie under a path (`RefreshCookie::clear`). -/
def clearRefreshCookie (path : String) : String :=
  refreshCookieName ++ "=; Path=" ++ path ++ "; HttpOnly; Secure; SameSite=None; Max-Age=0"

/-- Whether a text can be the value of a header: it has no control characters but tabs. -/
def isHeaderText (s : String) : Bool := s.toList.all fun c => c == '\t' || (32 ≤ c.toNat && c != '\x7f')

end SessionWarden
