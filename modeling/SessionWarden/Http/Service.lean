import SessionWarden.Http.MediaType
import SessionWarden.Http.Response
import SessionWarden.Session.Engine
/-!
# The service

Five endpoints over the session engine. A request is offered to every endpoint; those it was not meant for
refuse it by method or path, and the reasons of all refusals together decide what is answered. An endpoint
that takes a request answers it or refuses it for its content.
-/

namespace SessionWarden

/-- The service: its engine, its inspector of access credentials and the path of its cookie. -/
structure Service where
  engine : Engine
  inspector : Inspector
  cookiePath : String

/-! ### Endpoints -/

/-- What can be asked of the service (`routes`). -/
inductive Endpoint where
  | login
  | refresh
  | revoke
  | revokeAll
  | session
deriving DecidableEq, Repr

namespace Endpoint

def all : List Endpoint := [.login, .refresh, .revoke, .revokeAll, .session]

def method : Endpoint → String
  | .session => "GET"
  | _ => "POST"

def path : Endpoint → List String
  | .login => ["token"]
  | .refresh => ["token", "refresh"]
  | .revoke => ["token", "revoke"]
  | .revokeAll => ["token", "revoke-all"]
  | .session => ["session"]

/-- Whether a request is meant for an endpoint; the method is looked at first. -/
def check (e : Endpoint) (r : Request) : Except Refusal Unit :=
  if r.method ≠ e.method then .error .method
  else if r.segments ≠ e.path then .error .notFound
  else .ok ()

end Endpoint

/-! ### Contents -/

/-- What a login asks for (`LoginRequest`). -/
structure LoginRequest where
  name : String
  password : String
  persistent : Bool
deriving DecidableEq, Repr

namespace LoginRequest

/-- The login of a value; it is not persistent unless it says so. -/
def ofJson? (j : Json) : Option LoginRequest := do
  match ← j.fields? ["name", "password", "persistent"] 2 with
  | [some name, some password, persistent] =>
    let stays ← match persistent with
      | none => some false
      | some b => b.bool?
    return ⟨← name.text?, ← password.text?, stays⟩
  | _ => none

/-- The login of a request. Without a content type its body is taken for JSON. -/
def ofRequest (r : Request) : Except Refusal LoginRequest :=
  let isJson := match r.header? "content-type" with
    | none => true
    | some value => ((Request.valueText? value).bind MediaType.parse?) == some .json
  if !isJson then .error .mediaType
  else
    match (Json.read? r.body).bind ofJson? with
    | some login => .ok login
    | none => .error .body

end LoginRequest

def bearerCredential? (authorization : String) : Option String :=
  let scheme := "Bearer ".toList
  if scheme.isPrefixOf authorization.toList then
    some (String.ofList (authorization.toList.drop scheme.length))
  else none

namespace Service

/-! ### Answers -/

/-- Answers an error: what the client caused is told to it and noted, anything else is only noted. -/
def answerError (e : AuthError) (cookie : Option String) : Script Response := do
  match e with
  | .store text | .internal text => Script.query (.note (.internalFailure text))
  | _ => Script.query (.note (.requestRejected e.message))
  return .failure (.ofError e) cookie

/-- Answers an error to the holder of a refresh token, which is cleared if it is of no more use
(`ApiRejection::with_cookie`). -/
def answerTokenError (s : Service) (e : AuthError) : Script Response :=
  answerError e (if e.discardsRefreshToken then some (clearRefreshCookie s.cookiePath) else none)

/-- Answers a new pair of tokens (`with_pair`). -/
def answerPair (s : Service) (p : TokenPair) : Response :=
  .success (.record [("access_token", .string p.access),
      ("refresh_expires_at", .string (p.refresh.expires.timestamp "Z")),
      ("persistent", .bool p.refresh.persistent)])
    (some (setRefreshCookie s.cookiePath p.refresh))

def answerClosed (s : Service) : Response := .success .null (some (clearRefreshCookie s.cookiePath))

def answerPrincipal (p : Principal) : Response :=
  .success (.record [("user_id", .string p.user.uuid.toText), ("roles", .array (p.roles.map .string))]) none

/-! ### Handlers -/

def answering {α : Type} (a : Action α) (answer : α → Response) (onError : AuthError → Script Response) :
    Script (Except Refusal Response) := do
  match ← a.run with
  | .ok x => return .ok (answer x)
  | .error e => return .ok (← onError e)

/-- Opens a session for a name and a password (`login`). -/
def handleLogin (s : Service) (r : Request) : Script (Except Refusal Response) :=
  match LoginRequest.ofRequest r, r.signal? with
  | .error refusal, _ => return .error refusal
  | .ok _, none => return .error .invalidHeader
  | .ok login, some signal =>
    answering (do s.engine.create (← Login.verify login.name login.password) signal login.persistent)
      s.answerPair fun e => answerError e none

/-- Does something with the refresh token that a request carries (`refresh`, `revoke` and `revoke_all` do). -/
def withToken {α : Type} (s : Service) (r : Request) (act : TokenId → Bytes → Action α)
    (answer : α → Response) : Script (Except Refusal Response) :=
  match r.refreshToken? with
  | none => return .ok (← s.answerTokenError .tokenIncorrect)
  | some id =>
    match r.signal? with
    | none => return .error .invalidHeader
    | some signal => answering (act id signal) answer s.answerTokenError

/-- Tells who an access credential speaks for (`with_verification`, then `session`). -/
def handleSession (s : Service) (r : Request) : Script (Except Refusal Response) :=
  match r.optional? "authorization", r.signal? with
  | some authorization, some signal =>
    match authorization.bind bearerCredential? with
    | none => return .ok (← answerError .credentialInvalid none)
    | some credential =>
      answering (s.inspector.verify credential signal) answerPrincipal fun e => answerError e none
  | _, _ => return .error .invalidHeader

def handle (s : Service) (e : Endpoint) (r : Request) : Script (Except Refusal Response) :=
  match e with
  | .login => s.handleLogin r
  | .refresh => s.withToken r s.engine.refresh s.answerPair
  | .revoke => s.withToken r Engine.delete fun _ => s.answerClosed
  | .revokeAll => s.withToken r Engine.deleteAll fun _ => s.answerClosed
  | .session => s.handleSession r

/-- Answers refusals (`recover_error`). -/
def answerRefusals (refusals : List Refusal) : Script Response := do
  let code := Refusal.code refusals
  if code = .internalError then Script.query (.note (.internalFailure (Refusal.report refusals)))
  return .failure code none

/-- Offers a request to endpoints in turn, given the refusals so far. -/
def offer (s : Service) (r : Request) : List Refusal → List Endpoint → Script Response
  | refusals, [] => answerRefusals refusals
  | refusals, e :: rest =>
    match e.check r with
    | .error refusal => s.offer r (refusals ++ [refusal]) rest
    | .ok () => do
      match ← s.handle e r with
      | .ok response => return response
      | .error refusal => s.offer r (refusals ++ [refusal]) rest

/-- The response to a request (`routes`). -/
def respond (s : Service) (r : Request) : Script Response := s.offer r [] Endpoint.all

end Service

end SessionWarden
