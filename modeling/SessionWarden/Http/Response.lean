import SessionWarden.Failure
import SessionWarden.Http.Cookie
import SessionWarden.Json
/-!
# Responses

Every response has a status, a body of one shape and perhaps a cookie to set. A failure is told by a code; an
internal one tells nothing about its cause.
-/

namespace SessionWarden

/-! ### Codes -/

/-- What a client is told about a failure (`ApiErrorCode`). -/
inductive ErrorCode where
  | userNotExist
  | passwordIncorrect
  | tokenIncorrect
  | tokenExpired
  | fingerprintIncorrect
  | credentialInvalid
  | badRequest
  | notFound
  | methodNotAllowed
  | internalError
deriving DecidableEq, Repr

namespace ErrorCode

def name : ErrorCode → String
  | .userNotExist => "UserNotExist"
  | .passwordIncorrect => "PasswordIncorrect"
  | .tokenIncorrect => "TokenIncorrect"
  | .tokenExpired => "TokenExpired"
  | .fingerprintIncorrect => "FingerprintIncorrect"
  | .credentialInvalid => "CredentialInvalid"
  | .badRequest => "BadRequest"
  | .notFound => "NotFound"
  | .methodNotAllowed => "MethodNotAllowed"
  | .internalError => "InternalError"

def message : ErrorCode → String
  | .userNotExist => "User does not exist"
  | .passwordIncorrect => "Password is incorrect"
  | .tokenIncorrect => "Refresh token is incorrect"
  | .tokenExpired => "Refresh token is expired"
  | .fingerprintIncorrect => "Client fingerprint does not match"
  | .credentialInvalid => "Access token is invalid"
  | .badRequest => "Malformed request"
  | .notFound => "Not found"
  | .methodNotAllowed => "Method not allowed"
  | .internalError => "Internal error"

/-- The status of a code (`ApiErrorCode::status`). -/
def status : ErrorCode → Nat
  | .badRequest => 400
  | .notFound => 404
  | .methodNotAllowed => 405
  | .internalError => 500
  | _ => 401

/-- The code of an error of the service. -/
def ofError : AuthError → ErrorCode
  | .userNotExist => .userNotExist
  | .passwordIncorrect => .passwordIncorrect
  | .tokenIncorrect => .tokenIncorrect
  | .tokenExpired => .tokenExpired
  | .fingerprintIncorrect => .fingerprintIncorrect
  | .credentialInvalid => .credentialInvalid
  | .store _ | .internal _ => .internalError

end ErrorCode

/-! ### Responses -/

structure Response where
  status : Nat
  body : Json
  /-- The value of the header that sets or clears the refresh cookie. -/
  setCookie : Option String

namespace Response

def envelope (success : Bool) (data error : Json) : Json :=
  .record [("success", .bool success), ("data", data), ("error", error)]

/-- A success with its data (`ApiResponse::ok`); a cookie that no header can hold is left out. -/
def success (data : Json) (cookie : Option String) : Response :=
  ⟨200, envelope true data .null, cookie.filter isHeaderText⟩

/-- A failure with its code (`ApiResponse::err`). -/
def failure (code : ErrorCode) (cookie : Option String) : Response :=
  ⟨code.status,
    envelope false .null (.record [("code", .string code.name), ("message", .string code.message)]),
    cookie.filter isHeaderText⟩

def headers (r : Response) : List (String × String) :=
  ("content-type", "application/json") :: r.setCookie.toList.map fun cookie => ("set-cookie", cookie)

end Response

/-! ### Refusals -/

inductive Refusal where
  | notFound
  | method
  | missingHeader
  | invalidHeader
  | missingCookie
  | mediaType
  | body
  | tooLarge
  | lengthRequired
  | query
  | foreign
deriving DecidableEq, Repr

namespace Refusal

def word : Refusal → String
  | .notFound => "NotFound"
  | .method => "MethodNotAllowed"
  | .missingHeader => "MissingHeader"
  | .invalidHeader => "InvalidHeader"
  | .missingCookie => "MissingCookie"
  | .mediaType => "UnsupportedMediaType"
  | .body => "BodyDeserializeError"
  | .tooLarge => "PayloadTooLarge"
  | .lengthRequired => "LengthRequired"
  | .query => "InvalidQuery"
  | .foreign => "Custom"

/-- The code for the refusals of one request, of which there is one for each endpoint that was tried
(`recover_error`). A path that is not found counts only if there is no other reason; a malformed part counts more
than a method. -/
def code (refusals : List Refusal) : ErrorCode :=
  if refusals.all (· == .notFound) then .notFound
  else if refusals.contains .body || refusals.contains .invalidHeader then .badRequest
  else if refusals.contains .method then .methodNotAllowed
  else .internalError

def report (refusals : List Refusal) : String :=
  "unhandled rejection: Rejection(" ++ ", ".intercalate (refusals.map word) ++ ")"

end Refusal

end SessionWarden
