import SessionWarden.Uuid
/-!
# What the service records

Each event is a value; its level, source, wording and fields are functions of it. Identifiers appear in
their written form.
-/

namespace SessionWarden

/-- How much an event matters, from the most to the least. -/
inductive LogLevel where
  | error
  | warn
  | info
  | debug
  | trace
deriving DecidableEq, Repr

def LogLevel.label : LogLevel → String
  | .error => "ERROR"
  | .warn => "WARN"
  | .info => "INFO"
  | .debug => "DEBUG"
  | .trace => "TRACE"

/-- How chatty a level is; a limit lets through the levels that are no chattier than it. -/
def LogLevel.verbosity : LogLevel → Nat
  | .error => 1
  | .warn => 2
  | .info => 3
  | .debug => 4
  | .trace => 5

inductive Note where
  | sessionCreated (user : UserId) (token : TokenId) (persistent : Bool)
  /-- A login made room by dropping sessions. -/
  | capacityReached (user : UserId) (evicted : Nat)
  /-- A refresh token was presented that is not stored. -/
  | tokenNotFound (token : TokenId)
  | tokenFingerprintMismatch (token : TokenId) (user : UserId)
  | tokenExpired (token : TokenId)
  /-- A refresh token expired between its look-up and its rotation. -/
  | tokenExpiredDuringRotation (token : TokenId)
  /-- A refresh token vanished between its look-up and its rotation. -/
  | tokenConsumedConcurrently (token : TokenId)
  | tokenRotated (user : UserId) (old new : TokenId)
  | sessionDeleted (user : UserId) (token : TokenId)
  | allSessionsDeleted (user : UserId)
  | credentialRejected (reason : String)
  /-- An access credential was accepted but names no user. -/
  | subjectNotUser (subject : String)
  | credentialFingerprintMismatch (user : UserId)
  | passwordIncorrect (user : UserId)
  /-- A request was refused for a reason that the client is told. -/
  | requestRejected (reason : String)
  /-- A request failed for a reason that the client is not told. -/
  | internalFailure (reason : String)
  | settingsLoaded (http jwt token : String)
  | filterReloaded (filter : String)
  /-- The configured log filter gave way to the one of the environment. -/
  | filterOverridden (ignored : String)
  | keysLoaded (algorithm issuer : String)
  /-- The store in memory holds an account for demonstrations. -/
  | demoSeeded (user : String)
  | serverStarted (backend : String)
  | checkPassed
  | shuttingDown
deriving DecidableEq

namespace Note

def level : Note → LogLevel
  | .tokenFingerprintMismatch .. | .tokenConsumedConcurrently .. | .credentialFingerprintMismatch ..
  | .internalFailure .. | .demoSeeded .. => .warn
  | .sessionCreated .. | .sessionDeleted .. | .allSessionsDeleted .. | .settingsLoaded ..
  | .keysLoaded .. | .serverStarted .. | .checkPassed | .shuttingDown => .info
  | _ => .debug

def source : Note → String
  | .credentialRejected .. => "authgate::jwt::parser"
  | .subjectNotUser .. | .credentialFingerprintMismatch .. =>
    "authgate::application_impl::auth_service_impl"
  | .passwordIncorrect .. => "authgate::application_impl::user_verifier_impl"
  | .requestRejected .. | .internalFailure .. => "authgate::api::v1::error"
  | .settingsLoaded .. | .checkPassed => "authgate"
  | .filterReloaded .. | .filterOverridden .. => "authgate::logger::logger"
  | .keysLoaded .. | .demoSeeded .. | .serverStarted .. | .shuttingDown => "authgate::server::server"
  | _ => "authgate::application_impl::token_service_impl"

def message : Note → String
  | .sessionCreated .. => "session created"
  | .capacityReached .. => "refresh token capacity reached"
  | .tokenNotFound .. => "refresh token not found"
  | .tokenFingerprintMismatch .. => "refresh token fingerprint mismatch"
  | .tokenExpired .. => "refresh token expired"
  | .tokenExpiredDuringRotation .. => "refresh token expired during rotation"
  | .tokenConsumedConcurrently .. => "refresh token consumed concurrently"
  | .tokenRotated .. => "refresh token rotated"
  | .sessionDeleted .. => "session deleted"
  | .allSessionsDeleted .. => "all sessions deleted"
  | .credentialRejected .. => "access credential rejected"
  | .subjectNotUser .. => "access credential subject is not a user id"
  | .credentialFingerprintMismatch .. => "access credential fingerprint mismatch"
  | .passwordIncorrect .. => "password is incorrect"
  | .requestRejected .. => "request rejected"
  | .internalFailure reason => "Internal error: " ++ reason
  | .settingsLoaded .. => "settings loaded"
  | .filterReloaded .. => "log filter reloaded"
  | .filterOverridden .. => "RUST_LOG overrides the configured filter"
  | .keysLoaded .. => "signing keys loaded"
  | .demoSeeded .. => "in-memory store seeded with a demo account"
  | .serverStarted .. => "server started"
  | .checkPassed => "settings check passed"
  | .shuttingDown => "server shutting down..."

/-- A named value of an event, and whether its line in the log shows it between quotes. -/
structure Field where
  name : String
  value : String
  quoted : Bool

def shown (name value : String) : Field := ⟨name, value, false⟩

def userField (user : UserId) : Field := shown "user_id" user.uuid.toText

def tokenField (token : TokenId) : Field := shown "token_id" token.uuid.toText

/-- The fields of an event, in the order of its line in the log. -/
def fields : Note → List Field
  | .sessionCreated user token persistent =>
    [userField user, tokenField token, shown "persistent" (toString persistent)]
  | .capacityReached user evicted => [userField user, shown "evicted" (toString evicted)]
  | .tokenNotFound token | .tokenExpired token | .tokenExpiredDuringRotation token
  | .tokenConsumedConcurrently token => [tokenField token]
  | .tokenFingerprintMismatch token user => [tokenField token, userField user]
  | .tokenRotated user old new =>
    [userField user, shown "old" old.uuid.toText, shown "new" new.uuid.toText]
  | .sessionDeleted user token => [userField user, tokenField token]
  | .allSessionsDeleted user | .credentialFingerprintMismatch user | .passwordIncorrect user =>
    [userField user]
  | .credentialRejected reason => [⟨"reason", reason, true⟩]
  | .subjectNotUser subject => [shown "sub" subject]
  | .requestRejected reason => [shown "error" reason]
  | .settingsLoaded http jwt token => [shown "http" http, shown "jwt" jwt, shown "token" token]
  | .filterReloaded filter => [shown "filter" filter]
  | .filterOverridden ignored => [shown "ignored" ignored]
  | .keysLoaded algorithm issuer => [shown "algorithm" algorithm, shown "issuer" issuer]
  | .demoSeeded user => [⟨"user", user, true⟩]
  | .serverStarted backend => [shown "backend" backend]
  | .internalFailure .. | .checkPassed | .shuttingDown => []

end Note

end SessionWarden
