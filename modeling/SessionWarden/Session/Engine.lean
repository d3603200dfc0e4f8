import SessionWarden.Account.Password
import SessionWarden.Credential.Inspector
import SessionWarden.Session.Params
import SessionWarden.Session.Repository
/-!
# The session engine

Opening, renewing and closing sessions, judging access credentials, and finding the user of a name and a
password. Each operation is a script over the repository; the order of its steps is part of what it promises: a
session is looked up, then its binding to the client is checked, then its expiry.
-/

namespace SessionWarden

/-- The engine (`RealTokenService`): who issues credentials, and the parameters of tokens. -/
structure Engine where
  issuer : Issuer
  params : TokenParams

namespace Engine

open SessionWarden.Action (now note)

/-! ### Parts of operations -/

/-- A record for a user that begins now, bound to the signal of a client (`new_record`). -/
def newRecord (e : Engine) (user : UserId) (signal : Bytes) (persistent : Bool) : Action Record := do
  let expires ← Action.orThrow (.internal "refresh token expiry overflowed")
    ((← now).add? e.params.refreshAge)
  let id ← Action.query .mint
  return ⟨id, expires, fingerprint user signal, persistent, user⟩

def signed (e : Engine) : Except SigningFault Claims → Action String
  | .ok claims => do
    let message := Issuer.message e.issuer.algorithm claims
    let signature ← Action.query (.sign e.issuer.signer message)
    return Issuer.join message signature
  | .error fault => throw (.ofCredential (.signing fault.message))

/-- An access credential for the session of a record (`issue_access_token`). -/
def issueAccess (e : Engine) (r : Record) : Action String := do
  let roles ← Repository.roles r.user
  Action.enter .build fun text => .ofCredential (.signing text)
  e.signed (Issuer.claims e.issuer.name (← now) r.user.uuid.toText e.params.accessAge
    (Hex.encode r.fingerprint) (roles.map Role.title))

/-- How many of some sessions must go to make room for one more. -/
def excess (cap sessions : Nat) : Nat := sessions + 1 - cap

/-- Makes room for one more session of a user (`evict_for_capacity`): those that expire first go. -/
def evictForCapacity (e : Engine) (user : UserId) : Action Unit := do
  let records ← Repository.getByUser user
  if records.length < e.params.refreshCap then pure ()
  else
    let surplus := excess e.params.refreshCap records.length
    (records.take surplus).forM fun r => Repository.deleteById r.id
    note (.capacityReached user surplus)

/-- The record of an identifier (`RealTokenService::find`). -/
def find (id : TokenId) : Action Record := do
  match ← Repository.getById id with
  | some r => return r
  | none =>
    note (.tokenNotFound id)
    throw .tokenIncorrect

/-- The record of an identifier for the client that it is bound to (`find_bound`). The binding is checked before the
expiry, so that another client learns nothing about the session. -/
def findBound (id : TokenId) (signal : Bytes) : Action Record := do
  let r ← find id
  match checkFingerprint r.user signal r.fingerprint with
  | .error e =>
    note (.tokenFingerprintMismatch id r.user)
    throw e
  | .ok () => pure ()
  if r.isExpiredAt (← now) then
    note (.tokenExpired id)
    throw .tokenExpired
  return r

/-! ### Operations on sessions -/

/-- Opens a session for a user (`RealTokenService::create`). -/
def create (e : Engine) (user : UserId) (signal : Bytes) (persistent : Bool) : Action TokenPair := do
  e.evictForCapacity user
  let r ← Repository.create (← e.newRecord user signal persistent)
  let access ← e.issueAccess r
  note (.sessionCreated user r.id persistent)
  return ⟨access, r⟩

/-- Renews a session (`RealTokenService::refresh`): a new record takes the place of the one presented. A rotation that
finds nothing lost either to the clock or to another use of the same token. -/
def refresh (e : Engine) (id : TokenId) (signal : Bytes) : Action TokenPair := do
  let old ← findBound id signal
  let new ← e.newRecord old.user signal old.persistent
  match ← Repository.rotate old.id (← now) new with
  | none =>
    if old.isExpiredAt (← now) then
      note (.tokenExpiredDuringRotation id)
      throw .tokenExpired
    else
      note (.tokenConsumedConcurrently id)
      throw .tokenIncorrect
  | some r =>
    let access ← e.issueAccess r
    note (.tokenRotated old.user id r.id)
    return ⟨access, r⟩

/-- The record of an identifier that has not expired (`RealTokenService::get`). -/
def get (id : TokenId) : Action Record := do
  let r ← find id
  if r.isExpiredAt (← now) then throw .tokenExpired
  return r

/-- Closes a session (`RealTokenService::delete`). -/
def delete (id : TokenId) (signal : Bytes) : Action Unit := do
  let r ← findBound id signal
  Repository.deleteById r.id
  note (.sessionDeleted r.user id)

/-- Closes all sessions of the user of a session (`RealTokenService::delete_all`). -/
def deleteAll (id : TokenId) (signal : Bytes) : Action Unit := do
  let r ← findBound id signal
  Repository.deleteByUser r.user
  note (.allSessionsDeleted r.user)

end Engine

/-! ### Access credentials -/

namespace Inspector

open SessionWarden.Action (now note)

/-- The claims of a credential that is accepted now (`JwtParser::parse`). -/
def parse (i : Inspector) (credential : String) : Action Claims := do
  match i.inspect (← now) credential with
  | .error reason =>
    note (.credentialRejected reason.word)
    throw .credentialInvalid
  | .ok claims => return claims

def principal (signal : Bytes) (claims : Claims) : Action Principal := do
  match Uuid.parse claims.subject with
  | .error _ =>
    note (.subjectNotUser claims.subject)
    throw .credentialInvalid
  | .ok uuid =>
    match checkFingerprintHex ⟨uuid⟩ signal claims.fingerprint with
    | .error e =>
      note (.credentialFingerprintMismatch ⟨uuid⟩)
      throw e
    | .ok () => return ⟨⟨uuid⟩, claims.roles⟩

/-- Who an access credential speaks for when the given client presents it (`RealAuthService::verify`). -/
def verify (i : Inspector) (credential : String) (signal : Bytes) : Action Principal := do
  principal signal (← i.parse credential)

end Inspector

/-! ### Names and passwords -/

/-- The user that a name and a password belong to (`Argon2UserVerifier::verify`). -/
def Login.verify (name password : String) : Action UserId := do
  match ← Repository.getByName name with
  | none => throw .userNotExist
  | some account =>
    match Password.verify password account.passwordHash with
    | .error e => throw e
    | .ok true => return account.user
    | .ok false =>
      Action.note (.passwordIncorrect account.user)
      throw .passwordIncorrect

end SessionWarden
