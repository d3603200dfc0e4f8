import SessionWarden.Uuid
import SessionWarden.Calendar
import SessionWarden.Digest.Hmac
import SessionWarden.Failure
/-!
# Sessions and the clients they are bound to

A stored record is one refresh token. It is bound to the client that logged in by the digest of that
client's signal and the user, so that a copied token is of no use elsewhere.
-/

namespace SessionWarden

/-! ### Fingerprints -/

/-- The digest that binds a session of a user to a client signal (`Fingerprint::hash`): SHA-256 of the signal followed
by the bytes of the user. -/
def fingerprint (user : UserId) (signal : Bytes) : Bytes :=
  Digest.sha256.hash (signal ++ user.uuid.bytes)

/-- Checks a signal against the digest that a session of the user is bound to (`Fingerprint::verify`). -/
def checkFingerprint (user : UserId) (signal expected : Bytes) : Except AuthError Unit :=
  if fingerprint user signal = expected then .ok () else .error .fingerprintIncorrect

/-- Checks a signal against a digest in hexadecimal digits (`verify_hex`); what is no such text matches nothing. -/
def checkFingerprintHex (user : UserId) (signal : Bytes) (expected : String) : Except AuthError Unit :=
  match Hex.decode expected with
  | some digest => checkFingerprint user signal digest
  | none => .error .fingerprintIncorrect

theorem checkFingerprint_ok_iff {user : UserId} {signal expected : Bytes} :
    checkFingerprint user signal expected = .ok () ↔ fingerprint user signal = expected := by
  unfold checkFingerprint
  split <;> simp_all

theorem checkFingerprintHex_encode (user : UserId) (signal digest : Bytes) :
    checkFingerprintHex user signal (Hex.encode digest) = checkFingerprint user signal digest := by
  simp [checkFingerprintHex, Hex.decode_encode]

/-! ### Records -/

/-- A stored refresh token (`RefreshTokenRecord`). A record is never changed: a rotation removes it and stores
another. -/
structure Record where
  id : TokenId
  expires : Instant
  fingerprint : Bytes
  /-- Whether the session outlives the browser that holds it. -/
  persistent : Bool
  user : UserId
deriving DecidableEq

/-- A record has expired once the clock is past its expiry; at that very instant it is live (`is_expired_at`). -/
def Record.isExpiredAt (r : Record) (now : Instant) : Bool := decide (r.expires < now)

/-- A title given to a user, with the identifier that the title has by its name. -/
structure Role where
  id : Uuid
  title : String
  description : String
deriving DecidableEq

def Role.titled (title description : String) : Role :=
  ⟨Uuid.ofName Uuid.objectSpace (Bytes.ofString title), title, description⟩

/-- What a login or a refresh hands to the client: an access credential and the record behind the new
refresh token. -/
structure TokenPair where
  access : String
  refresh : Record
deriving DecidableEq

/-- Who an accepted access credential speaks for. -/
structure Principal where
  user : UserId
  roles : List String
deriving DecidableEq

end SessionWarden
