import SessionWarden.Calendar
import SessionWarden.Json
/-!
# Claims

What a credential says. Claims are written as one JSON object. They are read twice from the same value: once
in full, and once for the registered claims alone, which are judged in their own right.
-/

namespace SessionWarden

/-- The claims of a credential (`Claims`). -/
structure Claims where
  issuer : String
  subject : String
  /-- The last second of validity, since the epoch. -/
  expiry : Int
  issuedAt : Int
  /-- The digest that binds the credential to its client, in hexadecimal digits. -/
  fingerprint : String
  roles : List String
deriving DecidableEq, Repr

namespace Claims

def toJson (c : Claims) : Json :=
  .record [("iss", .string c.issuer), ("sub", .string c.subject), ("exp", .int c.expiry),
    ("iat", .int c.issuedAt), ("fingerprint", .string c.fingerprint),
    ("roles", .array (c.roles.map .string))]

/-- The claims of a value; the roles may be missing and are then none. -/
def ofJson? (j : Json) : Option Claims := do
  match ← j.fields? ["iss", "sub", "exp", "iat", "fingerprint", "roles"] 5 with
  | [some iss, some sub, some exp, some iat, some fingerprint, roles] =>
    let titles ← match roles with
      | none => some []
      | some list => list.texts?
    return ⟨← iss.text?, ← sub.text?, ← exp.int64?, ← iat.int64?, ← fingerprint.text?, titles⟩
  | _ => none

/-- The instant of the expiry, if it can be represented (`Claims::expires_at`). -/
def expiresAt? (c : Claims) : Option Instant :=
  let t := Instant.ofParts c.expiry 0
  if t.Representable then some t else none

end Claims

/-- The registered claims as far as they can be made sense of. -/
structure RegisteredClaims where
  expiry : Option Int
  subject : Option String
  issuer : Option String
deriving DecidableEq, Repr

namespace RegisteredClaims

def greatestAudienceDepth : Nat := 126

/-- Whether the place of an audience can be passed over, whatever stands there: it is read as it is, and what was
read is then of no use. -/
def isAudiencePlace (j : Json) : Bool := j.reach greatestAudienceDepth ≠ .stuck

/-- The registered claims of a value. The expiry counts only if it is not negative; the start of validity and
the audience are passed over. -/
def ofJson? (j : Json) : Option RegisteredClaims := do
  match ← j.fields? ["exp", "nbf", "sub", "iss", "aud"] 5 with
  | [exp, nbf, sub, iss, aud] =>
    if !(nbf.all Json.isSkippable && aud.all isAudiencePlace) then none
    else
      return ⟨(exp.bind Json.int64?).filter (0 ≤ ·), sub.bind Json.text?, iss.bind Json.text?⟩
  | _ => none

end RegisteredClaims

end SessionWarden
