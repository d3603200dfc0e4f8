import SessionWarden.Credential.Claims
import SessionWarden.Credential.Header
import SessionWarden.Key.Signer
/-!
# Issuing credentials

An issuer has a name, an algorithm and a key that has proved usable. A credential is a header, claims and a
signature over both, in base 64 with dots between them.
-/

namespace SessionWarden

/-- Where credentials are issued (`JwtBuilder`). -/
structure Issuer where
  name : String
  algorithm : Algorithm
  signer : Signer

namespace Issuer

def encodePart (j : Json) : String := Base64.urlBare.encode j.write

def message (a : Algorithm) (claims : Claims) : String :=
  encodePart (Header.ofAlgorithm a) ++ "." ++ encodePart claims.toJson

def join (message signature : String) : String := message ++ "." ++ signature

def credential (i : Issuer) (claims : Claims) : String :=
  let m := message i.algorithm claims
  join m (i.signer.signText (Bytes.ofString m))

/-- The claims about a subject that hold for some nanoseconds from now on, counted in whole seconds. -/
def claims (issuer : String) (now : Instant) (subject : String) (age : Int) (fingerprint : String)
    (roles : List String) : Except SigningFault Claims :=
  match now.add? age with
  | none => .error .expiryOverflow
  | some expiry => .ok ⟨issuer, subject, expiry.second, now.second, fingerprint, roles⟩

/-- A credential about a subject that is valid for some nanoseconds from now on (`JwtBuilder::build`). -/
def build (i : Issuer) (now : Instant) (subject : String) (age : Int) (fingerprint : String)
    (roles : List String) : Except SigningFault String :=
  (claims i.name now subject age fingerprint roles).map i.credential

/-- The subject of the credential that an issuer makes for itself when it is set up. -/
def trialSubject : String := "startup-check"

/-- Sets up an issuer, which makes one credential for itself: a key may be well formed and still unusable. -/
def trial (name : String) (a : Algorithm) (key : SigningKey) (now : Instant) : Except SigningFault Issuer := do
  let _ ← claims name now trialSubject Instant.perSecond "" []
  let i : Issuer := ⟨name, a, ← Signer.ofKey a key⟩
  let _ ← i.build now trialSubject Instant.perSecond "" []
  return i

/-- The issuer of a name, an algorithm and the bytes of a key file (`JwtBuilder::new`). -/
def tryNew (name algorithm : String) (key : Bytes) (now : Instant) : Except CredentialError Issuer := do
  let a ← Algorithm.ofName algorithm
  let k ← a.signingKey key
  (trial name a k now).mapError fun fault =>
    .keyInvalid a.name (CredentialError.signing fault.message).message

theorem build_eq_error_iff {i : Issuer} {now : Instant} {subject : String} {age : Int}
    {fingerprint : String} {roles : List String} {e : SigningFault} :
    i.build now subject age fingerprint roles = .error e ↔ now.add? age = none ∧ e = .expiryOverflow := by
  unfold build claims
  split
  · rename_i h
    constructor
    · intro he
      injection he with he
      exact ⟨h, he.symm⟩
    · rintro ⟨-, rfl⟩
      rfl
  · rename_i h
    constructor
    · intro he
      injection he
    · rintro ⟨hn, -⟩
      rw [h] at hn
      injection hn

end Issuer

end SessionWarden
