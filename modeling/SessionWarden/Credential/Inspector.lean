import SessionWarden.Credential.Issuer
/-!
# Inspecting credentials

An inspector accepts the credentials of one issuer under one algorithm, whatever a credential says about
itself. It answers the claims or the first check that failed, in the order: parts, header, algorithm,
signature, claims, validity.
-/

namespace SessionWarden

inductive Rejection where
  /-- It does not have the form of a credential. -/
  | malformed
  | algorithm
  | signature
  | missingClaim
  | expired
  | issuer
deriving DecidableEq, Repr

/-- The word for a reason in the log (`rejection_reason`). -/
def Rejection.word : Rejection → String
  | .malformed => "malformed"
  | .algorithm => "algorithm"
  | .signature => "signature"
  | .missingClaim => "missing claim"
  | .expired => "expired"
  | .issuer => "issuer"

structure CredentialParts where
  header : List Char
  payload : List Char
  signature : List Char

namespace CredentialParts

def cutLast? (cs : List Char) : Option (List Char × List Char) :=
  match cs.reverse.span (· != '.') with
  | (tail, _ :: front) => some (front.reverse, tail.reverse)
  | (_, []) => none

def split? (cs : List Char) : Option CredentialParts := do
  let (message, signature) ← cutLast? cs
  let (header, payload) ← cutLast? message
  return ⟨header, payload, signature⟩

def message (p : CredentialParts) : Bytes :=
  Bytes.ofString (String.ofList (p.header ++ '.' :: p.payload))

end CredentialParts

def decodePart? (cs : List Char) : Option Json := (Base64.urlBare.decodeChars cs).bind Json.read?

/-- Where credentials are inspected (`JwtParser`). -/
structure Inspector where
  issuer : String
  algorithm : Algorithm
  verifier : Verifier

namespace Inspector

/-- The inspector of an issuer, an algorithm and the bytes of a key file (`JwtParser::new`). -/
def tryNew (issuer algorithm : String) (key : Bytes) : Except CredentialError Inspector := do
  let a ← Algorithm.ofName algorithm
  let k ← a.verifyingKey key
  return ⟨issuer, a, Verifier.ofKey a k⟩

/-- Checks the signature of a credential. A keyed digest is compared as it is written; any other signature
must first be base 64. -/
def checkSignature (i : Inspector) (p : CredentialParts) : Except Rejection Unit :=
  match i.verifier with
  | .hmac size secret =>
    if Base64.urlBare.encodeChars (size.toHash.hmac secret p.message) = p.signature then .ok ()
    else .error .signature
  | v =>
    match Base64.urlBare.decodeChars p.signature with
    | none => .error .malformed
    | some signature => if v.verify p.message signature then .ok () else .error .signature

/-- Judges registered claims at a time: all three are there, the last second of validity is not over, and the
issuer is the right one. -/
def judge (i : Inspector) (now : Instant) (r : RegisteredClaims) : Except Rejection Unit :=
  match r.expiry, r.subject, r.issuer with
  | some expiry, some _, some issuer =>
    if expiry < now.second then .error .expired
    else if issuer = i.issuer then .ok ()
    else .error .issuer
  | _, _, _ => .error .missingClaim

def require {α : Type} (reason : Rejection) : Option α → Except Rejection α
  | some a => .ok a
  | none => .error reason

/-- The claims of a credential that is accepted now (`JwtParser::parse`). -/
def inspect (i : Inspector) (now : Instant) (credential : String) : Except Rejection Claims := do
  let parts ← require .malformed (CredentialParts.split? credential.toList)
  let algorithm ← require .malformed ((decodePart? parts.header).bind Header.algorithm?)
  require .algorithm (if algorithm = i.algorithm then some () else none)
  i.checkSignature parts
  let payload ← require .malformed (decodePart? parts.payload)
  let claims ← require .malformed (Claims.ofJson? payload)
  let registered ← require .malformed (RegisteredClaims.ofJson? payload)
  i.judge now registered
  return claims

end Inspector

end SessionWarden
