import SessionWarden.Base64
import SessionWarden.Key.Material
/-!
# Keys at work

A key that was read still has to prove usable. A signer is a key that did; it signs every message. A verifier
is a public key at work; one that cannot be used accepts nothing.
-/

namespace SessionWarden

open Digest (HashSize)

/-! ### RSA keys -/

inductive RsaFault where
  | invalidEncoding
  | versionNotSupported
  | tooSmall
  | tooLarge
  | invalidComponent
  | inconsistentComponents
  | oddLength
deriving DecidableEq, Repr

def RsaFault.message : RsaFault → String
  | .invalidEncoding => "InvalidEncoding"
  | .versionNotSupported => "VersionNotSupported"
  | .tooSmall => "TooSmall"
  | .tooLarge => "TooLarge"
  | .invalidComponent => "InvalidComponent"
  | .inconsistentComponents => "InconsistentComponents"
  | .oddLength => "PrivateModulusLenNotMultipleOf512Bits"

namespace Rsa

def demand (condition : Bool) (fault : RsaFault) : Except RsaFault Unit :=
  if condition then .ok () else .error fault

/-- Checks a public key against bounds on the bits of its modulus and on its exponent. -/
def checkPublic (mostBits leastExponent : Nat) (key : PublicKey) : Except RsaFault Unit := do
  demand (key.modulus % 2 == 1) .invalidComponent
  demand (2048 ≤ 8 * byteLength key.modulus) .tooSmall
  demand (Modular.bitLength key.modulus ≤ mostBits) .tooLarge
  demand (Modular.bitLength key.exponent ≤ 40) .tooLarge
  demand (key.exponent % 2 == 1) .invalidComponent
  demand (leastExponent ≤ key.exponent) .tooSmall
  demand (key.exponent < 8589934592) .tooLarge

def checkParts (n d p q dp dq qInverse : Nat) : Except RsaFault Unit := do
  let halfBits := Modular.bitLength n / 2
  demand (p % 2 == 1 && q % 2 == 1) .invalidComponent
  demand (Modular.bitLength p == halfBits && Modular.bitLength q == halfBits) .inconsistentComponents
  demand (halfBits % 512 == 0) .oddLength
  demand (p * q == n) .inconsistentComponents
  demand (halfBits < Modular.bitLength d && Nat.blt d n) .inconsistentComponents
  demand (d % 2 == 1) .invalidComponent
  demand (Nat.blt dp p && Nat.blt dq q) .inconsistentComponents
  demand (dp % 2 == 1 && dq % 2 == 1) .invalidComponent
  demand (Nat.blt qInverse p && qInverse * q % p == 1) .inconsistentComponents

/-- The private key of its encoded content: version, modulus, public exponent, private exponent, the two
primes, the two reduced exponents and the inverse of the second prime. -/
def privateKey (content : Bytes) : Except RsaFault PrivateKey := do
  let elements := (Der.read? content).filter fun e => e.1.tag == Der.sequenceTag && e.2.isEmpty
  let some (sequence, _) := elements | throw .invalidEncoding
  let some (version, rest) := Der.read? sequence.content | throw .invalidEncoding
  let some v := Der.natural? version | throw .invalidEncoding
  demand (v < 256) .invalidEncoding
  demand (v == 0) .versionNotSupported
  match (Der.elements? rest).bind fun es => es.mapM Der.natural? with
  | some [n, e, d, p, q, dp, dq, qInverse] =>
    checkPublic 4096 65537 ⟨n, e⟩
    checkParts n d p q dp dq qInverse
    return ⟨n, d⟩
  | _ => throw .invalidEncoding

/-- The public key of its encoded content, if it can be used. -/
def publicKey? (content : Bytes) : Option PublicKey :=
  match (Der.sequence? content).bind fun es => es.mapM Der.natural? with
  | some [n, e] => if (checkPublic 8192 3 ⟨n, e⟩).isOk then some ⟨n, e⟩ else none
  | _ => none

end Rsa

/-! ### Signers -/

inductive SigningFault where
  | rsaKey (fault : RsaFault)
  | curveKey
  | expiryOverflow
deriving DecidableEq, Repr

def SigningFault.message : SigningFault → String
  | .rsaKey fault => "RSA key invalid: " ++ fault.message
  | .curveKey => "InvalidEcdsaKey"
  | .expiryOverflow => "credential expiry overflowed"

inductive Signer where
  | hmac (size : HashSize) (secret : Bytes)
  | rsa (padding : Rsa.Padding) (size : HashSize) (key : Rsa.PrivateKey)
  | ecdsa (curve : CurveName) (scalar : Nat)
  | ed25519 (seed : Bytes)

namespace Signer

/-- The private number of a key of a curve. Its content must be in the older wrapping, with the number in full
length and with the public point in plain form. -/
def scalar? (c : CurveName) (content : Bytes) : Option Nat := do
  let (info, inner) ← readEllipticPrivate? c.curve content
  let point ← inner.point
  if info.version = 0 ∧ inner.scalar.length = c.curve.byteLength ∧ (c.curve.readPlain? point).isSome then
    return Bytes.toNatBE inner.scalar
  else none

def edwardsObject : Bytes := [0x06, 0x03, 0x2b, 0x65, 0x70]

/-- The seed of an Ed25519 key; a public key beside it must be the one of the seed. -/
def seed? (content : Bytes) : Option Bytes := do
  let info ← PrivateKeyInfo.read? content
  if info.algorithm ≠ edwardsObject ∨ 1 < info.version then none
  let (inner, rest) ← Der.read? info.key
  if inner.tag ≠ Der.octetStringTag ∨ rest ≠ [] ∨ inner.content.length ≠ 32 then none
  let written ←
    match info.publicKey with
    | none => some none
    | some e =>
      if e.tag = 0x81 then (Der.wholeBits? e.content).map some
      else
        match Der.elements? e.content with
        | some [bits] => if bits.tag = Der.bitStringTag then (Der.wholeBits? bits.content).map some else none
        | _ => none
  match written with
  | none => if info.version = 0 then return inner.content else none
  | some key =>
    if info.version = 1 ∧ key = Edwards.publicKey inner.content then return inner.content else none

def ofKey (a : Algorithm) (key : SigningKey) : Except SigningFault Signer :=
  let content := match key with
    | .secret bytes => bytes
    | .encoded content => content
  match a with
  | .hmac size => .ok (hmac size content)
  | .rsa padding size => ((Rsa.privateKey content).map (rsa padding size)).mapError .rsaKey
  | .ecdsa c =>
    match scalar? c content with
    | some d => .ok (ecdsa c d)
    | none => .error .curveKey
  | .ed25519 =>
    match seed? content with
    | some seed => .ok (ed25519 seed)
    | none => .error .curveKey

def sign (s : Signer) (message : Bytes) : Bytes :=
  match s with
  | hmac size secret => size.toHash.hmac secret message
  | rsa padding size key => Rsa.sign padding size key message
  | ecdsa c d => c.curve.sign c.digest d message
  | ed25519 seed => Edwards.sign seed message

/-- The signature of a message in the form it has in a credential. -/
def signText (s : Signer) (message : Bytes) : String := Base64.urlBare.encode (s.sign message)

end Signer

/-! ### Verifiers -/

inductive Verifier where
  | hmac (size : HashSize) (secret : Bytes)
  | rsa (padding : Rsa.Padding) (size : HashSize) (key : Rsa.PublicKey)
  | ecdsa (curve : CurveName) (point : Weierstrass.Point)
  | ed25519 (key : Bytes)
  | unusable

namespace Verifier

def ofKey (a : Algorithm) (key : VerifyingKey) : Verifier :=
  let content := match key with
    | .secret bytes => bytes
    | .encoded content => content
  match a with
  | .hmac size => hmac size content
  | .rsa padding size =>
    match Rsa.publicKey? content with
    | some key => rsa padding size key
    | none => unusable
  | .ecdsa c =>
    match c.curve.readPlain? content with
    | some point => ecdsa c point
    | none => unusable
  | .ed25519 => ed25519 content

def verify (v : Verifier) (message signature : Bytes) : Bool :=
  match v with
  | hmac size secret => size.toHash.hmac secret message == signature
  | rsa padding size key => Rsa.verify padding size key message signature
  | ecdsa c point => c.curve.verify c.digest point message signature
  | ed25519 key => Edwards.verify key message signature
  | unusable => false

end Verifier

end SessionWarden
