import SessionWarden.Key.Der
import SessionWarden.Signature.Edwards
import SessionWarden.Signature.Rsa
import SessionWarden.Signature.Weierstrass
/-!
# Encoded keys

The structures that keys come in: the PKCS #8 wrapping of a private key, the wrapping of a public one, and the
contents that each family of algorithms puts into them.
-/

namespace SessionWarden

open Weierstrass (Curve)

/-! ### Wrappings -/

structure PrivateKeyInfo where
  version : Nat
  /-- The content of the sequence that names the algorithm. -/
  algorithm : Bytes
  key : Bytes
  /-- The member tagged 1, which carries the public key. -/
  publicKey : Option Der.Element

namespace PrivateKeyInfo

def attributesTag : UInt8 := 0xa0

/-- The members after the private key: perhaps attributes, perhaps a public key. -/
def readTail? (elements : List Der.Element) : Option (Option Der.Element) :=
  let rest := match elements with
    | e :: rest => if e.tag = attributesTag then rest else e :: rest
    | [] => []
  match rest with
  | [] => some none
  | [e] => if e.tag = 0x81 ∨ e.tag = 0xa1 then some (some e) else none
  | _ => none

def read? (b : Bytes) : Option PrivateKeyInfo := do
  match ← Der.sequence? b with
  | version :: algorithm :: key :: tail =>
    if algorithm.tag ≠ Der.sequenceTag ∨ key.tag ≠ Der.octetStringTag then none
    return ⟨← Der.natural? version, algorithm.content, key.content, ← readTail? tail⟩
  | _ => none

end PrivateKeyInfo

/-- Reads a wrapped public key: the content of its algorithm, and the key. -/
def readPublicKeyInfo? (b : Bytes) : Option (Bytes × Bytes) := do
  match ← Der.sequence? b with
  | [algorithm, key] =>
    if algorithm.tag ≠ Der.sequenceTag ∨ key.tag ≠ Der.bitStringTag then none
    return (algorithm.content, ← Der.wholeBits? key.content)
  | _ => none

/-! ### Elliptic curves -/

def ellipticObject : Bytes := [0x06, 0x07, 0x2a, 0x86, 0x48, 0xce, 0x3d, 0x02, 0x01]

def curveObject (c : Curve) : Bytes :=
  if c.bits = 256 then [0x06, 0x08, 0x2a, 0x86, 0x48, 0xce, 0x3d, 0x03, 0x01, 0x07]
  else [0x06, 0x05, 0x2b, 0x81, 0x04, 0x00, 0x22]

structure EllipticPrivate where
  scalar : Bytes
  /-- The public point as it is written, if it is there. -/
  point : Option Bytes

namespace EllipticPrivate

/-- The members after the number: perhaps the curve, which must be the given one, perhaps the point. -/
def readTail? (c : Curve) (elements : List Der.Element) : Option (Option Bytes) := do
  let rest ← match elements with
    | e :: rest =>
      if e.tag = 0xa0 then (if e.content = curveObject c then some rest else none) else some (e :: rest)
    | [] => some []
  match rest with
  | [] => return none
  | [e] =>
    if e.tag ≠ 0xa1 then none
    match ← Der.elements? e.content with
    | [bits] => if bits.tag = Der.bitStringTag then return some (← Der.wholeBits? bits.content) else none
    | _ => none
  | _ => none

def read? (c : Curve) (b : Bytes) : Option EllipticPrivate := do
  match ← Der.sequence? b with
  | version :: scalar :: tail =>
    if scalar.tag ≠ Der.octetStringTag ∨ (← Der.natural? version) ≠ 1 then none
    return ⟨scalar.content, ← readTail? c tail⟩
  | _ => none

end EllipticPrivate

/-- Whether the outer members of a private key fit each other: the version is one exactly if a public key
is there, and that is a bit string in place. -/
def PrivateKeyInfo.isConsistent (info : PrivateKeyInfo) : Bool :=
  match info.publicKey with
  | none => info.version == 0
  | some e => info.version == 1 && e.tag == 0x81 && (Der.wholeBits? e.content).isSome

/-- Reads the wrapped private key of a curve. Its number lies between zero and the order of the curve and is
written in 24 bytes at least and as many as the field has at most; a public point must be the one of it. -/
def readEllipticPrivate? (c : Curve) (b : Bytes) : Option (PrivateKeyInfo × EllipticPrivate) := do
  let info ← PrivateKeyInfo.read? b
  if !info.isConsistent ∨ info.algorithm ≠ ellipticObject ++ curveObject c then none
  let inner ← EllipticPrivate.read? c info.key
  let d := Bytes.toNatBE inner.scalar
  if inner.scalar.length < 24 ∨ c.byteLength < inner.scalar.length ∨ d = 0 ∨ c.order ≤ d then none
  match inner.point with
  | none => return (info, inner)
  | some written =>
    if (← c.read? written) = (← c.publicPoint? d) then return (info, inner) else none

/-- Reads the wrapped public key of a curve: the point as it is written. -/
def readEllipticPublic? (c : Curve) (b : Bytes) : Option Bytes := do
  let (algorithm, key) ← readPublicKeyInfo? b
  if algorithm ≠ ellipticObject ++ curveObject c ∨ (c.read? key).isNone then none
  return key

end SessionWarden
