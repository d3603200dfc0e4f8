import SessionWarden.Digest.Hmac
/-!
# RSA signatures

The two schemes of PKCS #1: the fixed padding of version 1.5 and the salted padding PSS, whose salt is as
long as the digest. A signature is a number below the modulus, written in as many bytes as the modulus.
-/

namespace SessionWarden.Rsa

open Digest (Hash HashSize)

inductive Padding where
  | fixed
  | salted
deriving DecidableEq, Repr

structure PublicKey where
  modulus : Nat
  exponent : Nat
deriving DecidableEq, Repr

/-- The private half of a key, as far as it is needed to sign. -/
structure PrivateKey where
  modulus : Nat
  exponent : Nat
deriving DecidableEq, Repr

def byteLength (modulus : Nat) : Nat := (Modular.bitLength modulus + 7) / 8

/-! ### Fixed padding -/

def digestHeader : HashSize → Bytes
  | .bits256 => [0x30, 0x31, 0x30, 0x0d, 0x06, 0x09, 0x60, 0x86, 0x48, 0x01, 0x65, 0x03, 0x04, 0x02, 0x01,
      0x05, 0x00, 0x04, 0x20]
  | .bits384 => [0x30, 0x41, 0x30, 0x0d, 0x06, 0x09, 0x60, 0x86, 0x48, 0x01, 0x65, 0x03, 0x04, 0x02, 0x02,
      0x05, 0x00, 0x04, 0x30]
  | .bits512 => [0x30, 0x51, 0x30, 0x0d, 0x06, 0x09, 0x60, 0x86, 0x48, 0x01, 0x65, 0x03, 0x04, 0x02, 0x03,
      0x05, 0x00, 0x04, 0x40]

def encodeFixed (size : HashSize) (n : Nat) (message : Bytes) : Bytes :=
  let t := digestHeader size ++ size.toHash.hash message
  0x00 :: 0x01 :: List.replicate (n - t.length - 3) 0xff ++ 0x00 :: t

/-! ### Salted padding -/

def mask (h : Hash) (seed : Bytes) (n : Nat) : Bytes :=
  ((List.range (n / h.digestLength + 1)).flatMap fun i => h.hash (seed ++ Bytes.ofNatBE 4 i)).take n

def saltedDigest (h : Hash) (digest salt : Bytes) : Bytes :=
  h.hash (List.replicate 8 0 ++ digest ++ salt)

/-- Clears the bits of the first byte that do not belong to a number of the given count of bits. -/
def clearTop (emBits : Nat) : Bytes → Bytes
  | [] => []
  | b :: rest => (b &&& (0xff >>> UInt8.ofNat (8 * ((emBits + 7) / 8) - emBits))) :: rest

/-- The padded digest of a message, a number of `emBits` bits at most. -/
def encodeSalted (size : HashSize) (emBits : Nat) (message salt : Bytes) : Bytes :=
  let h := size.toHash
  let n := (emBits + 7) / 8
  let digest := saltedDigest h (h.hash message) salt
  let block := List.replicate (n - salt.length - h.digestLength - 2) 0 ++ 0x01 :: salt
  clearTop emBits (Bytes.xor block (mask h digest block.length)) ++ digest ++ [0xbc]

/-- Whether a number in its `n` bytes is a padded digest of the message. -/
def checkSalted (size : HashSize) (emBits : Nat) (message em : Bytes) : Bool :=
  let h := size.toHash
  let n := (emBits + 7) / 8
  let blockLength := n - h.digestLength - 1
  let masked := em.take blockLength
  let digest := (em.drop blockLength).take h.digestLength
  let block := clearTop emBits (Bytes.xor masked (mask h digest blockLength))
  let salt := block.drop (blockLength - h.digestLength)
  em.getLast? == some 0xbc && clearTop emBits masked == masked &&
    block.take (blockLength - h.digestLength) ==
      List.replicate (blockLength - h.digestLength - 1) 0 ++ [0x01] &&
    saltedDigest h (h.hash message) salt == digest

/-! ### Signing and verifying -/

/-- The signature of a message. The salt of the salted padding is derived from the key and the message. -/
def sign (padding : Padding) (size : HashSize) (key : PrivateKey) (message : Bytes) : Bytes :=
  let n := byteLength key.modulus
  let em := match padding with
    | .fixed => encodeFixed size n message
    | .salted =>
      let h := size.toHash
      let salt := h.derive (Bytes.ofNatBE n key.exponent) message h.digestLength
      encodeSalted size (Modular.bitLength key.modulus - 1) message salt
  Bytes.ofNatBE n (Modular.pow key.modulus (Bytes.toNatBE em) key.exponent)

def verify (padding : Padding) (size : HashSize) (key : PublicKey) (message signature : Bytes) : Bool :=
  let n := byteLength key.modulus
  let s := Bytes.toNatBE signature
  if signature.length = n ∧ s < key.modulus then
    let value := Modular.pow key.modulus s key.exponent
    match padding with
    | .fixed => Bytes.ofNatBE n value == encodeFixed size n message
    | .salted =>
      let emBits := Modular.bitLength key.modulus - 1
      let emLength := (emBits + 7) / 8
      Nat.blt value (Nat.pow 256 emLength) &&
        checkSalted size emBits message (Bytes.ofNatBE emLength value)
  else false

end SessionWarden.Rsa
