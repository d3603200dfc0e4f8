import SessionWarden.Digest.Sha2
/-!
# Keyed digests

HMAC over a digest with a given block size.
-/

namespace SessionWarden.Digest

/-- A digest as the other modules use it: its block size, its length and the function itself. -/
structure Hash where
  blockLength : Nat
  digestLength : Nat
  hash : Bytes → Bytes

inductive HashSize where
  | bits256
  | bits384
  | bits512
deriving DecidableEq, Repr

def HashSize.toHash : HashSize → Hash
  | .bits256 => ⟨64, 32, sha256.hash⟩
  | .bits384 => ⟨128, 48, sha384.hash⟩
  | .bits512 => ⟨128, 64, sha512.hash⟩

namespace Hash

/-- A key brought to the block size: digested if longer, then followed by zeros. -/
def keyBlock (h : Hash) (key : Bytes) : Bytes :=
  let k := if key.length > h.blockLength then h.hash key else key
  k ++ List.replicate (h.blockLength - k.length) 0

def hmac (h : Hash) (key message : Bytes) : Bytes :=
  let k := h.keyBlock key
  h.hash (k.map (· ^^^ 0x5c) ++ h.hash (k.map (· ^^^ 0x36) ++ message))

/-- Bytes derived from a key and a seed: digests of the seed with a running number, joined and cut.
They stand where a scheme asks for bytes that differ from message to message and that only the holder of
the key can foretell. -/
def derive (h : Hash) (key seed : Bytes) (length : Nat) : Bytes :=
  let count := length / (max h.digestLength 1) + 1
  ((List.range count).flatMap fun i => h.hmac key (seed ++ Bytes.ofNatBE 4 i)).take length

end Hash

end SessionWarden.Digest
