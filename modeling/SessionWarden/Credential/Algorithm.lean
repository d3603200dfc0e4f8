import SessionWarden.Digest.Hmac
import SessionWarden.Failure
import SessionWarden.Signature.Rsa
import SessionWarden.Signature.Weierstrass
/-!
# Signing algorithms

The twelve algorithms that a credential may name, and what each of them is made of. A credential without a
signature proves nothing, so its name is refused with an error of its own.
-/

namespace SessionWarden

open Digest (HashSize)

inductive CurveName where
  | p256
  | p384
deriving DecidableEq, Repr

namespace CurveName

def curve : CurveName → Weierstrass.Curve
  | .p256 => Weierstrass.p256
  | .p384 => Weierstrass.p384

def digest : CurveName → HashSize
  | .p256 => .bits256
  | .p384 => .bits384

def bits (c : CurveName) : Nat := c.curve.bits

end CurveName

/-- A signing algorithm (`SigningMethod`). -/
inductive Algorithm where
  | hmac (size : HashSize)
  | rsa (padding : Rsa.Padding) (size : HashSize)
  | ecdsa (curve : CurveName)
  | ed25519
deriving DecidableEq, Repr

namespace Algorithm

/-- The digits of a digest size in the name of an algorithm. -/
def sizeDigits : HashSize → String
  | .bits256 => "256"
  | .bits384 => "384"
  | .bits512 => "512"

/-- The name of an algorithm (`SigningMethod::name`). -/
def name : Algorithm → String
  | .hmac size => "HS" ++ sizeDigits size
  | .rsa .fixed size => "RS" ++ sizeDigits size
  | .rsa .salted size => "PS" ++ sizeDigits size
  | .ecdsa .p256 => "ES256"
  | .ecdsa .p384 => "ES384"
  | .ed25519 => "EdDSA"

def all : List Algorithm :=
  [.hmac .bits256, .hmac .bits384, .hmac .bits512,
    .rsa .fixed .bits256, .rsa .fixed .bits384, .rsa .fixed .bits512,
    .rsa .salted .bits256, .rsa .salted .bits384, .rsa .salted .bits512,
    .ecdsa .p256, .ecdsa .p384, .ed25519]

def named? (text : String) : Option Algorithm := all.find? fun a => a.name == text

/-- The algorithm of a name (`SigningMethod::from_name`). The name of having none is refused in any mixture of
cases. -/
def ofName (text : String) : Except CredentialError Algorithm :=
  if text.toList.map Char.toLower = "none".toList then .error .algorithmNone
  else
    match named? text with
    | some a => .ok a
    | none => .error (.algorithmInvalid text)

/-- Whether two signatures of one message differ, because randomness goes into them. -/
def isRandomised : Algorithm → Bool
  | .rsa .salted _ | .ecdsa _ => true
  | _ => false

theorem mem_all (a : Algorithm) : a ∈ all := by
  rcases a with size | ⟨padding, size⟩ | curve | _
  · cases size <;> decide
  · cases padding <;> cases size <;> decide
  · cases curve <;> decide
  · decide

theorem named?_name (a : Algorithm) : named? a.name = some a := by
  rcases a with size | ⟨padding, size⟩ | curve | _
  · cases size <;> decide +kernel
  · cases padding <;> cases size <;> decide +kernel
  · cases curve <;> decide +kernel
  · decide +kernel

theorem named?_eq_some_iff {text : String} {a : Algorithm} : named? text = some a ↔ text = a.name := by
  constructor
  · intro h
    have := List.find?_some h
    simpa using (beq_iff_eq.mp this).symm
  · rintro rfl
    exact named?_name a

end Algorithm

end SessionWarden
