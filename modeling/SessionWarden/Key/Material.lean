import SessionWarden.Credential.Algorithm
import SessionWarden.Key.Info
import SessionWarden.Key.Pem
import SessionWarden.Key.Tree
/-!
# Key material

From the bytes of a key file to a key for one algorithm. A shared secret is any bytes. The keys of the other
families are read from their textual encoding in two steps: reading tells whether the text has the shape of
such a key, and only then is the content looked at. For elliptic curves a strict reader goes first, which
finds the curve.
-/

namespace SessionWarden

/-! ### Shapes -/

inductive KeyFamily where
  | elliptic
  | rsa
  | ed25519
deriving DecidableEq, Repr

def KeyFamily.ofObject? (arcs : List Nat) : Option KeyFamily :=
  if arcs = [1, 2, 840, 10045, 2, 1] then some .elliptic
  else if arcs = [1, 2, 840, 113549, 1, 1, 1] then some .rsa
  else if arcs = [1, 3, 101, 112] then some .ed25519
  else none

inductive KeyText where
  /-- An RSA key without a wrapping, either half. -/
  | bareRsa (content : Bytes)
  /-- A key in its wrapping, with the strings found in it. -/
  | wrapped (family : KeyFamily) (isPrivate : Bool) (content : Bytes) (strings : List Bytes)

namespace KeyText

/-- Finds the key in a text. The first object identifier that names a family tells it; a label tells the
half. -/
def find? (text : Bytes) : Option KeyText := do
  let block ← Pem.find? text
  let trees ← Tree.parse? block.content
  if block.label = "RSA PRIVATE KEY" ∨ block.label = "RSA PUBLIC KEY" then
    return bareRsa block.content
  else if block.label ∈ ["PRIVATE KEY", "PUBLIC KEY", "CERTIFICATE"] then
    let family ← (Tree.objectsOfList trees).findSome? KeyFamily.ofObject?
    return wrapped family (block.label = "PRIVATE KEY") block.content (Tree.stringsOfList trees)
  else none

end KeyText

/-- Why the bytes of a key file are no key for an algorithm. -/
inductive KeyFault where
  /-- They do not have the shape of such a key. -/
  | format
  | noContent
  | notElliptic
  | wrongCurve (found expected : Nat)
deriving DecidableEq, Repr

def KeyFault.message : KeyFault → String
  | .format => "InvalidKeyFormat"
  | .noContent => "InvalidEcdsaKey"
  | .notElliptic => "not a supported EC key"
  | .wrongCurve found expected =>
    "curve is " ++ toString found ++ " bits, expected " ++ toString expected

namespace KeyText

/-- The content of an RSA key; which half it is does not matter here. -/
def rsaContent (key : Option KeyText) : Except KeyFault Bytes :=
  match key with
  | some (bareRsa content) => .ok content
  | some (wrapped .rsa _ _ strings) =>
    match strings with
    | s :: _ => .ok s
    | [] => .error .noContent
  | _ => .error .format

def privateContent (family : KeyFamily) (key : Option KeyText) : Except KeyFault Bytes :=
  match key with
  | some (wrapped f true content _) => if f = family then .ok content else .error .format
  | _ => .error .format

def publicContent (family : KeyFamily) (key : Option KeyText) : Except KeyFault Bytes :=
  match key with
  | some (wrapped f false _ strings) =>
    if f ≠ family then .error .format
    else
      match strings with
      | s :: _ => .ok s
      | [] => .error .noContent
  | _ => .error .format

end KeyText

/-! ### The curve of a key -/

/-- The two halves of a key (`KeyHalf`). -/
inductive KeyHalf where
  | signing
  | verifying
deriving DecidableEq, Repr

/-- Whether a text is one half of a key of a curve by the strict reader (`ec_curve_bits`). -/
def isEllipticKey (c : CurveName) (half : KeyHalf) (text : Bytes) : Bool :=
  (Bytes.toString? text).isSome &&
    match half with
    | .signing => ((Pem.strict? "PRIVATE KEY" text).bind (readEllipticPrivate? c.curve)).isSome
    | .verifying => ((Pem.strict? "PUBLIC KEY" text).bind (readEllipticPublic? c.curve)).isSome

/-- Checks that a text is one half of a key of the given curve (`check_curve`). -/
def checkCurve (c : CurveName) (half : KeyHalf) (text : Bytes) : Except KeyFault Unit :=
  let found := [CurveName.p256, CurveName.p384].find? fun d => isEllipticKey d half text
  match found with
  | none => .error .notElliptic
  | some d => if d = c then .ok () else .error (.wrongCurve d.bits c.bits)

/-! ### Keys -/

inductive SigningKey where
  | secret (bytes : Bytes)
  | encoded (content : Bytes)

inductive VerifyingKey where
  | secret (bytes : Bytes)
  | encoded (content : Bytes)

namespace Algorithm

def readSigningKey (a : Algorithm) (text : Bytes) : Except KeyFault SigningKey :=
  match a with
  | hmac _ => .ok (.secret text)
  | rsa .. => (KeyText.rsaContent (KeyText.find? text)).map .encoded
  | ecdsa c => do
    checkCurve c .signing text
    (KeyText.privateContent .elliptic (KeyText.find? text)).map .encoded
  | ed25519 => (KeyText.privateContent .ed25519 (KeyText.find? text)).map .encoded

def readVerifyingKey (a : Algorithm) (text : Bytes) : Except KeyFault VerifyingKey :=
  match a with
  | hmac _ => .ok (.secret text)
  | rsa .. => (KeyText.rsaContent (KeyText.find? text)).map .encoded
  | ecdsa c => do
    checkCurve c .verifying text
    (KeyText.publicContent .elliptic (KeyText.find? text)).map .encoded
  | ed25519 => (KeyText.publicContent .ed25519 (KeyText.find? text)).map .encoded

/-- Reads a key to sign with; the error names the algorithm (`SigningMethod::encoding_key`). -/
def signingKey (a : Algorithm) (text : Bytes) : Except CredentialError SigningKey :=
  (a.readSigningKey text).mapError fun fault => .keyInvalid a.name fault.message

/-- Reads a key to verify with; the error names the algorithm (`SigningMethod::decoding_key`). -/
def verifyingKey (a : Algorithm) (text : Bytes) : Except CredentialError VerifyingKey :=
  (a.readVerifyingKey text).mapError fun fault => .keyInvalid a.name fault.message

end Algorithm

end SessionWarden
