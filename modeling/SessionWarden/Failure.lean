/-!
# Reasons for refusal

Two layers of errors: what can go wrong with a credential or its keys, and what an operation of the
service answers. The second is all that reaches a client, and only its external part is described there.
Text within a message stands between quotes, with quotes, backslashes and characters that do not show
escaped.
-/

namespace SessionWarden

/-- What can go wrong with an access credential, its algorithm or its key (`CredentialError`). -/
inductive CredentialError where
  | algorithmInvalid (name : String)
  | algorithmNone
  | keyInvalid (algorithm reason : String)
  | keyRead (reason : String)
  | signing (reason : String)
  | credentialInvalid
deriving DecidableEq, Repr

def CredentialError.message : CredentialError → String
  | .algorithmInvalid name => "algorithm is invalid: " ++ name
  | .algorithmNone => "algorithm is none"
  | .keyInvalid algorithm reason => "key is invalid for " ++ algorithm ++ ": " ++ reason
  | .keyRead reason => "key read error: " ++ reason
  | .signing reason => "signing error: " ++ reason
  | .credentialInvalid => "credential is invalid"

/-- What an operation of the service answers when it fails (`AuthError`). -/
inductive AuthError where
  | userNotExist
  | passwordIncorrect
  | tokenIncorrect
  | tokenExpired
  | fingerprintIncorrect
  | credentialInvalid
  | store (reason : String)
  | internal (reason : String)
deriving DecidableEq, Repr

namespace AuthError

def message : AuthError → String
  | .userNotExist => "user does not exist"
  | .passwordIncorrect => "password is incorrect"
  | .tokenIncorrect => "token is incorrect"
  | .tokenExpired => "token is expired"
  | .fingerprintIncorrect => "fingerprint is incorrect"
  | .credentialInvalid => "credential is invalid"
  | .store reason => "store error: " ++ reason
  | .internal reason => "internal error: " ++ reason

/-- Whether the client caused the error and may be told of it (`is_external`). -/
def isExternal : AuthError → Bool
  | .store _ | .internal _ => false
  | _ => true

/-- Whether the refresh token the client holds is of no more use to it (`discards_refresh_token`). -/
def discardsRefreshToken : AuthError → Bool
  | .tokenIncorrect | .tokenExpired | .fingerprintIncorrect => true
  | _ => false

/-- A refused credential is the client's fault; any other trouble with credentials is internal. -/
def ofCredential : CredentialError → AuthError
  | .credentialInvalid => .credentialInvalid
  | e => .internal e.message

theorem isExternal_of_discards {e : AuthError} (h : e.discardsRefreshToken = true) :
    e.isExternal = true := by
  cases e <;> simp_all [discardsRefreshToken, isExternal]

end AuthError

/-! ### Quoted text -/

namespace Quoted

/-- Ranges of characters that do not show by themselves: control and format characters, blanks but the plain
one, combining marks, and characters without a meaning. -/
def hiddenRanges : List (Nat × Nat) := [
  (0x00, 0x1f), (0x7f, 0xa0), (0xad, 0xad), (0x300, 0x36f), (0x378, 0x379), (0x483, 0x489), (0x591, 0x5bd),
  (0x600, 0x605), (0x610, 0x61a), (0x61c, 0x61c), (0x64b, 0x65f), (0x670, 0x670), (0x6d6, 0x6dd),
  (0x93c, 0x93c), (0x94d, 0x94d), (0xe31, 0xe31), (0xe34, 0xe3a), (0xe47, 0xe4e), (0x1680, 0x1680),
  (0x180b, 0x180f), (0x1ab0, 0x1ace), (0x1dc0, 0x1dff), (0x2000, 0x200f), (0x2028, 0x202f), (0x205f, 0x206f),
  (0x20d0, 0x20f0), (0x3000, 0x3000), (0x302a, 0x302f), (0x3099, 0x309a), (0xd800, 0xf8ff), (0xfe00, 0xfe0f),
  (0xfe20, 0xfe2f), (0xfeff, 0xfeff), (0xff9e, 0xff9f), (0xfff0, 0xfffb), (0xfffe, 0xffff),
  (0xe0000, 0x10ffff)]

def isHidden (c : Char) : Bool := hiddenRanges.any fun r => r.1 ≤ c.toNat && c.toNat ≤ r.2

def hexDigits (n : Nat) : List Char := Nat.toDigits 16 n

def escape (c : Char) : List Char :=
  match c with
  | '\x00' => ['\\', '0']
  | '\t' => ['\\', 't']
  | '\n' => ['\\', 'n']
  | '\r' => ['\\', 'r']
  | '"' => ['\\', '"']
  | '\\' => ['\\', '\\']
  | _ => if isHidden c then '\\' :: 'u' :: '\x7b' :: (hexDigits c.toNat ++ ['\x7d']) else [c]

end Quoted

/-- A text between quotes. -/
def quoted (s : String) : String := String.ofList ('"' :: (s.toList.flatMap Quoted.escape ++ ['"']))

end SessionWarden
