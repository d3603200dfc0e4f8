import SessionWarden.Account.PasswordHash
import SessionWarden.Digest.Argon2
import SessionWarden.Failure
/-!
# Passwords

Passwords are hashed with Argon2 and written with their costs, so that a hash is checked with the costs it was
made with. A string that cannot be used as a hash is an internal error, not a wrong password.
-/

namespace SessionWarden.Password

open Digest.Argon2 (Variant Version Costs Layout)

/-! ### The use of a written hash -/

structure Usage where
  memory : Nat
  passes : Nat
  lanes : Nat
  associated : Bytes

def defaultUsage : Usage := ⟨19456, 2, 1, []⟩

/-- Takes one parameter into account; a key identifier is read and has no effect. -/
def Usage.set (u : Usage) : String × String → Except HashFault Usage
  | (name, value) =>
    if name = "m" then do return { u with memory := ← PasswordHash.readDecimal value }
    else if name = "t" then do return { u with passes := ← PasswordHash.readDecimal value }
    else if name = "p" then do return { u with lanes := ← PasswordHash.readDecimal value }
    else if name = "keyid" then do
      let _ ← PasswordHash.readEncoded 8 value.toList
      return u
    else if name = "data" then do return { u with associated := ← PasswordHash.readEncoded 32 value.toList }
    else .error .parameterName

def Usage.costs (u : Usage) : Except HashFault Costs :=
  if u.memory < 8 ∨ u.memory < 8 * u.lanes ∨ u.passes < 1 ∨ u.lanes < 1 then
    .error (.parameterValue .tooShort)
  else if 0xffffff < u.lanes then .error (.parameterValue .tooLong)
  else .ok ⟨u.memory, u.passes, u.lanes⟩

def variant (name : String) : Except HashFault Variant :=
  match name with
  | "argon2d" => .ok .d
  | "argon2i" => .ok .i
  | "argon2id" => .ok .id
  | _ => .error .algorithm

/-- The version of a number; the newer one is meant if there is none. -/
def version : Option Nat → Except HashFault Version
  | none => .ok .v19
  | some 16 => .ok .v16
  | some 19 => .ok .v19
  | some _ => .error .version

/-- Hashes a password in the way a written hash was made, into a number of bytes. -/
def rehash (h : PasswordHash) (salt : String) (length : Nat) (password : Bytes) : Except HashFault Bytes := do
  let usage ← h.parameters.foldlM Usage.set defaultUsage
  let costs ← usage.costs
  let variant ← variant h.algorithm
  let version ← version h.version
  let saltBytes ← PasswordHash.readEncoded 64 salt.toList
  if saltBytes.length < 8 then throw (.salt .tooShort)
  return Digest.Argon2.hash ⟨variant, version, costs⟩ length password saltBytes usage.associated

/-- Whether a password is the one of a written hash. Without a salt or a hash no password is. -/
def isOf (h : PasswordHash) (password : Bytes) : Except HashFault Bool :=
  match h.salt, h.hash with
  | some salt, some hash => do return (← rehash h salt hash.length password) == hash
  | _, _ => .ok false

/-- Whether a password is the one of a string that should be a hash (`verify_password`). -/
def verify (password text : String) : Except AuthError Bool :=
  match PasswordHash.parse text with
  | .error fault => .error (.internal ("invalid PHC hash: " ++ fault.message))
  | .ok h =>
    match isOf h (Bytes.ofString password) with
    | .error fault => .error (.internal ("verify error: " ++ fault.message))
    | .ok b => .ok b

/-! ### New hashes -/

def layout : Layout := ⟨.id, .v19, ⟨defaultUsage.memory, defaultUsage.passes, defaultUsage.lanes⟩⟩

/-- The hash of a password with a salt (`hash_password`). -/
def hash (salt : Bytes) (password : String) : PasswordHash where
  algorithm := "argon2id"
  version := some layout.version.number
  parameters := [("m", toString layout.costs.memory), ("t", toString layout.costs.passes),
    ("p", toString layout.costs.lanes)]
  salt := some (Base64.standardBare.encode salt)
  hash := some (Digest.Argon2.hash layout 32 (Bytes.ofString password) salt [])

end SessionWarden.Password
