import SessionWarden.Hex
import SessionWarden.Digest.Sha1
/-!
# Universally unique identifiers

An identifier is sixteen bytes. It is written in lower case in five groups; four written forms are read:
the plain digits, the five groups, the groups in braces, and the groups after `urn:uuid:`. A text of any
other form is refused with the first fault found in it.
-/

namespace SessionWarden

/-- An identifier of sixteen bytes. -/
structure Uuid where
  bytes : Bytes
  length_bytes : bytes.length = 16
deriving DecidableEq

inductive UuidError where
  /-- A character that is neither a digit nor a hyphen, and the number of bytes before it. -/
  | character (c : Char) (index : Nat)
  /-- A text of a length that no form has. -/
  | length (found : Nat)
  | groupCount (found : Nat)
  /-- A group that is too short or too long. -/
  | groupLength (group expected found : Nat)
deriving DecidableEq, Repr

def UuidError.message : UuidError → String
  | .character c index => "invalid character: found \x60" ++ c.toString ++ "\x60 at " ++ toString index
  | .length found => "invalid length: found " ++ toString found
  | .groupCount found => "invalid group count: expected 5, found " ++ toString found
  | .groupLength group expected found =>
    "invalid group length in group " ++ toString group ++ ": expected " ++ toString expected ++
      ", found " ++ toString found

namespace Uuid

/-! ### From bytes -/

def nil : Uuid := ⟨List.replicate 16 0, by decide⟩

instance : Inhabited Uuid := ⟨nil⟩

/-- The identifier with the given bytes, if there are sixteen of them. -/
def ofBytes? (b : Bytes) : Option Uuid :=
  if h : b.length = 16 then some ⟨b, h⟩ else none

def ofNat (n : Nat) : Uuid := ⟨Bytes.ofNatBE 16 n, Bytes.length_ofNatBE 16 n⟩

def toNat (u : Uuid) : Nat := Bytes.toNatBE u.bytes

instance : Ord Uuid := ⟨fun a b => compare a.toNat b.toNat⟩

/-- Replaces the version digit and the two variant bits of a number of 128 bits. -/
def stamp (version n : Nat) : Nat :=
  let high := n / Nat.pow 2 80 * 16 + version
  let middle := n / Nat.pow 2 64 % 4096
  let low := Nat.pow 2 63 + n % Nat.pow 2 62
  high * Nat.pow 2 76 + middle * Nat.pow 2 64 + low

/-- The identifier of random bits (version 4). -/
def ofRandom (n : Nat) : Uuid := ofNat (stamp 4 n)

/-- The identifier of a name within the space of another identifier (version 5). -/
def ofName (space : Uuid) (name : Bytes) : Uuid :=
  ofNat (stamp 5 (Bytes.toNatBE ((Digest.Sha1.hash (space.bytes ++ name)).take 16)))

def objectSpace : Uuid := ofNat 0x6ba7b8129dad11d180b400c04fd430c8

/-! ### Text -/

def groupLengths : List Nat := [8, 4, 4, 4, 12]

def toText (u : Uuid) : String :=
  let d := Hex.encodeChars u.bytes
  String.ofList (d.take 8 ++ '-' :: (d.drop 8).take 4 ++ '-' :: (d.drop 12).take 4 ++
    '-' :: (d.drop 16).take 4 ++ '-' :: d.drop 20)

/-- The characters of a text without braces or `urn:uuid:`, and how many characters were taken off its
front; nothing is taken off a text that stands alone. -/
def unwrap (cs : List Char) : List Char × Nat :=
  if cs.head? = some '\x7b' ∧ cs.getLast? = some '\x7d' ∧ 2 ≤ cs.length then
    ((cs.drop 1).dropLast, 1)
  else if (cs.take 9).map Char.toLower = "urn:uuid:".toList then
    (cs.drop 9, 9)
  else (cs, 0)

/-- The first fault of a text that is in none of the forms, given its length in bytes, its characters
without their wrapping and the length of what was taken off its front. -/
def fault (byteLength : Nat) (body : List Char) (offset : Nat) : UuidError :=
  match body.findIdx? (fun c => (Hex.digitValue? c).isNone && c != '-') with
  | some i => .character (body.getD i ' ') (i + offset)
  | none =>
    let lengths := (body.splitOn '-').map List.length
    if lengths.length = 1 ∧ offset = 0 then .length byteLength
    else if lengths.length ≠ 5 then .groupCount lengths.length
    else
      match ((lengths.zip groupLengths).zipIdx.take 4).find? (fun g => g.1.1 != g.1.2) with
      | some ((found, expected), group) => .groupLength group expected found
      | none => .groupLength 4 12 (byteLength - 24)

def parse (s : String) : Except UuidError Uuid :=
  let byteLength := s.utf8ByteSize
  if 45 < byteLength then .error (.length byteLength)
  else
    let (body, offset) := unwrap s.toList
    let groups := body.splitOn '-'
    let grouped := groups.map List.length = groupLengths
    let plain := offset = 0 ∧ body.length = 32
    let digits := if grouped then some groups.flatten else if plain then some body else none
    match (digits.bind Hex.decodeChars).bind ofBytes? with
    | some u => .ok u
    | none => .error (fault byteLength body offset)

end Uuid

/-- The identifier of a user account. -/
structure UserId where
  uuid : Uuid
deriving DecidableEq, Ord, Inhabited

/-- The identifier of a refresh token, which is the token itself. -/
structure TokenId where
  uuid : Uuid
deriving DecidableEq, Ord, Inhabited

end SessionWarden
