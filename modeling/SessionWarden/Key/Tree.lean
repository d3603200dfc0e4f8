import SessionWarden.Bytes
import SessionWarden.Calendar
/-!
# Tolerant reading of ASN.1

A reader that accepts long lengths in any form, tags of any size and members it does not know, and only
looks for what tells one key from another: object identifiers and strings of bits or octets.
-/

namespace SessionWarden

/-- An element as far as it matters to the recognition of keys. -/
inductive Tree where
  | object (arcs : List Nat)
  /-- The content of a bit string or an octet string. -/
  | string (content : Bytes)
  | sequence (members : List Tree)
  | other

namespace Tree

/-! ### Headers -/

/-- Reads a number in digits of seven bits, the last of which has its top bit clear. -/
def readSevens? : Nat → Bytes → Option (Nat × Bytes)
  | _, [] => none
  | acc, b :: rest =>
    let value := acc * 128 + b.toNat % 128
    if b < 0x80 then some (value, rest) else readSevens? value rest

/-- A tag: whether its class is the universal one, whether the element has members, and its number. -/
structure Tag where
  isUniversal : Bool
  isConstructed : Bool
  number : Nat

def readTag? : Bytes → Option (Tag × Bytes)
  | [] => none
  | b :: rest =>
    let isUniversal := b < 0x40
    let isConstructed := b &&& 0x20 != 0
    let low := b.toNat % 32
    if low = 31 then
      (readSevens? 0 rest).map fun (number, rest) => (⟨isUniversal, isConstructed, number⟩, rest)
    else some (⟨isUniversal, isConstructed, low⟩, rest)

def readLength? : Bytes → Option (Nat × Bytes)
  | [] => none
  | b :: rest =>
    if b < 0x80 then some (b.toNat, rest)
    else
      let count := b.toNat - 0x80
      if 8 < count ∨ rest.length < count then none
      else some (Bytes.toNatBE (rest.take count), rest.drop count)

/-! ### Contents -/

/-- The numbers of an object identifier after its first byte (`fuel` bounds their count). -/
def readArcs? : Nat → Bytes → Option (List Nat)
  | _, [] => some []
  | 0, _ => none
  | fuel + 1, b => do
    let (arc, rest) ← readSevens? 0 b
    let arcs ← readArcs? fuel rest
    return arc :: arcs

def objectArcs? : Bytes → Option (List Nat)
  | [] => none
  | b :: rest =>
    let first := min (b.toNat / 40) 2
    (readArcs? rest.length rest).map fun arcs => first :: (b.toNat - 40 * first) :: arcs

def isPrintable (b : UInt8) : Bool :=
  let c := Char.ofNat b.toNat
  c.isAlphanum || " '()+,-./:=?".toList.contains c

/-- Whether bytes are UTF-16, most significant byte first; surrogates come in pairs. -/
def isUtf16 : Bytes → Bool
  | [] => true
  | hi :: _ :: rest =>
    if 0xd8 ≤ hi ∧ hi < 0xdc then
      match rest with
      | lo :: _ :: rest' => 0xdc ≤ lo && lo < 0xe0 && isUtf16 rest'
      | _ => false
    else if 0xdc ≤ hi ∧ hi < 0xe0 then false
    else isUtf16 rest
  | [_] => false

def decimal? (b : Bytes) : Option Nat :=
  b.foldl (fun acc x => acc.bind fun n =>
    if 0x30 ≤ x ∧ x ≤ 0x39 then some (n * 10 + (x.toNat - 0x30)) else none) (some 0)

/-- Whether a year and ten digits are a date and a time of day. -/
def isMoment (year : Nat) (digits : Bytes) : Bool :=
  match (Bytes.groups 2 digits).mapM decimal? with
  | some [month, day, hour, minute, second] =>
    1 ≤ day && day ≤ CivilDate.daysInMonth year month && hour < 24 && minute < 60 && second < 60
  | _ => false

/-- Whether a content is a time with a year of two digits. -/
def isShortTime (b : Bytes) : Bool :=
  b.length = 13 && b.getLast? = some 0x5a &&
    match decimal? (b.take 2) with
    | some y => isMoment (if 50 ≤ y then 1900 + y else 2000 + y) ((b.drop 2).take 10)
    | none => false

/-- Whether a content is a time with a year of four digits and perhaps a fraction of a second. -/
def isLongTime (b : Bytes) : Bool :=
  let fraction := (b.drop 14).dropLast
  15 ≤ b.length && b.getLast? = some 0x5a &&
    (fraction = [] ||
      (fraction.head? = some 0x2e && fraction.length ≤ 10 && (decimal? (fraction.drop 1)).isSome)) &&
    match decimal? (b.take 4) with
    | some y => isMoment y ((b.drop 4).take 10)
    | none => false

/-- Reads the content of a universal element without members; a sequence or a set has been read already. -/
def readPlain? (number : Nat) (body : Bytes) : Option Tree :=
  match number with
  | 0x01 => if body.length = 1 then some other else none
  | 0x03 =>
    match body with
    | [] => some (string [])
    | unused :: bits => if bits.length * 8 < unused.toNat then none else some (string bits)
  | 0x04 => some (string body)
  | 0x06 => (objectArcs? body).map object
  | 0x0c | 0x14 | 0x1c => (Bytes.toString? body).map fun _ => other
  | 0x13 => if body.all isPrintable then some other else none
  | 0x17 => if isShortTime body then some other else none
  | 0x18 => if isLongTime body then some other else none
  | 0x1e => if isUtf16 body then some other else none
  | _ => some other

/-! ### Whole encodings -/

/-- Reads elements up to the end; there must be one at least (`fuel` bounds count and depth). Members of
another class are passed over, whether they can be read or not. -/
def readAll? : Nat → Bytes → Option (List Tree)
  | 0, _ => none
  | fuel + 1, b => do
    let (tag, afterTag) ← readTag? b
    let (length, afterLength) ← readLength? afterTag
    if afterLength.length < length then none
    else
      let body := afterLength.take length
      let rest := afterLength.drop length
      let element ←
        if !tag.isUniversal then some other
        else if tag.number = 0x10 then (readAll? fuel body).map sequence
        else if tag.number = 0x11 then (readAll? fuel body).map fun _ => other
        else readPlain? tag.number body
      if rest = [] then return [element]
      else
        let elements ← readAll? fuel rest
        return element :: elements

def parse? (b : Bytes) : Option (List Tree) := readAll? (b.length + 1) b

mutual

/-- The object identifiers of an element, also those in its sequences, in order. -/
def objects : Tree → List (List Nat)
  | object arcs => [arcs]
  | sequence members => objectsOfList members
  | _ => []

def objectsOfList : List Tree → List (List Nat)
  | [] => []
  | t :: ts => objects t ++ objectsOfList ts

end

mutual

/-- The bit and octet strings of an element, also those in its sequences, in order. -/
def strings : Tree → List Bytes
  | string content => [content]
  | sequence members => stringsOfList members
  | _ => []

def stringsOfList : List Tree → List Bytes
  | [] => []
  | t :: ts => strings t ++ stringsOfList ts

end

end Tree

end SessionWarden
