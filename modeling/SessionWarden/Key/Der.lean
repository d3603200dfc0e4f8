import SessionWarden.Bytes
/-!
# Distinguished encoding

The strict reading of ASN.1: every element is a tag of one byte, a length in its only form and the
content. Structures are read by cutting their content into elements and matching on the list.
-/

namespace SessionWarden.Der

structure Element where
  tag : UInt8
  content : Bytes
deriving DecidableEq, Repr

def readLength? : Bytes → Option (Nat × Bytes)
  | [] => none
  | first :: rest =>
    if first < 0x80 then some (first.toNat, rest)
    else
      let count := first.toNat - 0x80
      let digits := rest.take count
      let value := Bytes.toNatBE digits
      if 1 ≤ count ∧ count ≤ 4 ∧ digits.length = count ∧ 0x80 ≤ value ∧
          Nat.pow 256 (count - 1) ≤ value then
        some (value, rest.drop count)
      else none

def read? : Bytes → Option (Element × Bytes)
  | [] => none
  | tag :: rest => do
    if tag &&& 0x1f = 0x1f then none
    let (length, body) ← readLength? rest
    if body.length < length then none
    else some (⟨tag, body.take length⟩, body.drop length)

def readAll? : Nat → Bytes → Option (List Element)
  | _, [] => some []
  | 0, _ => none
  | fuel + 1, b => do
    let (element, rest) ← read? b
    let elements ← readAll? fuel rest
    return element :: elements

def elements? (content : Bytes) : Option (List Element) := readAll? content.length content

def integerTag : UInt8 := 0x02
def bitStringTag : UInt8 := 0x03
def octetStringTag : UInt8 := 0x04
def sequenceTag : UInt8 := 0x30

/-- The elements of an encoding that is one sequence and nothing else. -/
def sequence? (b : Bytes) : Option (List Element) := do
  let (element, rest) ← read? b
  if element.tag = sequenceTag ∧ rest = [] then elements? element.content else none

def wholeBits? : Bytes → Option Bytes
  | 0 :: rest => some rest
  | _ => none

/-- The value of an integer that is not negative, in its shortest form. -/
def natural? (e : Element) : Option Nat :=
  if e.tag = integerTag then
    match e.content with
    | [] => none
    | [b] => if b < 0x80 then some b.toNat else none
    | 0 :: b :: rest => if b < 0x80 then none else some (Bytes.toNatBE (b :: rest))
    | b :: rest => if b < 0x80 then some (Bytes.toNatBE (b :: rest)) else none
  else none

end SessionWarden.Der
