import SessionWarden.Bytes
import SessionWarden.Double
/-!
# JSON

A value, its reader and its writer, on bytes. The reader settles the grammar only: what a number or a string
is worth to a record is decided where the record is read, so a value keeps numbers as they are written and
keeps a place for a string that is no text. Records are read from an object or, position by position, from an
array.
-/

namespace SessionWarden

/-- A number as it is written. Its digits are one whole number, the last `places` of them the fraction. -/
structure JsonNumber where
  negative : Bool
  digits : Nat
  places : Nat
  exponent : Option Int
deriving DecidableEq, Repr

inductive Json where
  | null
  | bool (b : Bool)
  | number (n : JsonNumber)
  | string (s : String)
  /-- A string that is no text. It is closed if that shows only at its closing quote: its bytes are not
  UTF-8, or the first half of a character stands at its very end. -/
  | unreadable (closed : Bool)
  | array (items : List Json)
  /-- Members in order, repeated keys included; a key that is no text is absent. -/
  | object (members : List (Option String × Json))
deriving Inhabited

namespace JsonNumber

def ofInt (n : Int) : JsonNumber := ⟨n < 0, n.natAbs, 0, none⟩

/-- The integer that a number is written as, without a fraction or an exponent. Minus zero is none. -/
def toInt? (n : JsonNumber) : Option Int :=
  if n.places ≠ 0 ∨ n.exponent ≠ none then none
  else if n.negative then if n.digits = 0 then none else some (-n.digits)
  else some n.digits

theorem toInt?_ofInt (n : Int) : (ofInt n).toInt? = some n := by
  by_cases h : n < 0
  · have hne : n.natAbs ≠ 0 := by omega
    simp only [ofInt, toInt?, h, hne, ne_eq, not_true_eq_false, or_self, decide_true, if_true, if_false,
      Option.some.injEq]
    omega
  · simp only [ofInt, toInt?, h, ne_eq, not_true_eq_false, or_self, decide_false, Bool.false_eq_true, if_false,
      Option.some.injEq]
    omega

/-! ### The digits of a number -/

def writeNat (n : Nat) : Bytes := (Nat.toDigits 10 n).map fun c => UInt8.ofNat c.toNat

/-- The last decimal digits of a whole number, so many of them. -/
def writePlaces : Nat → Nat → Bytes
  | 0, _ => []
  | places + 1, n => writePlaces places (n / 10) ++ [UInt8.ofNat (48 + n % 10)]

def whole (n : JsonNumber) : Bytes := writeNat (n.digits / Nat.pow 10 n.places)

def fraction (n : JsonNumber) : Bytes := writePlaces n.places n.digits

/-! ### The range of numbers

`Deserializer::parse_number` of the JSON library keeps as many digits as 64 bits have room for, and multiplies in
double precision. It gives up a number that becomes infinite at its end, but an exponent of more than 32 bits at the
digit at which it becomes too long (`parse_exponent_overflow`). -/

/-- Puts decimal digits behind a number as long as 64 bits have room for it; also how many digits are left. -/
def takeDigits (n : Nat) : Bytes → Nat × Nat
  | [] => (n, 0)
  | d :: ds =>
    let longer := n * 10 + (d.toNat - 48)
    if longer < Nat.pow 2 64 then takeDigits longer ds else (n, ds.length + 1)

/-- The digits that are kept and the power of ten that they are multiplied by. -/
def scaled (n : JsonNumber) : Nat × Int :=
  let (most, dropped) := takeDigits 0 n.whole
  let (significand, ignored) := takeDigits most n.fraction
  (significand, dropped - (n.places - ignored : Nat) + n.exponent.getD 0)

def greatestExponent : Int := 2147483647

def greatestPower : Int := 308

def infinity : Nat := Nat.pow 2 1024 - Nat.pow 2 970

/-- Whether a number has a finite value (`f64_from_parts`): the digits and the power of ten are rounded, and so is
their product. -/
def isFinite (n : JsonNumber) : Bool :=
  let (significand, power) := n.scaled
  if significand = 0 then true
  else if greatestExponent < n.exponent.getD 0 then false
  else if power < 0 then true
  else if greatestPower < power then false
  else Double.nearest significand * Double.nearest (Nat.pow 10 power.toNat) < infinity

/-- Whether the exponent of a number is given up before its last digit. -/
def isCutShort (n : JsonNumber) : Bool := n.digits ≠ 0 && greatestExponent < n.exponent.getD 0 / 10

end JsonNumber

namespace Json

open JsonNumber (writeNat)

def int (n : Int) : Json := number (.ofInt n)

def record (members : List (String × Json)) : Json :=
  object (members.map fun (key, value) => (some key, value))

/-! ### Writing -/

def writeSign (negative : Bool) : Bytes := if negative then [0x2d] else []

def writeFraction (digits : Bytes) : Bytes := if digits = [] then [] else 0x2e :: digits

def writeExponent : Option Int → Bytes
  | none => []
  | some e => 0x65 :: (writeSign (e < 0) ++ writeNat e.natAbs)

def writeUnsigned (n : JsonNumber) : Bytes := n.whole ++ writeFraction n.fraction ++ writeExponent n.exponent

def writeNumber (n : JsonNumber) : Bytes := writeSign n.negative ++ writeUnsigned n

def hexDigit (n : Nat) : UInt8 := UInt8.ofNat (if n < 10 then 48 + n else 87 + n)

/-- A byte of a string: quotes, backslashes and control characters are escaped, by a letter if they have
one. -/
def escapeByte (b : UInt8) : Bytes :=
  match b with
  | 0x22 => [0x5c, 0x22]
  | 0x5c => [0x5c, 0x5c]
  | 0x08 => [0x5c, 0x62]
  | 0x0c => [0x5c, 0x66]
  | 0x0a => [0x5c, 0x6e]
  | 0x0d => [0x5c, 0x72]
  | 0x09 => [0x5c, 0x74]
  | _ =>
    if b < 0x20 then [0x5c, 0x75, 0x30, 0x30, hexDigit (b.toNat / 16), hexDigit (b.toNat % 16)] else [b]

def writeText (s : String) : Bytes := 0x22 :: ((Bytes.ofString s).flatMap escapeByte ++ [0x22])

def writeUnreadable (closed : Bool) : Bytes :=
  Bytes.ofString (if closed then "\"\\ud800\"" else "\"\\udc00\"")

mutual

def write : Json → Bytes
  | null => Bytes.ofString "null"
  | bool b => Bytes.ofString (if b then "true" else "false")
  | number n => writeNumber n
  | string s => writeText s
  | unreadable closed => writeUnreadable closed
  | array items => 0x5b :: (writeItems items ++ [0x5d])
  | object members => 0x7b :: (writeMembers members ++ [0x7d])

def writeItems : List Json → Bytes
  | [] => []
  | [j] => write j
  | j :: js => write j ++ 0x2c :: writeItems js

def writeMembers : List (Option String × Json) → Bytes
  | [] => []
  | [(key, j)] => writeKey key ++ 0x3a :: write j
  | (key, j) :: ms => writeKey key ++ 0x3a :: (write j ++ 0x2c :: writeMembers ms)

def writeKey : Option String → Bytes
  | some key => writeText key
  | none => writeUnreadable true

end

/-! ### Reading: blanks, numbers -/

def isBlank (b : UInt8) : Bool := b == 0x20 || b == 0x0a || b == 0x0d || b == 0x09

def skipBlanks (b : Bytes) : Bytes := b.dropWhile isBlank

def isDigit (b : UInt8) : Bool := 0x30 ≤ b && b ≤ 0x39

def digitsValue (b : Bytes) : Nat := b.foldl (fun acc x => acc * 10 + (x.toNat - 48)) 0

def readDigits? (b : Bytes) : Option (Bytes × Bytes) :=
  let digits := b.takeWhile isDigit
  if digits = [] then none else some (digits, b.dropWhile isDigit)

def readFraction? : Bytes → Option (Bytes × Bytes)
  | 0x2e :: rest => readDigits? rest
  | b => some ([], b)

def readExponent? : Bytes → Option (Option Int × Bytes)
  | e :: rest =>
    if e = 0x65 ∨ e = 0x45 then do
      let (negative, unsigned) := match rest with
        | 0x2d :: more => (true, more)
        | 0x2b :: more => (false, more)
        | more => (false, more)
      let (digits, rest) ← readDigits? unsigned
      let value : Int := digitsValue digits
      return (some (if negative then -value else value), rest)
    else some (none, e :: rest)
  | [] => some (none, [])

/-- Reads a number without its sign: no zero stands before other digits. -/
def readUnsigned? (negative : Bool) (b : Bytes) : Option (JsonNumber × Bytes) := do
  let (whole, rest) ← readDigits? b
  if whole.head? = some 0x30 ∧ 1 < whole.length then none
  let (fraction, rest) ← readFraction? rest
  let (exponent, rest) ← readExponent? rest
  return (⟨negative, digitsValue (whole ++ fraction), fraction.length, exponent⟩, rest)

/-! ### Reading: strings -/

def hexValue? (b : UInt8) : Option Nat :=
  if 0x30 ≤ b ∧ b ≤ 0x39 then some (b.toNat - 48)
  else if 0x61 ≤ b ∧ b ≤ 0x66 then some (b.toNat - 87)
  else if 0x41 ≤ b ∧ b ≤ 0x46 then some (b.toNat - 55)
  else none

def hexFour? (b : Bytes) : Option Nat :=
  if b.length = 4 then
    b.foldl (fun acc x => acc.bind fun n => (hexValue? x).map fun d => n * 16 + d) (some 0)
  else none

def letterEscape? (b : UInt8) : Option UInt8 :=
  match b with
  | 0x22 => some 0x22
  | 0x5c => some 0x5c
  | 0x2f => some 0x2f
  | 0x62 => some 0x08
  | 0x66 => some 0x0c
  | 0x6e => some 0x0a
  | 0x72 => some 0x0d
  | 0x74 => some 0x09
  | _ => none

/-- A piece of a string: bytes of its text, or a half of a character, which stands at the end of the string
or does not. -/
inductive Piece where
  | bytes (b : Bytes)
  | half (atEnd : Bool)

def lowHalf? : Bytes → Option Nat
  | 0x5c :: 0x75 :: rest => (hexFour? (rest.take 4)).filter fun n => 0xdc00 ≤ n && n < 0xe000
  | _ => none

def characterBytes (n : Nat) : Bytes := Bytes.ofString (String.singleton (Char.ofNat n))

/-- The piece that an escape by number stands for, and how many bytes of what follows belong to it. -/
def numberPiece (n : Nat) (rest : Bytes) : Piece × Nat :=
  if 0xd800 ≤ n ∧ n < 0xdc00 then
    match lowHalf? rest with
    | some low => (.bytes (characterBytes (0x10000 + (n - 0xd800) * 0x400 + (low - 0xdc00))), 6)
    | none => (.half (rest.head? = some 0x22), 0)
  else if 0xdc00 ≤ n ∧ n < 0xe000 then (.half false, 0)
  else (.bytes (characterBytes n), 0)

def readPiece? : Bytes → Option (Piece × Bytes)
  | 0x5c :: 0x75 :: rest => do
    let n ← hexFour? (rest.take 4)
    let (piece, more) := numberPiece n (rest.drop 4)
    return (piece, (rest.drop 4).drop more)
  | 0x5c :: letter :: rest => (letterEscape? letter).map fun b => (.bytes [b], rest)
  | b :: rest => if b < 0x20 ∨ b = 0x5c then none else some (.bytes [b], rest)
  | [] => none

/-- The string of its bytes, given the first half of a character that stands alone in it. -/
def ofStringBytes (b : Bytes) (fault : Option Bool) : Json :=
  match fault with
  | some atEnd => unreadable atEnd
  | none =>
    match Bytes.toString? b with
    | some s => string s
    | none => unreadable true

/-- Reads a string after its opening quote, given the bytes before in reverse (`fuel` bounds the pieces). -/
def readString? : Nat → Bytes → Option Bool → Bytes → Option (Json × Bytes)
  | 0, _, _, _ => none
  | fuel + 1, acc, fault, b =>
    match b with
    | 0x22 :: rest => some (ofStringBytes acc.reverse fault, rest)
    | _ =>
      match readPiece? b with
      | some (.bytes piece, rest) => readString? fuel (piece.reverse ++ acc) fault rest
      | some (.half atEnd, rest) => readString? fuel acc (fault.orElse fun _ => some atEnd) rest
      | none => none

def readKey? (b : Bytes) : Option (Option String × Bytes) :=
  match skipBlanks b with
  | 0x22 :: rest =>
    match readString? (rest.length + 1) [] none rest with
    | some (string s, rest) => some (some s, rest)
    | some (_, rest) => some (none, rest)
    | none => none
  | _ => none

/-! ### Reading: values -/

def readWord? (word : String) (j : Json) (b : Bytes) : Option (Json × Bytes) :=
  let w := Bytes.ofString word
  if w.isPrefixOf b then some (j, b.drop w.length) else none

mutual

/-- Reads a value, blanks before it allowed (`fuel` bounds depth and length). -/
def readValue? : Nat → Bytes → Option (Json × Bytes)
  | 0, _ => none
  | fuel + 1, b =>
    match skipBlanks b with
    | [] => none
    | c :: rest =>
      if c = 0x22 then readString? (rest.length + 1) [] none rest
      else if c = 0x5b then
        match skipBlanks rest with
        | 0x5d :: rest => some (array [], rest)
        | rest => (readItems? fuel rest).map fun (items, rest) => (array items, rest)
      else if c = 0x7b then
        match skipBlanks rest with
        | 0x7d :: rest => some (object [], rest)
        | rest => (readMembers? fuel rest).map fun (members, rest) => (object members, rest)
      else if c = 0x2d then (readUnsigned? true rest).map fun (n, rest) => (number n, rest)
      else if isDigit c then (readUnsigned? false (c :: rest)).map fun (n, rest) => (number n, rest)
      else if c = 0x6e then readWord? "null" null (c :: rest)
      else if c = 0x74 then readWord? "true" (bool true) (c :: rest)
      else if c = 0x66 then readWord? "false" (bool false) (c :: rest)
      else none

def readItems? : Nat → Bytes → Option (List Json × Bytes)
  | 0, _ => none
  | fuel + 1, b =>
    match readValue? fuel b with
    | none => none
    | some (j, rest) =>
      match skipBlanks rest with
      | 0x5d :: rest => some ([j], rest)
      | 0x2c :: rest => (readItems? fuel rest).map fun (js, rest) => (j :: js, rest)
      | _ => none

def readMembers? : Nat → Bytes → Option (List (Option String × Json) × Bytes)
  | 0, _ => none
  | fuel + 1, b =>
    match readKey? b with
    | none => none
    | some (key, rest) =>
      match skipBlanks rest with
      | 0x3a :: rest =>
        match readValue? fuel rest with
        | none => none
        | some (j, rest) =>
          match skipBlanks rest with
          | 0x7d :: rest => some ([(key, j)], rest)
          | 0x2c :: rest => (readMembers? fuel rest).map fun (ms, rest) => ((key, j) :: ms, rest)
          | _ => none
      | _ => none

end

/-- The value of a text that is one value with blanks around it. -/
def read? (b : Bytes) : Option Json :=
  match readValue? (b.length + 1) b with
  | some (j, rest) => if skipBlanks rest = [] then some j else none
  | none => none

/-! ### Records -/

def text? : Json → Option String
  | string s => some s
  | _ => none

def bool? : Json → Option Bool
  | bool b => some b
  | _ => none

def int64? : Json → Option Int
  | number n => n.toInt?.filter fun i => -9223372036854775808 ≤ i && i ≤ 9223372036854775807
  | _ => none

def texts? : Json → Option (List String)
  | array items => items.mapM text?
  | _ => none

/-- The value of the member of a name, if there is one; two of them are refused. -/
def member? (name : String) (members : List (Option String × Json)) : Option (Option Json) :=
  match members.filter fun m => m.1 == some name with
  | [] => some none
  | [m] => some (some m.2)
  | _ => none

/-- The fields of a record in the order of their names. An object may have other members and lack fields,
but its keys must be text; an array holds the fields in order, the first `least` of them at least. -/
def fields? (names : List String) (least : Nat) : Json → Option (List (Option Json))
  | object members =>
    if members.all fun m => m.1.isSome then names.mapM fun name => member? name members else none
  | array items =>
    if least ≤ items.length ∧ items.length ≤ names.length then
      some (items.map some ++ List.replicate (names.length - items.length) none)
    else none
  | _ => none

mutual

/-- Whether every string of a value is text and every number is finite. -/
def isReadable : Json → Bool
  | unreadable _ => false
  | number n => n.isFinite
  | array items => areReadable items
  | object members => membersReadable members
  | _ => true

def areReadable : List Json → Bool
  | [] => true
  | j :: js => isReadable j && areReadable js

def membersReadable : List (Option String × Json) → Bool
  | [] => true
  | (key, j) :: ms => key.isSome && isReadable j && membersReadable ms

end

mutual

def depth : Json → Nat
  | array items => itemsDepth items + 1
  | object members => membersDepth members + 1
  | _ => 0

def itemsDepth : List Json → Nat
  | [] => 0
  | j :: js => max (depth j) (itemsDepth js)

def membersDepth : List (Option String × Json) → Nat
  | [] => 0
  | (_, j) :: ms => max (depth j) (membersDepth ms)

end

/-- Whether a reader that wanted another value stands at the end of this one when it gives up: it tries a string and
a number to their ends, and goes into a list or an object only to find it empty. -/
def isSkippable : Json → Bool
  | unreadable closed => closed
  | number n => !n.isCutShort
  | array items => items.isEmpty
  | object members => members.isEmpty
  | _ => true

inductive Reach where
  | whole
  | recovered
  | stuck
deriving DecidableEq, Repr

/-- How far the reading of a list comes that has given up an item: an end is still found behind the last item. -/
def Reach.within (r : Reach) (isLast : Bool) : Reach := if isLast then r else stuck

mutual

/-- How far the reading of a value as it is comes, with room for so many lists and objects in each other. -/
def reach (room : Nat) : Json → Reach
  | unreadable closed => if closed then .recovered else .stuck
  | number n => if n.isFinite then .whole else if n.isCutShort then .stuck else .recovered
  | array items =>
    match room with
    | 0 => .stuck
    | room + 1 => itemsReach room items
  | object members =>
    match room with
    | 0 => .stuck
    | room + 1 => membersReach room members
  | _ => .whole

def itemsReach (room : Nat) : List Json → Reach
  | [] => .whole
  | j :: js =>
    match reach room j with
    | .whole => itemsReach room js
    | r => r.within js.isEmpty

/-- How far the reading of an object's members comes; it never gets over a key that is no text. -/
def membersReach (room : Nat) : List (Option String × Json) → Reach
  | [] => .whole
  | (none, _) :: _ => .stuck
  | (some _, j) :: ms =>
    match reach room j with
    | .whole => membersReach room ms
    | r => r.within ms.isEmpty

end

end Json

end SessionWarden
