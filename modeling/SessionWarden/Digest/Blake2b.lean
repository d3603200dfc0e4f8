import SessionWarden.Bytes
/-!
# BLAKE2b

Sixteen working words are a square of four rows. Mixing a square works on whole rows: once on its columns,
and once on its diagonals, which are columns after the rows have been turned.
-/

namespace SessionWarden.Digest

structure Row where
  a : UInt64
  b : UInt64
  c : UInt64
  d : UInt64

namespace Row

@[inline] def zip (f : UInt64 → UInt64 → UInt64) (x y : Row) : Row :=
  ⟨f x.a y.a, f x.b y.b, f x.c y.c, f x.d y.d⟩

@[inline] def map (f : UInt64 → UInt64) (x : Row) : Row := ⟨f x.a, f x.b, f x.c, f x.d⟩

/-- Turns a row to the left by one, two or three places. -/
@[inline] def turn1 (x : Row) : Row := ⟨x.b, x.c, x.d, x.a⟩
@[inline] def turn2 (x : Row) : Row := ⟨x.c, x.d, x.a, x.b⟩
@[inline] def turn3 (x : Row) : Row := ⟨x.d, x.a, x.b, x.c⟩

def toList (x : Row) : List UInt64 := [x.a, x.b, x.c, x.d]

def ofList (xs : List UInt64) : Row := ⟨xs.getD 0 0, xs.getD 1 0, xs.getD 2 0, xs.getD 3 0⟩

end Row

@[inline] def rotateRight (n : UInt64) (x : UInt64) : UInt64 := (x >>> n) ||| (x <<< (64 - n))

structure Square where
  p : Row
  q : Row
  r : Row
  s : Row

namespace Square

/-- Mixes the columns with a way to add rows and two rows of a message. -/
@[inline] def mixColumns (add : Row → Row → Row) (x y : Row) (v : Square) : Square :=
  let p := Row.zip (· + ·) (add v.p v.q) x
  let s := (Row.zip (· ^^^ ·) v.s p).map (rotateRight 32)
  let r := add v.r s
  let q := (Row.zip (· ^^^ ·) v.q r).map (rotateRight 24)
  let p := Row.zip (· + ·) (add p q) y
  let s := (Row.zip (· ^^^ ·) s p).map (rotateRight 16)
  let r := add r s
  let q := (Row.zip (· ^^^ ·) q r).map (rotateRight 63)
  ⟨p, q, r, s⟩

@[inline] def toDiagonals (v : Square) : Square := ⟨v.p, v.q.turn1, v.r.turn2, v.s.turn3⟩

@[inline] def ofDiagonals (v : Square) : Square := ⟨v.p, v.q.turn3, v.r.turn2, v.s.turn1⟩

end Square

namespace Blake2b

def initial : List UInt64 := [
  0x6a09e667f3bcc908, 0xbb67ae8584caa73b, 0x3c6ef372fe94f82b, 0xa54ff53a5f1d36f1,
  0x510e527fade682d1, 0x9b05688c2b3e6c1f, 0x1f83d9abfb41bd6b, 0x5be0cd19137e2179]

def orders : List (List Nat) := [
  [0, 1, 2, 3, 4, 5, 6, 7, 8, 9, 10, 11, 12, 13, 14, 15],
  [14, 10, 4, 8, 9, 15, 13, 6, 1, 12, 0, 2, 11, 7, 5, 3],
  [11, 8, 12, 0, 5, 2, 15, 13, 10, 14, 3, 6, 7, 1, 9, 4],
  [7, 9, 3, 1, 13, 12, 11, 14, 2, 6, 5, 10, 4, 0, 15, 8],
  [9, 0, 5, 7, 2, 4, 10, 15, 14, 1, 11, 12, 6, 8, 3, 13],
  [2, 12, 6, 10, 0, 11, 8, 3, 4, 13, 7, 5, 15, 14, 1, 9],
  [12, 5, 1, 15, 14, 13, 4, 10, 0, 7, 6, 3, 9, 2, 8, 11],
  [13, 11, 7, 14, 12, 1, 3, 9, 5, 0, 15, 4, 8, 6, 2, 10],
  [6, 15, 14, 9, 11, 3, 0, 8, 12, 2, 13, 7, 1, 4, 10, 5],
  [10, 2, 8, 4, 7, 6, 1, 5, 15, 11, 9, 14, 3, 12, 13, 0],
  [0, 1, 2, 3, 4, 5, 6, 7, 8, 9, 10, 11, 12, 13, 14, 15],
  [14, 10, 4, 8, 9, 15, 13, 6, 1, 12, 0, 2, 11, 7, 5, 3]]

@[inline] def add (x y : Row) : Row := Row.zip (· + ·) x y

/-- One round with the message words in the order of the round. -/
def round (v : Square) (words : List UInt64) : Square :=
  let evens (i : Nat) : Row := ⟨words.getD i 0, words.getD (i + 2) 0, words.getD (i + 4) 0, words.getD (i + 6) 0⟩
  let v := v.mixColumns add (evens 0) (evens 1)
  (v.toDiagonals.mixColumns add (evens 8) (evens 9)).ofDiagonals

/-- Takes one block into the eight chaining words; `count` is how many bytes have been taken in. -/
def compress (chain : List UInt64) (block : Bytes) (count : Nat) (isLast : Bool) : List UInt64 :=
  let words := (Bytes.groups 8 block).map fun b => UInt64.ofNat (Bytes.toNatLE b)
  let low := UInt64.ofNat count
  let high := UInt64.ofNat (count / Nat.pow 2 64)
  let fixed := Row.ofList (initial.drop 4)
  let final : UInt64 := if isLast then 0xffffffffffffffff else 0
  let start : Square :=
    ⟨Row.ofList chain, Row.ofList (chain.drop 4), Row.ofList initial,
      Row.zip (· ^^^ ·) fixed ⟨low, high, final, 0⟩⟩
  let out := orders.foldl (fun v order => round v (order.map fun i => words.getD i 0)) start
  List.zipWith (· ^^^ ·) chain
    ((Row.zip (· ^^^ ·) out.p out.r).toList ++ (Row.zip (· ^^^ ·) out.q out.s).toList)

/-- Takes in the blocks of a message, of which the last may be short (`fuel` bounds their number). -/
def absorb : Nat → List UInt64 → Nat → Bytes → List UInt64
  | 0, chain, _, _ => chain
  | fuel + 1, chain, count, message =>
    if message.length ≤ 128 then
      compress chain (message ++ List.replicate (128 - message.length) 0) (count + message.length) true
    else absorb fuel (compress chain (message.take 128) (count + 128) false) (count + 128) (message.drop 128)

/-- The digest of a message in 1 to 64 bytes, without a key. -/
def hash (length : Nat) (message : Bytes) : Bytes :=
  let start := match initial with
    | w :: ws => (w ^^^ 0x01010000 ^^^ UInt64.ofNat length) :: ws
    | [] => []
  ((absorb (message.length + 1) start 0 message).flatMap fun w => Bytes.ofNatLE 8 w.toNat).take length

end Blake2b

end SessionWarden.Digest
