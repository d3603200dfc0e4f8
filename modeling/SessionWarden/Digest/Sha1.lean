import SessionWarden.Bytes
/-!
# SHA-1

The digest behind name-based identifiers. It is used for names only, never as evidence of integrity.
-/

namespace SessionWarden.Digest.Sha1

structure Words where
  a : UInt32
  b : UInt32
  c : UInt32
  d : UInt32
  e : UInt32

def rotateLeft (x : UInt32) (n : UInt32) : UInt32 := (x <<< n) ||| (x >>> (32 - n))

/-- The first `n` words of the message schedule that starts with a window of sixteen words. -/
def schedule : Nat → List UInt32 → List UInt32
  | 0, _ => []
  | n + 1, window =>
    let next := rotateLeft
      (window.getD 13 0 ^^^ window.getD 8 0 ^^^ window.getD 2 0 ^^^ window.getD 0 0) 1
    window.headD 0 :: schedule n (window.tail ++ [next])

def mix (round : Nat) (b c d : UInt32) : UInt32 × UInt32 :=
  if round < 20 then ((b &&& c) ||| ((~~~ b) &&& d), 0x5a827999)
  else if round < 40 then (b ^^^ c ^^^ d, 0x6ed9eba1)
  else if round < 60 then ((b &&& c) ||| (b &&& d) ||| (c &&& d), 0x8f1bbcdc)
  else (b ^^^ c ^^^ d, 0xca62c1d6)

def round (s : Words) (step : UInt32 × Nat) : Words :=
  let (f, k) := mix step.2 s.b s.c s.d
  ⟨rotateLeft s.a 5 + f + s.e + k + step.1, s.a, rotateLeft s.b 30, s.c, s.d⟩

def compress (s : Words) (block : Bytes) : Words :=
  let window := (Bytes.groups 4 block).map fun b => UInt32.ofNat (Bytes.toNatBE b)
  let t := (schedule 80 window).zipIdx.foldl round s
  ⟨s.a + t.a, s.b + t.b, s.c + t.c, s.d + t.d, s.e + t.e⟩

/-- Fills a message up to whole blocks: one bit, zeros, and the count of message bits. -/
def fillUp (message : Bytes) : Bytes :=
  message ++ 0x80 :: List.replicate ((64 - (message.length + 9) % 64) % 64) 0 ++
    Bytes.ofNatBE 8 (8 * message.length)

def hash (message : Bytes) : Bytes :=
  let s := (Bytes.groups 64 (fillUp message)).foldl compress
    ⟨0x67452301, 0xefcdab89, 0x98badcfe, 0x10325476, 0xc3d2e1f0⟩
  [s.a, s.b, s.c, s.d, s.e].flatMap fun x => Bytes.ofNatBE 4 x.toNat

end SessionWarden.Digest.Sha1
