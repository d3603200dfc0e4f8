import SessionWarden.Digest.Blake2b
/-!
# Argon2

The memory-hard hash of passwords of RFC 9106, without a secret. Memory is a matrix of blocks: as many lanes
as the parameters ask for, each cut into four slices. Every block is compressed from the one before it and
from a reference block, which is chosen by the data, by position alone, or by position at first and by the
data later.
-/

namespace SessionWarden.Digest.Argon2

inductive Variant where
  | d
  | i
  /-- By position in the first half of the first pass, by the data after it. -/
  | id
deriving DecidableEq, Repr

def Variant.number : Variant → Nat
  | .d => 0
  | .i => 1
  | .id => 2

/-- The versions of the algorithm; in the older one a later pass overwrites. -/
inductive Version where
  | v16
  | v19
deriving DecidableEq, Repr

def Version.number : Version → Nat
  | .v16 => 16
  | .v19 => 19

/-- The costs: memory in blocks of 1 KiB, passes and lanes. -/
structure Costs where
  memory : Nat
  passes : Nat
  lanes : Nat
deriving DecidableEq, Repr

/-! ### Blocks -/

structure Pair where
  x : UInt64
  y : UInt64
deriving Inhabited

structure Eight (α : Type) where
  e0 : α
  e1 : α
  e2 : α
  e3 : α
  e4 : α
  e5 : α
  e6 : α
  e7 : α
deriving Inhabited

namespace Eight

variable {α β γ : Type}

@[inline] def map (f : α → β) (v : Eight α) : Eight β :=
  ⟨f v.e0, f v.e1, f v.e2, f v.e3, f v.e4, f v.e5, f v.e6, f v.e7⟩

@[inline] def zip (f : α → β → γ) (v : Eight α) (w : Eight β) : Eight γ :=
  ⟨f v.e0 w.e0, f v.e1 w.e1, f v.e2 w.e2, f v.e3 w.e3, f v.e4 w.e4, f v.e5 w.e5, f v.e6 w.e6, f v.e7 w.e7⟩

def transpose (v : Eight (Eight α)) : Eight (Eight α) :=
  ⟨v.map e0, v.map e1, v.map e2, v.map e3, v.map e4, v.map e5, v.map e6, v.map e7⟩

def toList (v : Eight α) : List α := [v.e0, v.e1, v.e2, v.e3, v.e4, v.e5, v.e6, v.e7]

def ofList (default : α) (xs : List α) : Eight α :=
  ⟨xs.getD 0 default, xs.getD 1 default, xs.getD 2 default, xs.getD 3 default,
    xs.getD 4 default, xs.getD 5 default, xs.getD 6 default, xs.getD 7 default⟩

end Eight

/-- A block of 1 KiB: eight rows of eight pairs of words. -/
abbrev Block := Eight (Eight Pair)

namespace Block

def ofWords (words : List UInt64) : Block :=
  let pair (ws : List UInt64) : Pair := ⟨ws.getD 0 0, ws.getD 1 0⟩
  let row (ws : List UInt64) : Eight Pair := Eight.ofList ⟨0, 0⟩ ((Bytes.groups 2 ws).map pair)
  Eight.ofList (row []) ((Bytes.groups 16 words).map row)

def toWords (b : Block) : List UInt64 := b.toList.flatMap fun r => r.toList.flatMap fun p => [p.x, p.y]

def ofBytes (b : Bytes) : Block := ofWords ((Bytes.groups 8 b).map fun w => UInt64.ofNat (Bytes.toNatLE w))

def toBytes (b : Block) : Bytes := b.toWords.flatMap fun w => Bytes.ofNatLE 8 w.toNat

def zero : Block := ofWords []

@[inline] def xorPair (p q : Pair) : Pair := ⟨p.x ^^^ q.x, p.y ^^^ q.y⟩

def xor (a b : Block) : Block := Eight.zip (fun r s => Eight.zip xorPair r s) a b

end Block

/-! ### Compression -/

/-- The sum of two words and twice the product of their low halves. -/
@[inline] def mulAdd (x y : UInt64) : UInt64 := x + y + 2 * ((x &&& 0xffffffff) * (y &&& 0xffffffff))

@[inline] def mulAddRows (x y : Row) : Row := Row.zip mulAdd x y

def permute (r : Eight Pair) : Eight Pair :=
  let zero : Row := ⟨0, 0, 0, 0⟩
  let row (p q : Pair) : Row := ⟨p.x, p.y, q.x, q.y⟩
  let v : Square := ⟨row r.e0 r.e1, row r.e2 r.e3, row r.e4 r.e5, row r.e6 r.e7⟩
  let v := v.mixColumns mulAddRows zero zero
  let v := (v.toDiagonals.mixColumns mulAddRows zero zero).ofDiagonals
  ⟨⟨v.p.a, v.p.b⟩, ⟨v.p.c, v.p.d⟩, ⟨v.q.a, v.q.b⟩, ⟨v.q.c, v.q.d⟩,
    ⟨v.r.a, v.r.b⟩, ⟨v.r.c, v.r.d⟩, ⟨v.s.a, v.s.b⟩, ⟨v.s.c, v.s.d⟩⟩

/-- Compresses two blocks into one: rows and then columns of their difference are permuted. -/
def compress (a b : Block) : Block :=
  let r := Block.xor a b
  let rows := r.map permute
  Block.xor r (rows.transpose.map permute).transpose

/-! ### Long digests -/

/-- The pieces of a long digest: each but the last gives its first half (`fuel` bounds their number). -/
def expand : Nat → Nat → Bytes → Bytes
  | 0, _, _ => []
  | fuel + 1, left, v =>
    if left ≤ 64 then Blake2b.hash left v
    else
      let next := Blake2b.hash 64 v
      next.take 32 ++ expand fuel (left - 32) next

def longHash (length : Nat) (message : Bytes) : Bytes := expand (length + 1) length (Bytes.ofNatLE 4 length ++ message)

/-! ### The matrix -/

structure Layout where
  variant : Variant
  version : Version
  costs : Costs
deriving DecidableEq, Repr

namespace Layout

def segment (l : Layout) : Nat := l.costs.memory / (4 * l.costs.lanes)

def laneLength (l : Layout) : Nat := 4 * l.segment

def size (l : Layout) : Nat := l.laneLength * l.costs.lanes

end Layout

structure Place where
  pass : Nat
  slice : Nat
  lane : Nat
  index : Nat

def Place.isByPosition (l : Layout) (p : Place) : Bool :=
  match l.variant with
  | .d => false
  | .i => true
  | .id => p.pass == 0 && Nat.blt p.slice 2

/-- The block of 128 choices for places of one slice of a lane. -/
def choices (l : Layout) (p : Place) : Block :=
  let seed := Block.ofWords ([p.pass, p.lane, p.slice, l.size, l.costs.passes, l.variant.number,
    p.index / 128 + 1].map UInt64.ofNat)
  compress .zero (compress .zero seed)

/-- The number of the reference block of a place for a choice of 64 bits. -/
def reference (l : Layout) (p : Place) (choice : UInt64) : Nat :=
  let low := choice.toNat % Nat.pow 2 32
  let high := choice.toNat / Nat.pow 2 32
  let lane := if p.pass = 0 ∧ p.slice = 0 then p.lane else high % l.costs.lanes
  let finished := if p.pass = 0 then p.slice * l.segment else l.laneLength - l.segment
  let area :=
    if lane = p.lane then finished + p.index - 1
    else if p.index = 0 then finished - 1 else finished
  let x := low * low / Nat.pow 2 32
  let relative := area - 1 - area * x / Nat.pow 2 32
  let start := if p.pass = 0 ∨ p.slice = 3 then 0 else (p.slice + 1) * l.segment
  lane * l.laneLength + (start + relative) % l.laneLength

structure Filling where
  memory : Array Block
  choices : List UInt64

def fillPlace (l : Layout) (f : Filling) (p : Place) : Filling :=
  let inLane := p.slice * l.segment + p.index
  let here := p.lane * l.laneLength + inLane
  let before := p.lane * l.laneLength + (inLane + l.laneLength - 1) % l.laneLength
  let byPosition := p.isByPosition l
  let remaining :=
    if byPosition then
      if p.index % 128 = 0 then (choices l p).toWords else f.choices
    else []
  if p.pass = 0 ∧ p.slice = 0 ∧ p.index < 2 then ⟨f.memory, remaining.tail⟩
  else
    let previous := f.memory.getD before .zero
    let choice := if byPosition then remaining.headD 0 else previous.e0.e0.x
    let other := f.memory.getD (reference l p choice) .zero
    let fresh := compress previous other
    let block := if p.pass = 0 ∨ l.version = .v16 then fresh else fresh.xor (f.memory.getD here .zero)
    ⟨f.memory.setIfInBounds here block, remaining.tail⟩

def fillSegment (l : Layout) (pass slice lane : Nat) (memory : Array Block) : Array Block :=
  (Nat.fold l.segment (fun index _ f => fillPlace l f ⟨pass, slice, lane, index⟩) ⟨memory, []⟩).memory

def fill (l : Layout) (memory : Array Block) : Array Block :=
  Nat.fold l.costs.passes (fun pass _ memory =>
    Nat.fold 4 (fun slice _ memory =>
      Nat.fold l.costs.lanes (fun lane _ memory => fillSegment l pass slice lane memory) memory) memory)
    memory

def withLength (b : Bytes) : Bytes := Bytes.ofNatLE 4 b.length ++ b

def seed (l : Layout) (length : Nat) (password salt associated : Bytes) : Bytes :=
  let numbers := [l.costs.lanes, length, l.costs.memory, l.costs.passes, l.version.number, l.variant.number]
  Blake2b.hash 64 (numbers.flatMap (Bytes.ofNatLE 4) ++ withLength password ++ withLength salt ++
    withLength [] ++ withLength associated)

def start (l : Layout) (seed : Bytes) : Array Block :=
  Nat.fold l.costs.lanes (fun lane _ memory =>
    Nat.fold 2 (fun column _ memory =>
      memory.setIfInBounds (lane * l.laneLength + column)
        (Block.ofBytes (longHash 1024 (seed ++ Bytes.ofNatLE 4 column ++ Bytes.ofNatLE 4 lane)))) memory)
    (Array.replicate l.size .zero)

def hash (l : Layout) (length : Nat) (password salt associated : Bytes) : Bytes :=
  let memory := fill l (start l (seed l length password salt associated))
  let last := (List.range l.costs.lanes).foldl (fun block lane =>
    Block.xor block (memory.getD (lane * l.laneLength + l.laneLength - 1) Block.zero)) Block.zero
  longHash length (Block.toBytes last)

end SessionWarden.Digest.Argon2
