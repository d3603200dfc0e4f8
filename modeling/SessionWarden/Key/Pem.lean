import SessionWarden.Base64
/-!
# Textual encodings of keys

Two readers of the same format. The tolerant one finds the first pair of boundaries anywhere in a text and
ignores how lines are broken; the exact one wants the boundaries on lines of their own and lines of 64
characters.
-/

namespace SessionWarden.Pem

structure Block where
  label : String
  content : Bytes
deriving DecidableEq

/-! ### Cutting -/

def cut? (part : Bytes) : Bytes → Option (Bytes × Bytes)
  | [] => if part = [] then some ([], []) else none
  | b :: rest =>
    if part.isPrefixOf (b :: rest) then some ([], (b :: rest).drop part.length)
    else (cut? part rest).map fun (before, after) => (b :: before, after)

/-- What stands after the first occurrence of a part at a byte of the text. -/
def cutText? (part : String) (b : Bytes) : Option (Bytes × Bytes) := cut? (Bytes.ofString part) b

def isBlank (c : Char) : Bool :=
  let n := c.toNat
  (0x09 ≤ n && n ≤ 0x0d) || n == 0x20 || n == 0x85 || n == 0xa0 || n == 0x1680 ||
    (0x2000 ≤ n && n ≤ 0x200a) || n == 0x2028 || n == 0x2029 || n == 0x202f || n == 0x205f || n == 0x3000

/-! ### The tolerant reader -/

/-- The headers of a body, which end with an empty line, and the rest. -/
def splitHeaders (body : Bytes) : Bytes × Bytes :=
  match cutText? "\n\n" body with
  | some parts => parts
  | none =>
    match cutText? "\r\n\r\n" body with
    | some parts => parts
    | none => ([], body)

def headersValid (headers : Bytes) : Bool :=
  match Bytes.toString? headers with
  | none => false
  | some text =>
    let lines := text.toList.splitOn '\n'
    let lines := if lines.getLast? = some [] then lines.dropLast else lines
    lines.all fun line => line.contains ':'

def find? (text : Bytes) : Option Block := do
  let (_, rest) ← cutText? "-----BEGIN " text
  let (opening, rest) ← cutText? "-----" rest
  let rest := rest.dropWhile fun b => b == 0x20 || b == 0x09 || b == 0x0a || b == 0x0d
  let (body, rest) ← cutText? "-----END " rest
  let (closing, _) ← cutText? "-----" rest
  let label ← Bytes.toString? opening
  if opening = [] ∨ opening ≠ closing then none
  else
    let (headers, data) := splitHeaders body
    let characters ← Bytes.toString? data
    let content ← Base64.standard.decodeChars (characters.toList.filter fun c => !isBlank c)
    if headersValid headers then some ⟨label, content⟩ else none

/-! ### The exact reader -/

/-- Drops the end of a line at the front of a text. -/
def dropLineEnd? : Bytes → Option Bytes
  | 0x0d :: 0x0a :: rest => some rest
  | 0x0d :: rest => some rest
  | 0x0a :: rest => some rest
  | _ => none

/-- Drops the end of a line at the end of a text. -/
def dropLastLineEnd? (b : Bytes) : Option Bytes :=
  match b.reverse with
  | 0x0a :: 0x0d :: rest => some rest.reverse
  | 0x0a :: rest => some rest.reverse
  | 0x0d :: rest => some rest.reverse
  | _ => none

def dropEnd? (part b : Bytes) : Option Bytes :=
  if part.reverse.isPrefixOf b.reverse then some (b.take (b.length - part.length)) else none

/-- What follows the opening boundary, which stands at the front or after a line feed. -/
def afterOpening? (atFront : Bool) : Bytes → Option Bytes
  | [] => none
  | b :: rest =>
    let opening := Bytes.ofString "-----BEGIN "
    if atFront && opening.isPrefixOf (b :: rest) then some ((b :: rest).drop opening.length)
    else if b = 0 then none
    else afterOpening? (b == 0x0a) rest

/-- Joins lines of 64 characters (`fuel` bounds their number); the last line may be shorter. -/
def unwrap? : Nat → Bytes → Option Bytes
  | _, [] => some []
  | 0, _ => none
  | fuel + 1, b =>
    if b.length ≤ 64 then some ((dropLastLineEnd? b).getD b)
    else do
      let rest ← dropLineEnd? (b.drop 64)
      let joined ← unwrap? fuel rest
      return b.take 64 ++ joined

/-- The content of a text that is one block of the given label, after any lines before it. -/
def strict? (label : String) (text : Bytes) : Option Bytes := do
  let rest ← afterOpening? true text
  let name := Bytes.ofString label
  if !(name ++ Bytes.ofString "-----").isPrefixOf rest then none
  let body ← dropLineEnd? (rest.drop (name.length + 5))
  let body ← dropEnd? (Bytes.ofString "-----") ((dropLastLineEnd? body).getD body)
  let body ← dropEnd? (Bytes.ofString "-----END " ++ name) body
  let wrapped ← dropLastLineEnd? body
  let joined ← unwrap? wrapped.length wrapped
  let characters ← Bytes.toString? joined
  Base64.standard.decodeChars characters.toList

end SessionWarden.Pem
