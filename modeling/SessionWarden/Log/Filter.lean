import SessionWarden.Bytes
import SessionWarden.Double
import SessionWarden.Failure
import SessionWarden.Log.Note
/-!
# Log filters

A filter is a list of rules; the most specific rule that applies to an event says from which level on it is
recorded. A rule may name the source of an event, a span around it and fields of it. No span is ever open in
the service, so the rules about spans are read and written but let nothing through.
-/

namespace SessionWarden

/-! ### Limits -/

/-- The chattiest level that is let through, if any is. -/
inductive LogLimit where
  | off
  | upTo (level : LogLevel)
deriving DecidableEq, Repr

namespace LogLimit

def named : List (String × LogLimit) :=
  [("off", .off), ("error", .upTo .error), ("warn", .upTo .warn), ("info", .upTo .info),
    ("debug", .upTo .debug), ("trace", .upTo .trace)]

def name : LogLimit → String
  | .off => "off"
  | .upTo .error => "error"
  | .upTo .warn => "warn"
  | .upTo .info => "info"
  | .upTo .debug => "debug"
  | .upTo .trace => "trace"

def allows : LogLimit → LogLevel → Bool
  | .off, _ => false
  | .upTo limit, level => level.verbosity ≤ limit.verbosity

theorem allows_off (level : LogLevel) : allows .off level = false := rfl

theorem allows_upTo_iff (limit level : LogLevel) :
    allows (.upTo limit) level = true ↔ level.verbosity ≤ limit.verbosity := by
  simp [allows]

/-- The value of a text of decimal digits, a plus allowed in front. -/
def number? (text : String) : Option Nat :=
  let digits := match text.toList with
    | '+' :: rest => rest
    | cs => cs
  if digits = [] ∨ !digits.all Char.isDigit then none
  else some (digits.foldl (fun acc c => acc * 10 + (c.toNat - 48)) 0)

/-- The limit of a number or a name; the case of a name does not matter, and no name means errors. -/
def ofText? (text : String) : Option LogLimit :=
  match (number? text).bind fun n => named[n]? with
  | some limit => some limit.2
  | none =>
    if text = "" then some (.upTo .error)
    else
      let word := String.ofList (text.toList.map Char.toLower)
      (named.find? fun entry => entry.1 == word).map Prod.snd

theorem ofText?_name (limit : LogLimit) : ofText? limit.name = some limit := by
  cases limit with
  | off => decide +kernel
  | upTo level => cases level <;> decide +kernel

end LogLimit

/-! ### Fields -/

inductive FieldValue where
  | boolean (b : Bool)
  | float (x : Double)
  | natural (n : Nat)
  | integer (n : Int)
  | pattern (text : String)
deriving DecidableEq, Repr

namespace FieldValue

def toText : FieldValue → String
  | boolean b => toString b
  | float x => x.toText
  | natural n => toString n
  | integer n => toString n
  | pattern text => text

def rank : FieldValue → Nat
  | boolean _ => 0
  | float .nan => 2
  | float _ => 1
  | natural _ => 3
  | integer _ => 4
  | pattern _ => 5

def weight : FieldValue → Int
  | boolean b => if b then 1 else 0
  | float x => x.order
  | natural n => n
  | integer n => n
  | pattern _ => 0

def compare (a b : FieldValue) : Ordering :=
  (Ord.compare a.rank b.rank).then ((Ord.compare a.weight b.weight).then
    (match a, b with
      | pattern s, pattern t => Ord.compare s t
      | _, _ => .eq))

def ofText (text : String) : FieldValue :=
  if text = "true" then boolean true
  else if text = "false" then boolean false
  else
    match LogLimit.number? text with
    | some n => if n < 18446744073709551616 then natural n else ofDouble text
    | none =>
      match text.toList with
      | '-' :: digits =>
        match LogLimit.number? (String.ofList digits) with
        | some n =>
          if digits.head? ≠ some '+' ∧ n ≤ 9223372036854775808 then integer (-n) else ofDouble text
        | none => ofDouble text
      | _ => ofDouble text
where
  /-- The value of a text that is no integer. -/
  ofDouble (text : String) : FieldValue :=
    match Double.ofText? text with
    | some x => float x
    | none => pattern text

end FieldValue

structure FieldRule where
  name : String
  value : Option FieldValue
deriving DecidableEq, Repr

namespace FieldRule

/-- Reads a field: its name, and what stands between the first and the second equals sign. -/
def ofText (text : String) : FieldRule :=
  match (text.toList.splitOn '=').map String.ofList with
  | name :: value :: _ => ⟨name, some (.ofText value)⟩
  | [name] => ⟨name, none⟩
  | [] => ⟨text, none⟩

def toText (f : FieldRule) : String :=
  f.name ++ match f.value with
    | some v => "=" ++ v.toText
    | none => ""

/-- The order of fields: those with a value after those without one, then by name and value. -/
def compare (a b : FieldRule) : Ordering :=
  (Ord.compare a.value.isSome b.value.isSome).then ((Ord.compare a.name b.name).then
    (match a.value, b.value with
      | some v, some w => v.compare w
      | _, _ => .eq))

end FieldRule

/-! ### Rules -/

structure FilterRule where
  /-- How the sources begin that the rule is about. -/
  target : Option String
  span : Option String
  fields : List FieldRule
  limit : LogLimit
deriving DecidableEq, Repr

inductive FilterFault where
  | malformed
  | limitUnknown
deriving DecidableEq, Repr

def FilterFault.message : FilterFault → String
  | .malformed => "invalid filter directive"
  | .limitUnknown => "error parsing level filter: expected one of \"off\", \"error\", \"warn\", " ++
    "\"info\", \"debug\", \"trace\", or a number 0-5"

namespace FilterRule

/-- Ranges of the letters and digits beyond the Latin ones without marks. -/
def wordRanges : List (Nat × Nat) := [
  (0xaa, 0xaa), (0xb2, 0xb3), (0xb5, 0xb5), (0xb9, 0xba), (0xbc, 0xbe), (0xc0, 0xd6), (0xd8, 0xf6),
  (0xf8, 0x2c1), (0x2c6, 0x2d1), (0x2e0, 0x2e4), (0x2ec, 0x2ec), (0x2ee, 0x2ee), (0x370, 0x588),
  (0x5d0, 0x5f2), (0x620, 0x8c9), (0x904, 0xe59), (0xe81, 0xf00), (0xf20, 0xf6c), (0xf88, 0xf8c),
  (0x1000, 0x17b3), (0x17d7, 0x191e), (0x1946, 0x19da), (0x1a00, 0x1aa7), (0x1b05, 0x1b59),
  (0x1b83, 0x1be5), (0x1c00, 0x1c23), (0x1c40, 0x1cbf), (0x1ce9, 0x1ffc), (0x2070, 0x2079),
  (0x207f, 0x2089), (0x2090, 0x209c), (0x2102, 0x2102), (0x2107, 0x2107), (0x210a, 0x2113),
  (0x2115, 0x2115), (0x2119, 0x211d), (0x2124, 0x2124), (0x2126, 0x2126), (0x2128, 0x2128),
  (0x212a, 0x212d), (0x212f, 0x2139), (0x213c, 0x213f), (0x2145, 0x2149), (0x214e, 0x214e),
  (0x2150, 0x2189), (0x2460, 0x249b), (0x24b6, 0x24ff), (0x2776, 0x2793), (0x2c00, 0x2dff),
  (0x2e2f, 0x2e2f), (0x3005, 0x3007), (0x3021, 0x3029), (0x3031, 0x3035), (0x3038, 0x303c),
  (0x3041, 0x3096), (0x309d, 0x309f), (0x30a1, 0x30fa), (0x30fc, 0x31bf), (0x31f0, 0x31ff),
  (0x3220, 0x3229), (0x3248, 0x325f), (0x3280, 0x3289), (0x32b1, 0x32bf), (0x3400, 0x4dbf),
  (0x4e00, 0xa48c), (0xa4d0, 0xa6ef), (0xa717, 0xa8b3), (0xa8d0, 0xa946), (0xa960, 0xa9b2),
  (0xa9cf, 0xd7fb), (0xf900, 0xfbb1), (0xfbd3, 0xfdc7), (0xfdf0, 0xfdfb), (0xfe70, 0xfefc),
  (0xff10, 0xff19), (0xff21, 0xff3a), (0xff41, 0xff5a), (0xff66, 0xffdc), (0x10000, 0x1bc99),
  (0x1d2e0, 0x1d378), (0x1d400, 0x1d7ff), (0x1df00, 0x1eebb), (0x1f100, 0x1f10c), (0x1f130, 0x1f189),
  (0x1fbf0, 0x1fbf9), (0x20000, 0x323af)]

/-- Whether a rule may begin with a character: a letter, a digit, or one of three marks. -/
def isFirst (c : Char) : Bool :=
  c.isAlphanum || c == '-' || c == ':' || c == '_' ||
    wordRanges.any fun r => r.1 ≤ c.toNat && c.toNat ≤ r.2

def isBlank (c : Char) : Bool :=
  c == ' ' || (0x09 ≤ c.toNat && c.toNat ≤ 0x0d) || c == '\x85' || c == '\xa0' || c.toNat == 0x1680 ||
    (0x2000 ≤ c.toNat && c.toNat ≤ 0x200a) || c.toNat == 0x2028 || c.toNat == 0x2029 ||
    c.toNat == 0x202f || c.toNat == 0x205f || c.toNat == 0x3000

def trimmed (cs : List Char) : List Char :=
  ((cs.dropWhile isBlank).reverse.dropWhile isBlank).reverse

def everything : FilterRule := ⟨none, none, [], .upTo .trace⟩

inductive Phase where
  | start
  | word (start : Nat)
  | span (start : Nat)
  | field (start : Nat)
  | fields
  | closed
  | limit (start : Nat)

structure Draft where
  rule : FilterRule
  phase : Phase

namespace Draft

def piece (text : Bytes) (start stop : Nat) : String :=
  (Bytes.toString? ((text.drop start).take (stop - start))).getD ""

def addField (d : Draft) (field : String) (next : Phase) : Except FilterFault Draft :=
  if field = "" then .error .malformed
  else .ok ⟨{ d.rule with fields := d.rule.fields ++ [FieldRule.ofText field] }, next⟩

/-- Reads the character at a place; pieces are cut from the text. -/
def step (text : Bytes) (place : Nat) (c : Char) (d : Draft) : Except FilterFault Draft :=
  let next := place + 1
  match d.phase with
  | .start =>
    if c = '[' then .ok { d with phase := .span next }
    else if isFirst c then .ok { d with phase := .word place }
    else .error .malformed
  | .word start =>
    let target := some (piece text start place)
    if c = '=' then .ok ⟨{ d.rule with target := target }, .limit next⟩
    else if c = '[' then .ok ⟨{ d.rule with target := target }, .span next⟩
    else .ok d
  | .span start =>
    let name := piece text start place
    if c = ']' then .ok ⟨{ d.rule with span := some name }, .closed⟩
    else if c = '\x7b' then
      .ok ⟨{ d.rule with span := if name = "" then none else some name }, .field next⟩
    else .ok d
  | .field start =>
    if c = '\x7d' then d.addField (piece text start place) .fields else .ok d
  | .fields => if c = ']' then .ok { d with phase := .closed } else .error .malformed
  | .closed => if c = '=' then .ok { d with phase := .limit next } else .error .malformed
  | .limit _ => .ok d

def finish (text : Bytes) (d : Draft) : Except FilterFault FilterRule :=
  match d.phase with
  | .word start =>
    let word := piece text start text.length
    match LogLimit.ofText? word with
    | some limit => .ok { d.rule with limit := limit }
    | none => .ok { d.rule with target := some word }
  | .limit start =>
    let word := piece text start text.length
    if word = "" then .ok d.rule
    else
      match LogLimit.ofText? word with
      | some limit => .ok { d.rule with limit := limit }
      | none => .error .limitUnknown
  | .closed => .ok d.rule
  | _ => .error .malformed

def scan (text : Bytes) : Nat → List Char → Draft → Except FilterFault Draft
  | _, [], d => .ok d
  | place, c :: rest, d => do
    scan text (place + (Bytes.ofString c.toString).length) rest (← d.step text place c)

end Draft

/-- Reads a rule. Blanks around it are passed over, but places are counted without the blanks in front and
pieces are cut from the text with them. -/
def ofText (text : String) : Except FilterFault FilterRule := do
  let bytes := Bytes.ofString text
  (← Draft.scan bytes 0 (trimmed text.toList) ⟨everything, .start⟩).finish bytes

def toText (r : FilterRule) : String :=
  let fields := if r.fields = [] then ""
    else "\x7b" ++ ",".intercalate (r.fields.map FieldRule.toText) ++ "\x7d"
  let span := r.span.getD "" ++ fields
  let bracket := if r.span.isSome || !r.fields.isEmpty then "[" ++ span ++ "]" else ""
  let isNamed := r.target.isSome || r.span.isSome || !r.fields.isEmpty
  r.target.getD "" ++ bracket ++ (if isNamed then "=" else "") ++ r.limit.name

def compareOptional {α : Type} [Ord α] : Option α → Option α → Ordering
  | none, none => .eq
  | none, some _ => .lt
  | some _, none => .gt
  | some a, some b => compare a b

def compareFields : List FieldRule → List FieldRule → Ordering
  | [], [] => .eq
  | [], _ :: _ => .lt
  | _ :: _, [] => .gt
  | a :: as, b :: bs => (a.compare b).then (compareFields as bs)

/-- How specific a rule is against another: by the length of its target, whether it names a span, and the
number of its fields; then by their texts. -/
def specificity (a b : FilterRule) : Ordering :=
  (compareOptional (a.target.map String.utf8ByteSize) (b.target.map String.utf8ByteSize)).then
    ((compare a.span.isSome b.span.isSome).then
      ((compare a.fields.length b.fields.length).then
        ((compareOptional a.target b.target).then
          ((compareOptional a.span b.span).then (compareFields a.fields b.fields)))))

/-- Puts a rule before the less specific ones; it replaces one about the same. -/
def place (r : FilterRule) : List FilterRule → List FilterRule
  | [] => [r]
  | s :: rest =>
    match r.specificity s with
    | .gt => r :: s :: rest
    | .eq => r :: rest
    | .lt => s :: place r rest

def isAbout (r : FilterRule) (n : Note) : Bool :=
  (r.target.all fun t => t.toList.isPrefixOf n.source.toList) &&
    r.fields.all fun f => ("message" :: n.fields.map Note.Field.name).contains f.name

end FilterRule

/-! ### Filters -/

/-- A filter: the rules about events and those about spans, the most specific first. -/
structure LogFilter where
  rules : List FilterRule
  spanRules : List FilterRule
deriving DecidableEq, Repr

structure FilterError where
  text : String
  fault : FilterFault
deriving DecidableEq, Repr

def FilterError.message (e : FilterError) : String :=
  "log filter " ++ quoted e.text ++ ": " ++ e.fault.message

namespace LogFilter

/-- A filter of rules. A rule that names no span and asks for no value is about events; one that names a span
or fields is about spans. -/
def ofRules (rules : List FilterRule) : LogFilter :=
  let aboutSpans := rules.filter fun r => r.span.isSome || !r.fields.isEmpty
  let plain := rules.filter fun r => r.span.isNone && r.fields.isEmpty
  let named := aboutSpans.filter fun r => r.span.isNone && r.fields.all fun f => f.value.isNone
  ⟨(plain ++ named).foldl (fun placed r => r.place placed) [],
    aboutSpans.foldl (fun placed r => r.place placed) []⟩

def ofText (text : String) : Except FilterError LogFilter :=
  let parts := ((text.toList.splitOn ',').filter fun part => !part.isEmpty).map String.ofList
  match parts.mapM FilterRule.ofText with
  | .ok rules => .ok (ofRules rules)
  | .error fault => .error ⟨text, fault⟩

def toText (f : LogFilter) : String := ",".intercalate ((f.rules ++ f.spanRules).map FilterRule.toText)

def allows (f : LogFilter) (n : Note) : Bool :=
  match f.rules.find? fun r => r.isAbout n with
  | some r => r.limit.allows n.level
  | none => false

/-- The filter that is in force before the settings are read (`BOOTSTRAP_FILTER`). -/
def bootstrap : LogFilter := ofRules [⟨none, none, [], .upTo .info⟩]

end LogFilter

end SessionWarden
