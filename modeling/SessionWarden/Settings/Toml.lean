import SessionWarden.Calendar
import SessionWarden.Double
/-!
# TOML documents

A document is read into a tree of values. Dates and times are kept in their normal written form. Reading has
two parts: the grammar of keys and values, and the rules by which headers and dotted keys may open and extend
tables, each of which may be defined only once.
-/

namespace SessionWarden

inductive Toml where
  | string (s : String)
  | integer (n : Int)
  | float (x : Double)
  | boolean (b : Bool)
  /-- A date, a time or both, in normal form. -/
  | moment (text : String)
  | array (items : List Toml)
  | table (entries : List (String × Toml))
deriving Inhabited

namespace Toml

/-! ### Blanks and comments -/

def isBlank (c : Char) : Bool := c == ' ' || c == '\t'

def skipBlanks (cs : List Char) : List Char := cs.dropWhile isBlank

/-- Whether a character may stand in a comment or, unescaped, in a string of one line. -/
def isPlain (c : Char) : Bool := c == '\t' || (' ' ≤ c && c != '\x7f')

def skipComment (cs : List Char) : List Char :=
  match cs with
  | '#' :: rest => rest.dropWhile isPlain
  | _ => cs

def newline? : List Char → Option (List Char)
  | '\n' :: rest => some rest
  | '\r' :: '\n' :: rest => some rest
  | _ => none

/-- What follows blanks, comments and ends of lines (`fuel` bounds the lines). -/
def skipLines : Nat → List Char → List Char
  | 0, cs => cs
  | fuel + 1, cs =>
    let rest := skipComment (skipBlanks cs)
    match newline? rest with
    | some rest => skipLines fuel rest
    | none => rest

/-! ### Strings -/

def hexValue? (c : Char) : Option Nat :=
  if '0' ≤ c ∧ c ≤ '9' then some (c.toNat - 48)
  else if 'a' ≤ c ∧ c ≤ 'f' then some (c.toNat - 87)
  else if 'A' ≤ c ∧ c ≤ 'F' then some (c.toNat - 55)
  else none

def scalar? (digits : List Char) : Option Char := do
  let values ← digits.mapM hexValue?
  let n := values.foldl (fun acc d => acc * 16 + d) 0
  if n < 0xd800 ∨ (0xe000 ≤ n ∧ n < 0x110000) then some (Char.ofNat n) else none

def readScalar? (width : Nat) (cs : List Char) : Option (Char × List Char) :=
  if cs.length < width then none else (scalar? (cs.take width)).map fun c => (c, cs.drop width)

def readEscape? : List Char → Option (Char × List Char)
  | 'b' :: rest => some ('\x08', rest)
  | 't' :: rest => some ('\t', rest)
  | 'n' :: rest => some ('\n', rest)
  | 'f' :: rest => some ('\x0c', rest)
  | 'r' :: rest => some ('\r', rest)
  | 'e' :: rest => some ('\x1b', rest)
  | '"' :: rest => some ('"', rest)
  | '\\' :: rest => some ('\\', rest)
  | 'x' :: rest => readScalar? 2 rest
  | 'u' :: rest => readScalar? 4 rest
  | 'U' :: rest => readScalar? 8 rest
  | _ => none

/-- Reads a string with escapes after its opening quote (`fuel` bounds its length). -/
def readBasic? : Nat → List Char → List Char → Option (String × List Char)
  | 0, _, _ => none
  | fuel + 1, acc, cs =>
    match cs with
    | '"' :: rest => some (String.ofList acc.reverse, rest)
    | '\\' :: rest =>
      match readEscape? rest with
      | some (c, rest) => readBasic? fuel (c :: acc) rest
      | none => none
    | c :: rest => if isPlain c then readBasic? fuel (c :: acc) rest else none
    | [] => none

def readLiteral? (cs : List Char) : Option (String × List Char) :=
  let isInside (c : Char) : Bool := isPlain c && c != '\''
  match cs.dropWhile isInside with
  | '\'' :: rest => some (String.ofList (cs.takeWhile isInside), rest)
  | _ => none

def quoteCount (quote : Char) (cs : List Char) : Nat := (cs.takeWhile (· == quote)).length

/-- What follows a backslash at the end of a line: the first character that is no blank (`fuel` bounds the
lines). -/
def joinLines? : Nat → List Char → Option (List Char)
  | 0, _ => none
  | fuel + 1, cs =>
    (newline? (skipBlanks cs)).map fun rest => (joinLines? fuel rest).getD (skipBlanks rest)

/-- Reads a string of several lines after its opening quotes (`fuel` bounds its length). One or two quotes
may stand within it or right before the closing ones. -/
def readLong? (quote : Char) (escapes : Bool) : Nat → List Char → List Char → Option (String × List Char)
  | 0, _, _ => none
  | fuel + 1, acc, cs =>
    let quotes := quoteCount quote cs
    if 3 ≤ quotes then
      if 5 < quotes then none
      else some (String.ofList (acc.reverse ++ List.replicate (quotes - 3) quote), cs.drop quotes)
    else
      match newline? cs with
      | some rest => readLong? quote escapes fuel ('\n' :: acc) rest
      | none =>
        match cs with
        | [] => none
        | c :: rest =>
          if c = '\\' ∧ escapes then
            match joinLines? (rest.length + 1) rest with
            | some rest => readLong? quote escapes fuel acc rest
            | none =>
              match readEscape? rest with
              | some (c, rest) => readLong? quote escapes fuel (c :: acc) rest
              | none => none
          else if isPlain c then readLong? quote escapes fuel (c :: acc) rest
          else none

def readLine? : List Char → Option (String × List Char)
  | '"' :: rest => readBasic? (rest.length + 1) [] rest
  | '\'' :: rest => readLiteral? rest
  | _ => none

/-- Reads a string. The end of a line right after the quotes of a long one does not belong to it. -/
def readString? (cs : List Char) : Option (String × List Char) :=
  let long (quote : Char) (escapes : Bool) (rest : List Char) : Option (String × List Char) :=
    let body := (newline? rest).getD rest
    readLong? quote escapes (body.length + 1) [] body
  match cs with
  | '"' :: '"' :: '"' :: rest => long '"' true rest
  | '\'' :: '\'' :: '\'' :: rest => long '\'' false rest
  | cs => readLine? cs

/-! ### Keys -/

def isKeyChar (c : Char) : Bool := c.isAlphanum || c == '_' || c == '-'

def readKeyPart? (cs : List Char) : Option (String × List Char) :=
  let bare := cs.takeWhile isKeyChar
  if bare = [] then readLine? cs else some (String.ofList bare, cs.dropWhile isKeyChar)

/-- Reads a key: parts with dots between them, blanks allowed around each (`fuel` bounds the parts). -/
def readKey? : Nat → List Char → Option (List String × List Char)
  | 0, _ => none
  | fuel + 1, cs => do
    let (part, rest) ← readKeyPart? (skipBlanks cs)
    match skipBlanks rest with
    | '.' :: rest =>
      let (parts, rest) ← readKey? fuel rest
      return (part :: parts, rest)
    | rest => return ([part], rest)

/-- The greatest number of parts of a key, and the greatest depth of a value. -/
def greatestDepth : Nat := 80

/-! ### Numbers -/

/-- The digits of a run that underscores may divide: every underscore has digits on both sides. -/
def digits? (isDigit : Char → Bool) (run : List Char) : Option (List Char) :=
  let groups := run.splitOn '_'
  if groups.all fun g => !g.isEmpty && g.all isDigit then some groups.flatten else none

def valueIn (base : Nat) (digits : List Char) : Option Nat := do
  let values ← digits.mapM hexValue?
  return values.foldl (fun acc d => acc * base + d) 0

def readRun? (isDigit : Char → Bool) (cs : List Char) : Option (List Char × List Char) :=
  let isRunChar (c : Char) : Bool := isDigit c || c == '_'
  (digits? isDigit (cs.takeWhile isRunChar)).map fun ds => (ds, cs.dropWhile isRunChar)

def integer? (n : Int) : Option Toml :=
  if -9223372036854775808 ≤ n ∧ n ≤ 9223372036854775807 then some (integer n) else none

def readBased? (base : Nat) (cs : List Char) : Option (Toml × List Char) := do
  let isDigit (c : Char) : Bool := (hexValue? c).any fun d => d < base
  let (ds, rest) ← readRun? isDigit cs
  let n ← valueIn base ds
  return (← integer? n, rest)

/-- The sign in front of a number, if there is one: whether it is a minus, and what follows. -/
def readSign (cs : List Char) : Bool × List Char :=
  match cs with
  | '-' :: rest => (true, rest)
  | '+' :: rest => (false, rest)
  | _ => (false, cs)

def readExponent? : List Char → Option (Option Int × List Char)
  | c :: rest =>
    if c = 'e' ∨ c = 'E' then do
      let (negative, rest) := readSign rest
      let (ds, rest) ← readRun? Char.isDigit rest
      let n : Int ← valueIn 10 ds
      return (some (if negative then -n else n), rest)
    else some (none, c :: rest)
  | [] => some (none, [])

def readFraction? : List Char → Option (Option (List Char) × List Char)
  | '.' :: rest => (readRun? Char.isDigit rest).map fun (ds, rest) => (some ds, rest)
  | cs => some (none, cs)

/-- Reads a decimal number: no zero stands before other digits, and a float is finite. -/
def readDecimal? (cs : List Char) : Option (Toml × List Char) := do
  let (negative, unsigned) := readSign cs
  let (whole, rest) ← readRun? Char.isDigit unsigned
  if whole.head? = some '0' ∧ unsigned.tail.head?.any (fun c => c.isDigit || c == '_') then none
  let (fraction, rest) ← readFraction? rest
  let (exponent, rest) ← readExponent? rest
  if fraction.isNone ∧ exponent.isNone then
    let n : Int ← valueIn 10 whole
    return (← integer? (if negative then -n else n), rest)
  else
    let places := fraction.getD []
    let n ← valueIn 10 (whole ++ places)
    let x := Double.ofDecimal negative n (exponent.getD 0 - places.length)
    if x = .infinite negative then none else return (float x, rest)

def readWord? (word : String) (v : Toml) (cs : List Char) : Option (Toml × List Char) :=
  if word.toList.isPrefixOf cs then some (v, cs.drop word.length) else none

def readNumber? (cs : List Char) : Option (Toml × List Char) :=
  match cs with
  | '0' :: 'x' :: rest => readBased? 16 rest
  | '0' :: 'o' :: rest => readBased? 8 rest
  | '0' :: 'b' :: rest => readBased? 2 rest
  | _ =>
    let (negative, unsigned) := readSign cs
    match readWord? "inf" (float (.infinite negative)) unsigned with
    | some step => some step
    | none =>
      match readWord? "nan" (float .nan) unsigned with
      | some step => some step
      | none => readDecimal? cs

/-! ### Dates and times -/

def readFixed? (width : Nat) (cs : List Char) : Option (Nat × List Char) :=
  let ds := cs.take width
  if ds.length = width ∧ ds.all Char.isDigit then (valueIn 10 ds).map fun n => (n, cs.drop width) else none

def readChar? (c : Char) : List Char → Option (List Char)
  | d :: rest => if c = d then some rest else none
  | [] => none

def readDate? (cs : List Char) : Option (String × List Char) := do
  let (year, rest) ← readFixed? 4 cs
  let (month, rest) ← readFixed? 2 (← readChar? '-' rest)
  let (day, rest) ← readFixed? 2 (← readChar? '-' rest)
  if day < 1 ∨ CivilDate.daysInMonth year month < day then none
  else return (paddedNat 4 year ++ "-" ++ paddedNat 2 month ++ "-" ++ paddedNat 2 day, rest)

/-- Reads a fraction of a second; nine digits count, and zeros at its end are not shown but for one. -/
def readSecondFraction? (cs : List Char) : Option (String × List Char) :=
  match cs with
  | '.' :: rest =>
    let ds := rest.takeWhile Char.isDigit
    if ds = [] then none
    else
      let shown := ((ds.take 9).reverse.dropWhile (· == '0')).reverse
      some ("." ++ (if shown = [] then "0" else String.ofList shown), rest.dropWhile Char.isDigit)
  | _ => some ("", cs)

/-- Reads a second and its fraction after a colon, if they are there. -/
def readSecond? (cs : List Char) : Option (String × List Char) :=
  match cs with
  | ':' :: rest => do
    let (second, rest) ← readFixed? 2 rest
    if 60 < second then none
    else
      let (fraction, rest) ← readSecondFraction? rest
      return (":" ++ paddedNat 2 second ++ fraction, rest)
  | _ => some ("", cs)

def readTime? (cs : List Char) : Option (String × List Char) := do
  let (hour, rest) ← readFixed? 2 cs
  let (minute, rest) ← readFixed? 2 (← readChar? ':' rest)
  if 23 < hour ∨ 59 < minute then none
  else
    let (second, rest) ← readSecond? rest
    return (paddedNat 2 hour ++ ":" ++ paddedNat 2 minute ++ second, rest)

/-- Reads the distance from coordinated universal time, if there is one; none at all is written with a plus. -/
def readOffset (cs : List Char) : String × List Char :=
  match cs with
  | [] => ("", [])
  | c :: rest =>
    if c = 'Z' ∨ c = 'z' then ("Z", rest)
    else if c = '+' ∨ c = '-' then
      let read : Option (String × List Char) := do
        let (hour, rest) ← readFixed? 2 rest
        let (minute, rest) ← readFixed? 2 (← readChar? ':' rest)
        if 23 < hour ∨ 59 < minute then none
        else
          let sign := if c = '-' ∧ 0 < hour + minute then "-" else "+"
          return (sign ++ paddedNat 2 hour ++ ":" ++ paddedNat 2 minute, rest)
      read.getD ("", cs)
    else ("", cs)

def readMoment? (cs : List Char) : Option (Toml × List Char) :=
  match readDate? cs with
  | some (date, rest) =>
    let time : Option (String × List Char) := match rest with
      | c :: after => if c = 'T' ∨ c = 't' ∨ c = ' ' then readTime? after else none
      | [] => none
    match time with
    | some (time, rest) =>
      let (offset, rest) := readOffset rest
      some (moment (date ++ "T" ++ time ++ offset), rest)
    | none => some (moment date, rest)
  | none => (readTime? cs).map fun (time, rest) => (moment time, rest)

/-! ### Tables under construction -/

/-- A part of a document under construction. -/
inductive Node where
  | value (v : Toml)
  /-- A table: whether it has no header of its own, and whether a dotted key opened it. -/
  | table (implicit dotted : Bool) (entries : List (String × Node))
  /-- Tables under one header between double brackets; the last one is open. -/
  | tables (elements : List (List (String × Node)))
deriving Inhabited

abbrev Entries := List (String × Node)

namespace Node

/-- Puts an entry in the place of the one of the same name, or at the end. -/
def put (key : String) (n : Node) : Entries → Entries
  | [] => [(key, n)]
  | (k, old) :: rest => if k = key then (key, n) :: rest else (k, old) :: put key n rest

def get? (key : String) (entries : Entries) : Option Node :=
  (entries.find? fun e => e.1 == key).map Prod.snd

def changeLast? (f : Entries → Option Entries) : List Entries → Option (List Entries)
  | [] => none
  | [es] => (f es).map fun es => [es]
  | es :: rest => (changeLast? f rest).map fun rest => es :: rest

/-- Changes the table at the end of a path of headers; tables on the way that are not there yet are opened. -/
def descend? (f : Entries → Option Entries) : List String → Entries → Option Entries
  | [], entries => f entries
  | key :: path, entries =>
    match get? key entries with
    | none => (descend? f path []).map fun es => put key (table true false es) entries
    | some (table implicit dotted es) =>
      (descend? f path es).map fun es => put key (table implicit dotted es) entries
    | some (tables elements) =>
      (changeLast? (descend? f path) elements).map fun elements => put key (tables elements) entries
    | some (value _) => none

/-- Adds an entry under a dotted key. A table on the way must have been opened by dotted keys or be without a
header, and the last one must have been opened by a dotted key; `opened` says so of the table at hand. -/
def insert? (v : Node) (last : String) : Bool → List String → Entries → Option Entries
  | opened, [], entries => if opened && (get? last entries).isNone then some (entries ++ [(last, v)]) else none
  | _, key :: path, entries =>
    match get? key entries with
    | none => (insert? v last true path []).map fun es => put key (table true true es) entries
    | some (table implicit dotted es) =>
      if implicit then (insert? v last dotted path es).map fun es => put key (table implicit dotted es) entries
      else none
    | some (tables elements) =>
      (changeLast? (insert? v last false path) elements).map fun elements => put key (tables elements) entries
    | some (value _) => none

def insertKey? (key : List String) (v : Node) (entries : Entries) : Option Entries :=
  match key.getLast? with
  | none => none
  | some last => insert? v last true key.dropLast entries

/-- Opens a table at its header; a table may have been opened on the way to another, but not otherwise. -/
def openTable? (last : String) (entries : Entries) : Option Entries :=
  match get? last entries with
  | none => some (put last (table false false []) entries)
  | some (table true false es) => some (put last (table false false es) entries)
  | _ => none

def openElement? (last : String) (entries : Entries) : Option Entries :=
  match get? last entries with
  | none => some (put last (tables [[]]) entries)
  | some (tables elements) => some (put last (tables (elements ++ [[]])) entries)
  | _ => none

mutual

def toToml : Node → Toml
  | value v => v
  | table _ _ entries => .table (entriesToToml entries)
  | tables elements => .array (elementsToToml elements)

def entriesToToml : List (String × Node) → List (String × Toml)
  | [] => []
  | (key, n) :: rest => (key, toToml n) :: entriesToToml rest

def elementsToToml : List (List (String × Node)) → List Toml
  | [] => []
  | es :: rest => .table (entriesToToml es) :: elementsToToml rest

end

end Node

/-! ### Values -/

def beginsNumber (c : Char) : Bool := c.isDigit || c == '+' || c == '-' || c == 'i' || c == 'n'

mutual

/-- Reads a value (`fuel` bounds length and depth, `depth` counts the arrays and tables around it). -/
def readValue? : Nat → Nat → List Char → Option (Toml × List Char)
  | 0, _, _ => none
  | fuel + 1, depth, cs =>
    match cs with
    | [] => none
    | c :: rest =>
      if c = '"' ∨ c = '\'' then (readString? cs).map fun (s, rest) => (string s, rest)
      else if c = '[' then
        if greatestDepth ≤ depth + 1 then none
        else (readItems? fuel (depth + 1) rest).map fun (items, rest) => (array items, rest)
      else if c = '\x7b' then
        if greatestDepth ≤ depth + 1 then none
        else (readInline? fuel (depth + 1) [] rest).map fun (es, rest) => (table (Node.entriesToToml es), rest)
      else if c = 't' then readWord? "true" (boolean true) cs
      else if c = 'f' then readWord? "false" (boolean false) cs
      else if beginsNumber c then (readMoment? cs).orElse fun _ => readNumber? cs
      else none

/-- Reads the items of an array up to its end; a comma may follow the last one. -/
def readItems? : Nat → Nat → List Char → Option (List Toml × List Char)
  | 0, _, _ => none
  | fuel + 1, depth, cs =>
    match skipLines (cs.length + 1) cs with
    | ']' :: rest => some ([], rest)
    | cs =>
      match readValue? fuel depth cs with
      | none => none
      | some (v, rest) =>
        match skipLines (rest.length + 1) rest with
        | ']' :: rest => some ([v], rest)
        | ',' :: rest => (readItems? fuel depth rest).map fun (vs, rest) => (v :: vs, rest)
        | _ => none

/-- Reads the entries of a table between braces up to its end; a comma may follow the last one. -/
def readInline? : Nat → Nat → Entries → List Char → Option (Entries × List Char)
  | 0, _, _, _ => none
  | fuel + 1, depth, entries, cs =>
    match skipLines (cs.length + 1) cs with
    | '\x7d' :: rest => some (entries, rest)
    | cs =>
      match readKey? (cs.length + 1) cs with
      | some (key, '=' :: rest) =>
        match readValue? fuel depth (skipBlanks rest) with
        | none => none
        | some (v, rest) =>
          match Node.insertKey? key (.value v) entries with
          | none => none
          | some entries =>
            match skipLines (rest.length + 1) rest with
            | '\x7d' :: rest => some (entries, rest)
            | ',' :: rest => readInline? fuel depth entries rest
            | _ => none
      | _ => none

end

/-! ### Documents -/

/-- A document under construction: its root and the path of the header that is in force. -/
structure Draft where
  root : Entries
  header : List String

/-- What follows the end of a line after blanks and a comment; the end of the document is one. -/
def endLine? (cs : List Char) : Option (List Char) :=
  match skipComment (skipBlanks cs) with
  | [] => some []
  | rest => newline? rest

def readHeader? (d : Draft) (isElement : Bool) (cs : List Char) : Option (Draft × List Char) := do
  let (key, rest) ← readKey? (cs.length + 1) cs
  if greatestDepth ≤ key.length then none
  let rest ← readChar? ']' rest
  let rest ← if isElement then readChar? ']' rest else some rest
  let last ← key.getLast?
  let act := if isElement then Node.openElement? last else Node.openTable? last
  let root ← Node.descend? act key.dropLast d.root
  return (⟨root, key⟩, ← endLine? rest)

def readEntry? (d : Draft) (cs : List Char) : Option (Draft × List Char) := do
  let (key, rest) ← readKey? (cs.length + 1) cs
  if greatestDepth ≤ key.length then none
  let rest ← readChar? '=' rest
  let (v, rest) ← readValue? (rest.length + 1) 0 (skipBlanks rest)
  let root ← Node.descend? (Node.insertKey? key (.value v)) d.header d.root
  return (⟨root, d.header⟩, ← endLine? rest)

def readLines? : Nat → Draft → List Char → Option Entries
  | 0, _, _ => none
  | fuel + 1, d, cs =>
    match skipLines (cs.length + 1) cs with
    | [] => some d.root
    | '[' :: '[' :: rest =>
      match readHeader? d true rest with
      | some (d, rest) => readLines? fuel d rest
      | none => none
    | '[' :: rest =>
      match readHeader? d false rest with
      | some (d, rest) => readLines? fuel d rest
      | none => none
    | cs =>
      match readEntry? d cs with
      | some (d, rest) => readLines? fuel d rest
      | none => none

/-- The entries of a document; a mark of the byte order may stand in front. -/
def parse? (text : String) : Option (List (String × Toml)) :=
  let cs := match text.toList with
    | '\ufeff' :: rest => rest
    | cs => cs
  (readLines? (cs.length + 1) ⟨[], []⟩ cs).map Node.entriesToToml

end Toml

end SessionWarden
