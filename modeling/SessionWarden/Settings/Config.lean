import SessionWarden.Failure
import SessionWarden.Settings.Toml
/-!
# Configurations

A document is read into a configuration, and typed values are read out of it. A key of the document with dots
in it stands for nested tables. Values are converted where that loses little: a text may stand for a number
and a number for a text.
-/

namespace SessionWarden

/-! ### Errors -/

/-- A place in a configuration: a key, and the file it comes from if it comes from one. -/
structure Place where
  key : String
  file : Option String
deriving DecidableEq, Repr

namespace Place

def suffix (p : Place) : String :=
  " for key \x60" ++ p.key ++ "\x60" ++ match p.file with
    | some file => " in " ++ file
    | none => ""

def entry (p : Place) (name : String) : Place :=
  { p with key := if p.key = "" then name else p.key ++ "." ++ name }

def item (p : Place) (index : Nat) : Place := { p with key := p.key ++ "[" ++ toString index ++ "]" }

end Place

inductive ConfigError where
  | fileNotFound (name : String)
  /-- The name of the file does not tell its format. -/
  | formatUnknown (path : String)
  | fileUnreadable (reason : String)
  | syntaxInvalid
  | missing (key : String)
  /-- A value is of a kind that cannot be converted. -/
  | kind (found wanted : String) (place : Place)
  /-- What should be a section is a single value. -/
  | notSection (found title : String) (place : Place)
  /-- A section that is written as an array has too few items. -/
  | tooShort (length : Nat) (title : String) (fields : Nat) (place : Place)
deriving DecidableEq, Repr

def ConfigError.message : ConfigError → String
  | .fileNotFound name => "configuration file \"" ++ name ++ "\" not found"
  | .formatUnknown path => "configuration file \"" ++ path ++ "\" is not of a supported file format"
  | .fileUnreadable reason => reason
  | .syntaxInvalid => "TOML parse error"
  | .missing key => "missing configuration field \"" ++ key ++ "\""
  | .kind found wanted place => "invalid type: " ++ found ++ ", expected " ++ wanted ++ place.suffix
  | .notSection found title place =>
    "invalid type: " ++ found ++ ", expected struct " ++ title ++ place.suffix
  | .tooShort length title fields place =>
    "invalid length " ++ toString length ++ ", expected struct " ++ title ++ " with " ++ toString fields ++
      (if fields = 1 then " element" else " elements") ++ place.suffix

/-! ### Keys with dots -/

namespace Toml

/-- The names that a key stands for: the parts between dots if all of them are plain, else the key itself. -/
def namesOf (key : String) : List String :=
  let parts := key.toList.splitOn '.'
  if parts.all fun part => !part.isEmpty && part.all isKeyChar then parts.map String.ofList else [key]

/-- Puts a value in the place of the one of the same name, or at the end. -/
def put (name : String) (v : Toml) : List (String × Toml) → List (String × Toml)
  | [] => [(name, v)]
  | (n, old) :: rest => if n = name then (name, v) :: rest else (n, old) :: put name v rest

def get? (name : String) (entries : List (String × Toml)) : Option Toml :=
  (entries.find? fun e => e.1 == name).map Prod.snd

@[simp] theorem get?_nil (name : String) : get? name [] = none := rfl

theorem get?_cons (name : String) (e : String × Toml) (rest : List (String × Toml)) :
    get? name (e :: rest) = if e.1 = name then some e.2 else get? name rest := by
  by_cases h : e.1 = name <;> simp [get?, h]

theorem get?_put (name other : String) (v : Toml) (entries : List (String × Toml)) :
    get? other (put name v entries) = if name = other then some v else get? other entries := by
  induction entries with
  | nil => simp [put, get?_cons]
  | cons e rest ih =>
    obtain ⟨key, old⟩ := e
    by_cases h : key = name
    · by_cases hn : name = other <;> simp [put, get?_cons, h, hn]
    · by_cases hk : key = other
      · have hn : name ≠ other := fun hn => h (hk.trans hn.symm)
        simp [put, get?_cons, hk, hn, Ne.symm hn]
      · simp [put, get?_cons, h, hk, ih]

def entries : Toml → List (String × Toml)
  | table entries => entries
  | _ => []

mutual

/-- Lays a value over another: tables are joined, anything else is replaced. -/
def laidOver (below : Option Toml) : Toml → Toml
  | table added => table (joined ((below.map entries).getD []) added)
  | v => v

def joined (below : List (String × Toml)) : List (String × Toml) → List (String × Toml)
  | [] => below
  | (name, v) :: rest => joined (put name (laidOver (get? name below) v) below) rest

end

/-- Lays a value over the one at a path of names; what is no table on the way is replaced by one. -/
def set (v : Toml) : List String → List (String × Toml) → List (String × Toml)
  | [], below => below
  | [name], below => put name (laidOver (get? name below) v) below
  | name :: path, below => put name (table (set v path ((get? name below).map entries |>.getD []))) below

def nested (document : List (String × Toml)) : List (String × Toml) :=
  document.foldl (fun below e => set e.2 (namesOf e.1) below) []

/-- How a message names a value; a whole number of double precision keeps a point. -/
def described : Toml → String
  | string s => "string " ++ quoted s
  | moment text => "string " ++ quoted text
  | integer n => "integer \x60" ++ toString n ++ "\x60"
  | boolean b => "boolean \x60" ++ toString b ++ "\x60"
  | float x =>
    let digits := x.toText
    let isFinite := match x with
      | .finite .. => true
      | _ => false
    "floating point \x60" ++ digits ++ (if isFinite && !digits.toList.contains '.' then ".0" else "") ++ "\x60"
  | array _ => "sequence"
  | table _ => "map"

end Toml

/-! ### Values -/

def trueWords : List String := ["true", "on", "yes"]

def falseWords : List String := ["false", "off", "no"]

/-- Reads an integer within bounds from a text; a word may stand for it. -/
def integerOfText? (least most : Int) (s : String) : Option Int := do
  let word := String.ofList (s.toList.map Char.toLower)
  if trueWords.contains word then return 1
  if falseWords.contains word then return 0
  let (negative, digits) ← match s.toList with
    | '-' :: rest => if least < 0 then some (true, rest) else none
    | '+' :: rest => some (false, rest)
    | rest => some (false, rest)
  if digits = [] ∨ !digits.all Char.isDigit then none
  let n : Int := digits.foldl (fun acc c => acc * 10 + (c.toNat - 48)) 0
  let n := if negative then -n else n
  if least ≤ n ∧ n ≤ most then return n else none

namespace Place

def text (p : Place) : Toml → Except ConfigError String
  | .string s => .ok s
  | .moment s => .ok s
  | .integer n => .ok (toString n)
  | .boolean b => .ok (toString b)
  | .float x => .ok x.toText
  | v => .error (.kind v.described "a string" p)

/-- Reads an integer within bounds, to which numbers of double precision are cut; `below` says what becomes of
a whole number that is too small. -/
def integerWithin (p : Place) (least most : Int) (below : Int → Except ConfigError Int) (v : Toml) :
    Except ConfigError Int :=
  let unsuitable : Except ConfigError Int := .error (.kind v.described "an integer" p)
  let ofText (s : String) : Except ConfigError Int :=
    match integerOfText? least most s with
    | some n => .ok n
    | none => unsuitable
  match v with
  | .integer n => if n < least then below n else .ok n
  | .boolean b => .ok (if b then 1 else 0)
  | .float x => .ok (x.toIntWithin least most)
  | .string s => ofText s
  | .moment s => ofText s
  | _ => unsuitable

def integer (p : Place) (v : Toml) : Except ConfigError Int :=
  p.integerWithin (-9223372036854775808) 9223372036854775807 (fun n => .ok n) v

def natural (p : Place) (v : Toml) : Except ConfigError Nat :=
  let below (n : Int) : Except ConfigError Int :=
    .error (.kind ("64-bit integer \x60" ++ toString n ++ "\x60") "an unsigned 64 bit or less integer" p)
  (p.integerWithin 0 18446744073709551615 below v).map Int.toNat

end Place

/-! ### Sections -/

/-- A section: its place, its title, the names of its fields, and its value, which is a table or an array of
its fields in order. -/
structure Section where
  place : Place
  title : String
  names : List String
  value : Toml

namespace Section

def ofValue (title : String) (names : List String) (p : Place) (v : Toml) : Except ConfigError Section :=
  match v with
  | .table _ => .ok ⟨p, title, names, v⟩
  | .array _ => .ok ⟨p, title, names, v⟩
  | _ => .error (.notSection v.described title p)

def indexOf (s : Section) (name : String) : Nat := s.names.idxOf name

def find? (s : Section) (name : String) : Option (Place × Toml) :=
  match s.value with
  | .table entries => (Toml.get? name entries).map fun v => (s.place.entry name, v)
  | .array items => items[s.indexOf name]?.map fun v => (s.place.item (s.indexOf name), v)
  | _ => none

def read? {α : Type} (s : Section) (name : String) (read : Place → Toml → Except ConfigError α) :
    Except ConfigError (Option α) :=
  match s.find? name with
  | some (p, v) => (read p v).map some
  | none => .ok none

def absence (s : Section) (name : String) : ConfigError :=
  match s.value with
  | .array _ => .tooShort (s.indexOf name) s.title s.names.length s.place
  | _ => .missing (s.place.entry name).key

def require {α : Type} (s : Section) (name : String) (value : Option α) : Except ConfigError α :=
  match value with
  | some a => .ok a
  | none => .error (s.absence name)

theorem read?_of_find?_eq_none {α : Type} {s : Section} {name : String} (h : s.find? name = none)
    (read : Place → Toml → Except ConfigError α) : s.read? name read = .ok none := by
  simp [read?, h]

end Section

end SessionWarden
