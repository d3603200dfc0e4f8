/-!
# Command line

Two options take a value, one does not, and two show something about the program. An option that takes a value
waits for the next word; the wait ends at the next option or at the end of the line.
-/

namespace SessionWarden

/-- What the command line says (`Cli`). -/
structure CommandLine where
  settings : Option String
  hashPassword : Option String
  check : Bool
deriving DecidableEq, Repr

/-! ### Options -/

inductive Flag where
  | settings
  | hashPassword
  | check
  | help
  | version
deriving DecidableEq, Repr

namespace Flag

def all : List Flag := [.settings, .hashPassword, .check, .help, .version]

def name : Flag → String
  | .settings => "settings"
  | .hashPassword => "hash-password"
  | .check => "check"
  | .help => "help"
  | .version => "version"

def letter? : Flag → Option Char
  | .help => some 'h'
  | .version => some 'V'
  | _ => none

/-- What the value of an option is called, if it takes one. -/
def valueName? : Flag → Option String
  | .settings => some "PATH"
  | .hashPassword => some "PASSWORD"
  | _ => none

def shown (f : Flag) : String :=
  "--" ++ f.name ++ match f.valueName? with
    | some value => " <" ++ value ++ ">"
    | none => ""

def summary : Flag → String
  | .settings => "Path to a TOML settings file"
  | .hashPassword => "Print the Argon2 hash of the given password and exit"
  | .check => "Load settings, keys and the store, then exit without serving"
  | .help => "Print help"
  | .version => "Print version"

def named? (name : String) : Option Flag := all.find? fun f => f.name == name

def lettered? (c : Char) : Option Flag := all.find? fun f => f.letter? == some c

end Flag

/-! ### Refusals -/

/-- Why a command line is not carried out. -/
inductive UsageError where
  /-- No option is called so, and no words stand alone. -/
  | unexpected (word : String)
  /-- An option without a value was given one. -/
  | unneededValue (flag : Flag) (value : String)
  | missingValue (flag : Flag)
  | repeated (flag : Flag)
  /-- Two options exclude each other; the first of them is told first. -/
  | conflict (first second : Flag)
  /-- The help text was asked for. -/
  | help
  /-- The version was asked for. -/
  | version
deriving DecidableEq, Repr

namespace UsageError

def programName : String := "authgate"

def programVersion : String := "0.1.0"

def about : String := "Token issuing and session service"

def message : UsageError → String
  | .unexpected word => "error: unexpected argument '" ++ word ++ "' found"
  | .unneededValue flag value =>
    "error: unexpected value '" ++ value ++ "' for '" ++ flag.shown ++ "' found; no more were expected"
  | .missingValue flag => "error: a value is required for '" ++ flag.shown ++ "' but none was supplied"
  | .repeated flag => "error: the argument '" ++ flag.shown ++ "' cannot be used multiple times"
  | .conflict first second =>
    "error: the argument '" ++ first.shown ++ "' cannot be used with '" ++ second.shown ++ "'"
  | .help => about
  | .version => programName ++ " " ++ programVersion

def helpLine (f : Flag) : String :=
  let letter := match f.letter? with
    | some c => "-" ++ c.toString ++ ", "
    | none => "    "
  let padding := String.ofList (List.replicate (28 - f.shown.length) ' ')
  "  " ++ letter ++ f.shown ++ padding ++ f.summary

def helpLines : List String :=
  [about, "", "Usage: " ++ programName ++ " [OPTIONS]", "", "Options:"] ++ Flag.all.map helpLine

end UsageError

/-! ### Reading -/

namespace CommandLine

/-- A command line that is being read: what was taken in, in order, and the option that waits for its value,
with the value if it has come. -/
structure Draft where
  taken : List (Flag × String)
  waiting : Option (Flag × Option String)

namespace Draft

def take (d : Draft) (flag : Flag) (value : String) : Except UsageError Draft :=
  match flag with
  | .help => .error .help
  | .version => .error .version
  | _ =>
    if d.taken.any fun t => t.1 == flag then .error (.repeated flag)
    else .ok { d with taken := d.taken ++ [(flag, value)] }

def settle (d : Draft) : Except UsageError Draft :=
  match d.waiting with
  | none => .ok d
  | some (flag, none) => .error (.missingValue flag)
  | some (flag, some value) => take { d with waiting := none } flag value

theorem settle_of_waiting_eq_none {d : Draft} (h : d.waiting = none) : d.settle = .ok d := by
  simp [settle, h]

/-- Reads an option by name, perhaps with a value after an equals sign. -/
def long (d : Draft) (body : List Char) : Except UsageError Draft := do
  let name := String.ofList (body.takeWhile (· != '='))
  let value : Option String := match body.dropWhile (· != '=') with
    | _ :: rest => some (String.ofList rest)
    | [] => none
  match Flag.named? name with
  | none => throw (.unexpected ("--" ++ name))
  | some flag =>
    match flag.valueName?.isSome, value with
    | true, some value => (← d.settle).take flag value
    | true, none => return { (← d.settle) with waiting := some (flag, none) }
    | false, some value => throw (.unneededValue flag value)
    | false, none => (← d.settle).take flag ""

def short (d : Draft) : List Char → Except UsageError Draft
  | [] => .ok d
  | c :: rest =>
    match Flag.lettered? c with
    | none => .error (.unexpected ("-" ++ c.toString))
    | some flag => do short (← (← d.settle).take flag "") rest

/-- Reads a word that is no option: it is the value that is waited for, or else nobody expects it. -/
def word (d : Draft) (text : String) : Except UsageError Draft :=
  match d.waiting with
  | some (flag, none) => .ok { d with waiting := some (flag, some text) }
  | _ => .error (.unexpected text)

/-- Reads words up to the end; after two dashes alone nothing is expected. -/
def read (d : Draft) : List String → Except UsageError Draft
  | [] => d.settle
  | text :: rest =>
    match text.toList with
    | ['-', '-'] =>
      match rest with
      | [] => d.settle
      | next :: _ => .error (.unexpected next)
    | '-' :: '-' :: body => do (← d.long body).read rest
    | '-' :: c :: letters => do (← d.short (c :: letters)).read rest
    | _ => do (← d.word text).read rest

def value? (d : Draft) (flag : Flag) : Option String :=
  (d.taken.find? fun t => t.1 == flag).map Prod.snd

def finish (d : Draft) : Except UsageError CommandLine :=
  let excluded := d.taken.filter fun t => t.1 == .hashPassword || t.1 == .check
  match excluded with
  | (first, _) :: (second, _) :: _ => .error (.conflict first second)
  | _ => .ok ⟨d.value? .settings, d.value? .hashPassword, (d.value? .check).isSome⟩

end Draft

/-- Reads the words of a command line after the name of the program. -/
def ofWords (words : List String) : Except UsageError CommandLine := do
  (← Draft.read ⟨[], none⟩ words).finish

theorem ofWords_nil : ofWords [] = .ok ⟨none, none, false⟩ := rfl

end CommandLine

end SessionWarden
