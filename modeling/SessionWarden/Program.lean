import SessionWarden.CommandLine
import SessionWarden.Http.Address
import SessionWarden.Log.Filter
import SessionWarden.Server
/-!
# The program

A command line is carried out: a password is hashed, or the settings are read, the log is set up and the
server is started. The result says what was printed, what the log holds and how the program ends.
-/

namespace SessionWarden

/-! ### The log -/

def Note.line (n : Note) : String :=
  let field (f : Note.Field) : String := " " ++ f.name ++ "=" ++ (if f.quoted then quoted f.value else f.value)
  n.level.label ++ " " ++ n.source ++ ": " ++ n.message ++ String.join (n.fields.map field)

/-- A log (`Logger`): the filter in force, whether the environment has set it, and what it let through. -/
structure Recorder where
  filter : LogFilter
  isOverridden : Bool
  kept : List Note

namespace Recorder

/-- The log at the start (`new_bootstrap`): a filter of the environment goes before any other, if it can be read. -/
def ofEnvironment (filter : Option String) : Recorder :=
  match filter.map LogFilter.ofText with
  | some (.ok filter) => ⟨filter, true, []⟩
  | _ => ⟨.bootstrap, false, []⟩

def record (r : Recorder) (n : Note) : Recorder :=
  if r.filter.allows n then { r with kept := r.kept ++ [n] } else r

@[simp] theorem filter_record (r : Recorder) (n : Note) : (r.record n).filter = r.filter := by
  unfold record; split <;> rfl

theorem kept_record (r : Recorder) (n : Note) :
    (r.record n).kept = r.kept ++ [n].filter r.filter.allows := by
  by_cases h : r.filter.allows n = true <;> simp [record, h]

/-- Puts the filter of the settings in force (`reload_from_config`), unless the environment has set one; it must be
well formed either way. -/
def reload (r : Recorder) (text : String) : Except FilterError Recorder := do
  let filter ← LogFilter.ofText text
  if r.isOverridden then return r.record (.filterOverridden text)
  else return { r with filter := filter }.record (.filterReloaded text)

end Recorder

/-! ### Errors -/

inductive LaunchError where
  | config (e : ConfigError)
  | filter (e : FilterError)
  | address
  | transportFile (e : FileError)
  /-- What should be a file of the transport is none; `role` says which. -/
  | notRegular (role path : String)
  | start (e : StartError)
deriving DecidableEq, Repr

def LaunchError.message : LaunchError → String
  | .config e => e.message
  | .filter e => e.message
  | .address => "invalid socket address syntax"
  | .transportFile e => e.message
  | .notRegular role path => "TLS " ++ role ++ " is not a regular file: " ++ quoted path
  | .start e => e.message

/-! ### Runs -/

inductive Ending where
  /-- The program ends with a code, after words about an error if there was one. -/
  | exit (code : Nat) (errors : List String)
  | serve (server : Server) (address : String)

/-- What a run does: what it prints, what it logs, and how it ends. -/
structure Run where
  printed : List String
  log : List Note
  ending : Ending

namespace Run

/-- The end of a run whose command line cannot be carried out. -/
def ofUsageError : UsageError → Run
  | .help => ⟨UsageError.helpLines, [], .exit 0 []⟩
  | .version => ⟨[UsageError.version.message], [], .exit 0 []⟩
  | e =>
    ⟨[], [], .exit 2 [e.message, "", "Usage: " ++ UsageError.programName ++ " [OPTIONS]", "",
      "For more information, try '--help'."]⟩

def checkFile {m : Type → Type} [Monad m] (files : Files m) (role path : String) :
    ExceptT LaunchError m Unit := do
  match ← (files.isFile path : m _) with
  | .ok true => return ()
  | .ok false => throw (.notRegular role path)
  | .error e => throw (.transportFile e)

def launch {m : Type → Type} [Monad m] (files : Files m) (connect : Backend.Connect) (now : Instant)
    (path : Option String) : ExceptT LaunchError (StateT Recorder m) (Settings × Server) := do
  let settings ← match ← (Settings.load files path : m _) with
    | .ok settings => pure settings
    | .error e => throw (.config e)
  modify fun r =>
    r.record (.settingsLoaded settings.http.shown settings.credential.shown settings.token.shown)
  match (← get).reload settings.log.filter with
  | .ok r => set r
  | .error e => throw (.filter e)
  if !SocketAddress.isValid settings.http.address then throw .address
  for (role, path) in [("cert", settings.http.certPath), ("key", settings.http.keyPath)] do
    match ← ((checkFile files role path).run : m _) with
    | .ok () => pure ()
    | .error e => throw e
  let (notes, result) ← (Server.start files now settings connect : m _)
  modify fun r => notes.foldl Recorder.record r
  match result with
  | .ok server => return (settings, server)
  | .error e => throw (.start e)

/-- The run of a start of the server, which is only a trial if it is a check. -/
def ofLaunch (check : Bool) (result : Except LaunchError (Settings × Server)) (r : Recorder) : Run :=
  match result with
  | .error e => ⟨[], r.kept, .exit 1 ["Error: " ++ e.message]⟩
  | .ok (settings, server) =>
    if check then ⟨[], ((r.record .checkPassed).record .shuttingDown).kept, .exit 0 []⟩
    else ⟨[], r.kept, .serve server settings.http.address⟩

def ofWords {m : Type → Type} [Monad m] (files : Files m) (now : Instant) (salt : Bytes)
    (environment : Option String) (words : List String) (connect : Backend.Connect := Backend.noDriver) :
    m Run := do
  match CommandLine.ofWords words with
  | .error e => return ofUsageError e
  | .ok c =>
    match c.hashPassword with
    | some password => return ⟨[(Password.hash salt password).toText], [], .exit 0 []⟩
    | none =>
      let (result, r) ← ((launch files connect now c.settings).run).run (.ofEnvironment environment)
      return ofLaunch c.check result r

end Run

end SessionWarden
