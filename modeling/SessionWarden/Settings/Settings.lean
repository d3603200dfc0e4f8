import SessionWarden.Files
import SessionWarden.Settings.Config
/-!
# Settings

What the service is told at its start: five sections of a configuration file. The values that are there are
read first, in order; after that the first one that is missing counts.
-/

namespace SessionWarden

/-! ### Sections -/

/-- Where the service listens, the files of its transport keys, and the path of its cookie. -/
structure HttpSettings where
  address : String
  certPath : String
  keyPath : String
  cookiePath : String
deriving DecidableEq, Repr

structure LogSettings where
  filter : String
deriving DecidableEq, Repr

structure StoreSettings where
  backend : String
  source : String
deriving DecidableEq, Repr

structure CredentialSettings where
  issuer : String
  algorithm : String
  privateKeyPath : String
  publicKeyPath : String
deriving DecidableEq, Repr

/-- How long tokens last, and how many sessions a user may have. -/
structure TokenSettings where
  accessAgeMinutes : Int
  refreshAgeDays : Int
  refreshCap : Nat
deriving DecidableEq, Repr

structure Settings where
  http : HttpSettings
  log : LogSettings
  store : StoreSettings
  credential : CredentialSettings
  token : TokenSettings
deriving DecidableEq, Repr

/-! ### Reading -/

/-- The path of the cookie unless another is set (`default_cookie_path`). -/
def HttpSettings.defaultCookiePath : String := "/api/v1/token"

def HttpSettings.read (p : Place) (v : Toml) : Except ConfigError HttpSettings := do
  let s ← Section.ofValue "Http" ["address", "cert_path", "key_path", "cookie_path"] p v
  let address ← s.read? "address" Place.text
  let cert ← s.read? "cert_path" Place.text
  let key ← s.read? "key_path" Place.text
  let cookie ← s.read? "cookie_path" Place.text
  return ⟨← s.require "address" address, ← s.require "cert_path" cert, ← s.require "key_path" key,
    cookie.getD defaultCookiePath⟩

def LogSettings.read (p : Place) (v : Toml) : Except ConfigError LogSettings := do
  let s ← Section.ofValue "Log" ["filter"] p v
  return ⟨← s.require "filter" (← s.read? "filter" Place.text)⟩

def StoreSettings.read (p : Place) (v : Toml) : Except ConfigError StoreSettings := do
  let s ← Section.ofValue "Store" ["backend", "dsn"] p v
  let backend ← s.read? "backend" Place.text
  let source ← s.read? "dsn" Place.text
  return ⟨← s.require "backend" backend, source.getD ""⟩

def CredentialSettings.read (p : Place) (v : Toml) : Except ConfigError CredentialSettings := do
  let s ← Section.ofValue "Jwt" ["issuer", "algorithm", "private_key_path", "public_key_path"] p v
  let issuer ← s.read? "issuer" Place.text
  let algorithm ← s.read? "algorithm" Place.text
  let privateKey ← s.read? "private_key_path" Place.text
  let publicKey ← s.read? "public_key_path" Place.text
  return ⟨← s.require "issuer" issuer, ← s.require "algorithm" algorithm,
    ← s.require "private_key_path" privateKey, ← s.require "public_key_path" publicKey⟩

def TokenSettings.read (p : Place) (v : Toml) : Except ConfigError TokenSettings := do
  let s ← Section.ofValue "Token" ["access_age_minutes", "refresh_age_days", "refresh_cap"] p v
  let access ← s.read? "access_age_minutes" Place.integer
  let refresh ← s.read? "refresh_age_days" Place.integer
  let cap ← s.read? "refresh_cap" Place.natural
  return ⟨← s.require "access_age_minutes" access, ← s.require "refresh_age_days" refresh,
    ← s.require "refresh_cap" cap⟩

namespace Settings

def read (p : Place) (v : Toml) : Except ConfigError Settings := do
  let s ← Section.ofValue "Settings" ["http", "log", "store", "jwt", "token"] p v
  let http ← s.read? "http" HttpSettings.read
  let log ← s.read? "log" LogSettings.read
  let store ← s.read? "store" StoreSettings.read
  let credential ← s.read? "jwt" CredentialSettings.read
  let token ← s.read? "token" TokenSettings.read
  return ⟨← s.require "http" http, ← s.require "log" log, ← s.require "store" store,
    ← s.require "jwt" credential, ← s.require "token" token⟩

/-- The settings of a document, which may come from a file (`parse_settings_str`). -/
def ofText (file : Option String) (text : String) : Except ConfigError Settings :=
  match Toml.parse? text with
  | none => .error .syntaxInvalid
  | some document => read ⟨"", file⟩ (.table (Toml.nested document))

/-! ### Files -/

def defaultPath : String := "settings/dev.toml"

def fileExtension : String := "toml"

/-- The components of a path that count: empty ones and single dots do not. -/
def componentsOf (path : String) : List String :=
  ((path.toList.splitOn '/').map String.ofList).filter fun c => c != "" && c != "."

def absolute (workingDirectory path : String) : String :=
  if path.toList.head? = some '/' then path else workingDirectory ++ "/" ++ path

/-- The extension of a file name: what follows its last dot, unless that is its first character. -/
def extension? (path : String) : Option String :=
  match (componentsOf path).getLast? with
  | none => none
  | some name =>
    match ((name.toList.splitOn '.').map String.ofList).reverse with
    | last :: before :: rest => if before = "" ∧ rest = [] ∨ name = ".." then none else some last
    | _ => none

/-- A path with the extension of settings after it; a path that names no file has none. -/
def extended? (path : String) : Option String :=
  match (componentsOf path).getLast? with
  | none => none
  | some name =>
    if name = ".." then none
    else
      let root := if path.toList.head? = some '/' then "/" else ""
      some (root ++ "/".intercalate (componentsOf path) ++ "." ++ fileExtension)

def relativeTo (directory path : String) : String :=
  let base := componentsOf directory
  let target := componentsOf path
  let shared := ((base.zip target).takeWhile fun (a, b) => a == b).length
  "/".intercalate (List.replicate (base.length - shared) ".." ++ target.drop shared)

/-- Finds the file of a name: the file itself, or else the one with the extension of settings after it. -/
def locate {m : Type → Type} [Monad m] (files : Files m) (name : String) : m (Except ConfigError String) := do
  let path := absolute (← files.workingDirectory) name
  match ← files.isFile path with
  | .ok true =>
    return if extension? path = some fileExtension then .ok path else .error (.formatUnknown path)
  | _ =>
    match extended? path with
    | none => return .error (.fileNotFound name)
    | some path =>
      match ← files.isFile path with
      | .ok true => return .ok path
      | _ => return .error (.fileNotFound name)

/-- Reads the settings of the file of a name (`parse_settings`). -/
def load {m : Type → Type} [Monad m] (files : Files m) (name : Option String) :
    m (Except ConfigError Settings) := do
  match ← locate files (name.getD defaultPath) with
  | .error e => return .error e
  | .ok path =>
    match ← files.read path with
    | .error e => return .error (.fileUnreadable e.message)
    | .ok content =>
      let file := relativeTo (← files.workingDirectory) path
      match Bytes.toString? content with
      | some text => return ofText (some file) text
      | none => return .error .syntaxInvalid

end Settings

/-! ### Display -/

def shownRecord (title : String) (fields : List (String × String)) : String :=
  title ++ " \x7b " ++ ", ".intercalate (fields.map fun f => f.1 ++ ": " ++ f.2) ++ " \x7d"

def HttpSettings.shown (s : HttpSettings) : String :=
  shownRecord "Http" [("address", quoted s.address), ("cert_path", quoted s.certPath),
    ("key_path", quoted s.keyPath), ("cookie_path", quoted s.cookiePath)]

def CredentialSettings.shown (s : CredentialSettings) : String :=
  shownRecord "Jwt" [("issuer", quoted s.issuer), ("algorithm", quoted s.algorithm),
    ("private_key_path", quoted s.privateKeyPath), ("public_key_path", quoted s.publicKeyPath)]

def TokenSettings.shown (s : TokenSettings) : String :=
  shownRecord "Token" [("access_age_minutes", toString s.accessAgeMinutes),
    ("refresh_age_days", toString s.refreshAgeDays), ("refresh_cap", toString s.refreshCap)]

end SessionWarden
