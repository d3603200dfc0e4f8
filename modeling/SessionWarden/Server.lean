import SessionWarden.Account.Password
import SessionWarden.Http.Service
import SessionWarden.Session.Params
import SessionWarden.Session.World
import SessionWarden.Settings.Settings
/-!
# Server

The settings become a service: ages and capacity are checked, keys are read and tried, and a store is chosen.
Whatever is unusable is refused here and not when a request comes in.
-/

namespace SessionWarden

inductive StartError where
  | params (e : ParamsError)
  | credential (e : CredentialError)
  | backendUnknown (name : String)
  | storeUnreachable (reason : String)
deriving DecidableEq, Repr

def StartError.message : StartError → String
  | .params e => e.message
  | .credential e => e.message
  | .backendUnknown name => "Unknown store backend: " ++ name
  | .storeUnreachable reason => reason

/-! ### Stores -/

inductive Backend where
  | memory
  | database
deriving DecidableEq, Repr

namespace Backend

def ofName (name : String) : Except StartError Backend :=
  if name = "fake" then .ok .memory
  else if name = "real" then .ok .database
  else .error (.backendUnknown name)

/-- What comes of connecting to the database of a source: it is reached, or why it is not. -/
abbrev Connect := String → Except String Unit

def noDriver : Connect := fun _ => .error "no driver for a database"

end Backend

/-! ### Keys -/

/-- Tries a key of a file (`read_key`): the file is looked at first. -/
def withKeyFile {α : Type} (content : Except FileError Bytes) (use : Bytes → Except CredentialError α) :
    Except CredentialError α :=
  match content with
  | .ok key => use key
  | .error e => .error (.keyRead e.message)

/-! ### Start -/

/-- A server that has started (`Server`). -/
structure Server where
  service : Service
  backend : Backend

namespace Server

def demoName : String := "demo"

def demoUser : UserId := ⟨Uuid.ofName Uuid.objectSpace (Bytes.ofString demoName)⟩

/-- Puts the account for demonstrations into a world (`fake_stores`). -/
def seedDemo (salt : Bytes) (w : World) : World :=
  { w with directory := w.directory.add ⟨demoUser, demoName, (Password.hash salt demoName).toText⟩ }.assign
    demoUser (Role.titled "user" "Regular account")

/-- Checks the parameters, then tries the signing key, then the verifying key. -/
def prepare (now : Instant) (s : Settings) (privateKey publicKey : Except FileError Bytes) :
    Except StartError Service := do
  let params ← (TokenParams.tryNew now s.token.accessAgeMinutes s.token.refreshAgeDays
    s.token.refreshCap).mapError .params
  let issuer ← (withKeyFile privateKey fun key =>
    Issuer.tryNew s.credential.issuer s.credential.algorithm key now).mapError .credential
  let inspector ← (withKeyFile publicKey fun key =>
    Inspector.tryNew s.credential.issuer s.credential.algorithm key).mapError .credential
  return ⟨⟨issuer, params⟩, inspector, s.http.cookiePath⟩

/-- Chooses the store of a service, and says what is noted of that. A database is connected to. -/
def choose (connect : Backend.Connect) (s : Settings) (service : Service) : List Note × Except StartError Server :=
  match Backend.ofName s.store.backend with
  | .error e => ([], .error e)
  | .ok .database =>
    match connect s.store.source with
    | .error reason => ([], .error (.storeUnreachable reason))
    | .ok () => ([.serverStarted s.store.backend], .ok ⟨service, .database⟩)
  | .ok .memory =>
    ([.demoSeeded demoName, .serverStarted s.store.backend], .ok ⟨service, .memory⟩)

/-- Starts a server on the contents of its key files, and says what is noted on the way. -/
def ofKeys (connect : Backend.Connect) (now : Instant) (s : Settings) (privateKey publicKey : Except FileError Bytes) :
    List Note × Except StartError Server :=
  match prepare now s privateKey publicKey with
  | .error e => ([], .error e)
  | .ok service =>
    let (notes, result) := choose connect s service
    (.keysLoaded service.engine.issuer.algorithm.name s.credential.issuer :: notes, result)

variable {connect : Backend.Connect} {now : Instant} {s : Settings} {service : Service} {server : Server}
  {privateKey publicKey : Except FileError Bytes}

theorem choose_eq_ok_iff : (choose connect s service).2 = .ok server ↔
    ∃ backend, Backend.ofName s.store.backend = .ok backend ∧
      (backend = .database → connect s.store.source = .ok ()) ∧ server = ⟨service, backend⟩ := by
  rw [choose]
  cases Backend.ofName s.store.backend with
  | error e => simp
  | ok backend =>
    cases backend with
    | memory => simp [eq_comm]
    | database => cases connect s.store.source <;> simp [eq_comm]

theorem ofKeys_eq_ok_iff : (ofKeys connect now s privateKey publicKey).2 = .ok server ↔
    ∃ service backend, prepare now s privateKey publicKey = .ok service ∧
      Backend.ofName s.store.backend = .ok backend ∧
      (backend = .database → connect s.store.source = .ok ()) ∧ server = ⟨service, backend⟩ := by
  rw [ofKeys]
  cases prepare now s privateKey publicKey with
  | error e => simp
  | ok service => simp [choose_eq_ok_iff]

/-- Starts a server (`Server::try_new`). -/
def start {m : Type → Type} [Monad m] (files : Files m) (now : Instant) (s : Settings)
    (connect : Backend.Connect := Backend.noDriver) : m (List Note × Except StartError Server) := do
  let privateKey ← files.read s.credential.privateKeyPath
  let publicKey ← files.read s.credential.publicKeyPath
  return ofKeys connect now s privateKey publicKey

end Server

end SessionWarden
