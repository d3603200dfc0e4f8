import SessionWarden.Proofs.Http.Asking
import SessionWarden.Proofs.Http.Routing
/-!
# Answers

An endpoint that has admitted a request refuses it or sets to work. The work ends with a response or with an error,
and errors are told by one rule at all endpoints. So there are few ways in which a request is answered, and each of
them says which endpoint it was and what has become of the table.
-/

namespace SessionWarden

open SessionWarden.Action (runs_bind runs_map)

/-! ### The work of an endpoint -/

def Endpoint.takesToken : Endpoint → Bool
  | .refresh | .revoke | .revokeAll => true
  | .login | .session => false

namespace Service

def loginWork (s : Service) (login : LoginRequest) (signal : Bytes) : Action Response := do
  let p ← (do s.engine.create (← Login.verify login.name login.password) signal login.persistent)
  return s.answerPair p

def refreshWork (s : Service) (id : TokenId) (signal : Bytes) : Action Response := do
  return s.answerPair (← s.engine.refresh id signal)

def closeWork (s : Service) (close : TokenId → Bytes → Action Unit) (id : TokenId) (signal : Bytes) :
    Action Response := do
  close id signal
  return s.answerClosed

def sessionWork (s : Service) (credential : String) (signal : Bytes) : Action Response := do
  return answerPrincipal (← s.inspector.verify credential signal)

def tokenWork (r : Request) (act : TokenId → Bytes → Action Response) : Except Refusal (Action Response) :=
  match r.refreshToken? with
  | none => .ok (throw .tokenIncorrect)
  | some id =>
    match r.signal? with
    | none => .error .invalidHeader
    | some signal => .ok (act id signal)

/-- What an endpoint does for a request that it has admitted: it refuses it, or it sets to work. -/
def work (s : Service) (r : Request) : Endpoint → Except Refusal (Action Response)
  | .login =>
    match LoginRequest.ofRequest r, r.signal? with
    | .error refusal, _ => .error refusal
    | .ok _, none => .error .invalidHeader
    | .ok login, some signal => .ok (s.loginWork login signal)
  | .refresh => tokenWork r s.refreshWork
  | .revoke => tokenWork r (s.closeWork Engine.delete)
  | .revokeAll => tokenWork r (s.closeWork Engine.deleteAll)
  | .session =>
    match r.optional? "authorization", r.signal? with
    | some authorization, some signal =>
      match authorization.bind bearerCredential? with
      | none => .ok (throw .credentialInvalid)
      | some credential => .ok (s.sessionWork credential signal)
    | _, _ => .error .invalidHeader

/-- What an endpoint may do for a request, by the request. -/
inductive Prepares (s : Service) (r : Request) : Endpoint → Except Refusal (Action Response) → Prop
  | unread (refusal : Refusal) (hlogin : LoginRequest.ofRequest r = .error refusal) :
    Prepares s r .login (.error refusal)
  | unheard (e : Endpoint) : Prepares s r e (.error .invalidHeader)
  | login (login : LoginRequest) (signal : Bytes) (hlogin : LoginRequest.ofRequest r = .ok login)
    (hsignal : r.signal? = some signal) : Prepares s r .login (.ok (s.loginWork login signal))
  | tokenless (e : Endpoint) (he : e.takesToken = true) (hid : r.refreshToken? = none) :
    Prepares s r e (.ok (throw .tokenIncorrect))
  | refresh (id : TokenId) (signal : Bytes) (hid : r.refreshToken? = some id) (hsignal : r.signal? = some signal) :
    Prepares s r .refresh (.ok (s.refreshWork id signal))
  | revoke (id : TokenId) (signal : Bytes) (hid : r.refreshToken? = some id) (hsignal : r.signal? = some signal) :
    Prepares s r .revoke (.ok (s.closeWork Engine.delete id signal))
  | revokeAll (id : TokenId) (signal : Bytes) (hid : r.refreshToken? = some id) (hsignal : r.signal? = some signal) :
    Prepares s r .revokeAll (.ok (s.closeWork Engine.deleteAll id signal))
  | unknown : Prepares s r .session (.ok (throw .credentialInvalid))
  | session (credential : String) (signal : Bytes) (hsignal : r.signal? = some signal) :
    Prepares s r .session (.ok (s.sessionWork credential signal))

theorem prepares_tokenWork {s : Service} {r : Request} {e : Endpoint} {act : TokenId → Bytes → Action Response}
    (he : e.takesToken = true) (hact : ∀ id signal, r.refreshToken? = some id → r.signal? = some signal →
      s.Prepares r e (.ok (act id signal))) : s.Prepares r e (tokenWork r act) := by
  rw [tokenWork]
  cases hid : r.refreshToken? with
  | none => exact .tokenless e he hid
  | some id =>
    cases hsignal : r.signal? with
    | none => exact .unheard e
    | some signal => exact hact id signal hid hsignal

theorem prepares_work (s : Service) (r : Request) (e : Endpoint) : s.Prepares r e (s.work r e) := by
  cases e with
  | login =>
    rw [work]
    cases hlogin : LoginRequest.ofRequest r with
    | error refusal => exact .unread refusal hlogin
    | ok login =>
      cases hsignal : r.signal? with
      | none => exact .unheard _
      | some signal => exact .login login signal hlogin hsignal
  | refresh => exact prepares_tokenWork rfl .refresh
  | revoke => exact prepares_tokenWork rfl .revoke
  | revokeAll => exact prepares_tokenWork rfl .revokeAll
  | session =>
    rw [work]
    cases r.optional? "authorization" with
    | none => exact .unheard _
    | some authorization =>
      cases hsignal : r.signal? with
      | none => exact .unheard _
      | some signal =>
        dsimp only
        cases authorization.bind bearerCredential? with
        | none => exact .unknown
        | some credential => exact .session credential signal hsignal

/-! ### The end of the work -/

/-- The cookie with which an endpoint tells an error: a refresh token that is of no more use is cleared. -/
def cookieFor (s : Service) (e : Endpoint) (err : AuthError) : Option String :=
  if e.takesToken && err.discardsRefreshToken then some (clearRefreshCookie s.cookiePath) else none

/-- How the end of the work is told. -/
def settle (s : Service) (e : Endpoint) : Except AuthError Response → Script Response
  | .ok response => .done response
  | .error err => answerError err (s.cookieFor e err)

variable {s : Service} {r : Request} {e : Endpoint} {a : Action Response}

theorem answering_eq_settle {α : Type} {x : Action α} {answer : α → Response} {onError : AuthError → Script Response}
    (h : ∀ err, onError err = s.settle e (.error err)) : answering x answer onError =
      ((x >>= fun y => pure (answer y)).run.bind (s.settle e)).bind fun response => .done (.ok response) := by
  have hrun : (x >>= fun y => pure (answer y)).run = x.run.bind (ExceptT.bindCont fun y => pure (answer y)) := rfl
  show x.run.bind _ = _
  rw [hrun, Script.bind_assoc, Script.bind_assoc]
  refine congrArg (Script.bind x.run) (funext fun result => ?_)
  cases result with
  | ok y => rfl
  | error err =>
    show (onError err).bind _ = (s.settle e (.error err)).bind _
    rw [h]
    rfl

/-- What an endpoint comes to: its refusal, or the end of its work. -/
def carryOut (s : Service) (e : Endpoint) : Except Refusal (Action Response) → Script (Except Refusal Response)
  | .error refusal => .done (.error refusal)
  | .ok a => (a.run.bind (s.settle e)).bind fun response => .done (.ok response)

theorem withToken_eq_carryOut {α : Type} {act : TokenId → Bytes → Action α} {answer : α → Response}
    (he : e.takesToken = true) : s.withToken r act answer =
      s.carryOut e (tokenWork r fun id signal => act id signal >>= fun x => pure (answer x)) := by
  have htold : ∀ err, s.answerTokenError err = s.settle e (.error err) := fun err => by
    rw [answerTokenError, settle, cookieFor, he, Bool.true_and]
  rw [withToken, tokenWork]
  cases r.refreshToken? with
  | none =>
    show (s.answerTokenError .tokenIncorrect).bind _ = (s.settle e (.error .tokenIncorrect)).bind _
    rw [htold]
    rfl
  | some id =>
    cases r.signal? with
    | none => rfl
    | some signal => exact answering_eq_settle htold

theorem handleSession_eq_carryOut (s : Service) (r : Request) :
    s.handleSession r = s.carryOut .session (s.work r .session) := by
  rw [handleSession, work]
  cases r.optional? "authorization" with
  | none => rfl
  | some authorization =>
    cases r.signal? with
    | none => rfl
    | some signal =>
      dsimp only
      cases authorization.bind bearerCredential? with
      | none => rfl
      | some credential => exact answering_eq_settle fun _ => rfl

theorem handle_eq_carryOut (s : Service) (r : Request) (e : Endpoint) : s.handle e r = s.carryOut e (s.work r e) := by
  cases e with
  | login =>
    show s.handleLogin r = _
    rw [handleLogin, work]
    cases LoginRequest.ofRequest r with
    | error refusal => rfl
    | ok login =>
      cases r.signal? with
      | none => rfl
      | some signal => exact answering_eq_settle fun _ => rfl
  | refresh => exact withToken_eq_carryOut rfl
  | revoke => exact withToken_eq_carryOut rfl
  | revokeAll => exact withToken_eq_carryOut rfl
  | session => exact s.handleSession_eq_carryOut r

theorem respond_of_refusal {refusal : Refusal} (hcheck : e.check r = .ok ()) (hwork : s.work r e = .error refusal) :
    s.respond r = .done (.failure refusal.verdict none) := by
  rw [respond_of_check hcheck, handle_eq_carryOut, hwork]
  rfl

theorem respond_of_work (hcheck : e.check r = .ok ()) (hwork : s.work r e = .ok a) :
    s.respond r = a.run.bind (s.settle e) := by
  rw [respond_of_check hcheck, handle_eq_carryOut, hwork, carryOut, Script.bind_assoc]
  exact Script.bind_pure _

/-! ### What comes of the work -/

/-- What the work of an endpoint achieves: its response, with the table that is left. -/
inductive Achieves (s : Service) : Endpoint → Response → Table → Prop
  | opened (p : TokenPair) (after : Table) (h : after.get p.refresh.id = some p.refresh) :
    Achieves s .login (s.answerPair p) after
  | renewed (p : TokenPair) (after : Table) (h : after.get p.refresh.id = some p.refresh) :
    Achieves s .refresh (s.answerPair p) after
  | revoked (after : Table) : Achieves s .revoke s.answerClosed after
  | revokedAll (after : Table) : Achieves s .revokeAll s.answerClosed after
  | principal (p : Principal) (after : Table) : Achieves s .session (answerPrincipal p) after

end Service

section Achieves

variable {s : Service} {r : Request} {e : Endpoint} {a : Action Response} {t after : Table} {events : List Event}
  {response : Response}

theorem Opened.get_eq {user : UserId} {signal : Bytes} {persistent : Bool} {p : TokenPair}
    (h : Opened s.engine user signal persistent t events (.ok p) after) : after.get p.refresh.id = some p.refresh := by
  cases h with
  | opened evict make issue new mid access hroom hmake hissue =>
    exact Table.get_eq_some_iff.mpr ⟨Table.mem_insert.mpr (Or.inl rfl), rfl⟩

theorem Renewed.get_eq {id : TokenId} {signal : Bytes} {p : TokenPair}
    (h : Renewed s.engine id signal t events (.ok p) after) : after.get p.refresh.id = some p.refresh := by
  cases h with
  | renewed look make turn issue old new asked access after hlook hmake hturn hissue =>
    cases hturn with
    | replaced late x hx hlive => exact Table.get_eq_some_iff.mpr ⟨Table.mem_insert.mpr (Or.inl rfl), rfl⟩

theorem runs_answered {α : Type} {x : Action α} {answer : α → Response}
    (h : Action.Runs (x >>= fun y => pure (answer y)) t events (.ok response) after) :
    ∃ y, x.Runs t events (.ok y) after ∧ response = answer y := by
  obtain ⟨result, hx, hresult⟩ := runs_map.mp h
  cases result with
  | error err => cases hresult
  | ok y => exact ⟨y, hx, Except.ok.inj hresult⟩

theorem achieves_of_runs (hwork : s.work r e = .ok a) (hruns : a.Runs t events (.ok response) after) :
    s.Achieves e response after := by
  have hprepares := s.prepares_work r e
  rw [hwork] at hprepares
  cases hprepares with
  | login login signal hlogin hsignal =>
    obtain ⟨p, hopen, rfl⟩ := runs_answered hruns
    rcases runs_bind.mp hopen with ⟨first, rest, user, mid, -, hcreate, -⟩ | ⟨err, -, hr⟩
    · exact .opened p after (runs_open hcreate).get_eq
    · cases hr
  | refresh id signal hid hsignal =>
    obtain ⟨p, hrefresh, rfl⟩ := runs_answered hruns
    exact .renewed p after (runs_refresh hrefresh).get_eq
  | revoke id signal hid hsignal =>
    obtain ⟨-, -, rfl⟩ := runs_answered hruns
    exact .revoked after
  | revokeAll id signal hid hsignal =>
    obtain ⟨-, -, rfl⟩ := runs_answered hruns
    exact .revokedAll after
  | session credential signal hsignal =>
    obtain ⟨p, -, rfl⟩ := runs_answered hruns
    exact .principal p after
  | tokenless e he hid =>
    obtain ⟨-, hr, -⟩ := hruns
    cases hr
  | unknown =>
    obtain ⟨-, hr, -⟩ := hruns
    cases hr

end Achieves

/-! ### All answers -/

/-- How a request may be answered, with the table that is left. -/
inductive Service.Answered (s : Service) (r : Request) (t : Table) : Response → Table → Prop
  | unserved (h : ∀ e : Endpoint, e.check r ≠ .ok ()) : Answered s r t (.failure .methodNotAllowed none) t
  | refused (e : Endpoint) (refusal : Refusal) (hcheck : e.check r = .ok ())
    (hwork : s.work r e = .error refusal) : Answered s r t (.failure refusal.verdict none) t
  | failed (e : Endpoint) (a : Action Response) (events : List Event) (err : AuthError) (after : Table)
    (hcheck : e.check r = .ok ()) (hwork : s.work r e = .ok a) (hruns : a.Runs t events (.error err) after) :
    Answered s r t (.failure (.ofError err) (s.cookieFor e err)) after
  | achieved (e : Endpoint) (response : Response) (after : Table) (hcheck : e.check r = .ok ())
    (h : s.Achieves e response after) : Answered s r t response after

section Answered

variable {s : Service} {r : Request} {e : Endpoint} {t after : Table} {events : List Event} {response : Response}

theorem ends_settle (s : Service) (e : Endpoint) (err : AuthError) :
    (s.settle e (.error err)).Ends Query.Outside (· = .failure (.ofError err) (s.cookieFor e err)) :=
  ends_answerError err _

theorem runs_settle_error {err : AuthError} (h : (s.settle e (.error err)).Runs t events response after) :
    response = .failure (.ofError err) (s.cookieFor e err) ∧ after = t :=
  (ends_settle s e err).of_runs_outside h

theorem answered_of_runs (h : (s.respond r).Runs t events response after) : s.Answered r t response after := by
  by_cases hserved : ∃ e : Endpoint, e.check r = .ok ()
  · obtain ⟨e, hcheck⟩ := hserved
    cases hwork : s.work r e with
    | error refusal =>
      rw [Service.respond_of_refusal hcheck hwork] at h
      obtain ⟨-, rfl, rfl⟩ := h
      exact .refused e refusal hcheck hwork
    | ok a =>
      rw [Service.respond_of_work hcheck hwork] at h
      obtain ⟨first, rest, result, mid, hruns, hsettle, rfl⟩ := Script.runs_bind.mp h
      cases result with
      | ok done =>
        obtain ⟨-, rfl, rfl⟩ := hsettle
        exact .achieved e _ _ hcheck (achieves_of_runs hwork hruns)
      | error err =>
        obtain ⟨rfl, rfl⟩ := runs_settle_error hsettle
        exact .failed e a first err _ hcheck hwork hruns
  · have hnone := not_exists.mp hserved
    rw [Service.respond_of_unserved hnone] at h
    obtain ⟨-, rfl, rfl⟩ := h
    exact .unserved hnone

theorem Script.exists_any_run {α : Type} (x : Script α) (t : Table) : ∃ events a after, x.Runs t events a after := by
  obtain ⟨events, a, after, hruns, -⟩ := x.exists_fitting_run FaultFree.sample t
  exact ⟨events, a, after, hruns⟩

end Answered

end SessionWarden
