import SessionWarden.Proofs.Credential.Parsing
import SessionWarden.Proofs.Http.Handling
import SessionWarden.Proofs.Session.Ledger
import SessionWarden.Proofs.Session.Stages
/-!
# What a request asks for

Reading a request and telling an outcome leave the table alone, so that everything that a request does to the table is
done by the one call that it asks for: an opening for the user whose password it gives, or a renewal or a closing for
the refresh token that it carries.
-/

namespace SessionWarden

/-! ### Scripts that ask little -/

namespace Script

variable {α β : Type} {Q : Query → Prop} {P : α → Prop}

/-- Whether a script asks only questions of one kind and ends only with results of one kind. -/
def Ends (Q : Query → Prop) (P : α → Prop) : Script α → Prop
  | .done a => P a
  | .ask q next => Q q ∧ ∀ reply, (next reply).Ends Q P

theorem Ends.bind {R : β → Prop} {s : Script α} {f : α → Script β} (h : s.Ends Q P) (hf : ∀ a, P a → (f a).Ends Q R) :
    (s.bind f).Ends Q R := by
  induction s with
  | done a => exact hf a h
  | ask q next ih => exact ⟨h.1, fun reply => ih reply (h.2 reply)⟩

theorem Ends.mono {R : α → Prop} {s : Script α} (h : s.Ends Q P) (hPR : ∀ a, P a → R a) : s.Ends Q R := by
  induction s with
  | done a => exact hPR a h
  | ask q next ih => exact ⟨h.1, fun reply => ih reply (h.2 reply)⟩

theorem Ends.still {s : Script α} (h : s.Ends Q P) (hQ : ∀ q, Q q → q.Still) : s.Still := by
  induction s with
  | done a => trivial
  | ask q next ih => exact ⟨hQ q h.1, fun reply => ih reply (h.2 reply)⟩

theorem Ends.of_runs {s : Script α} {t after : Table} {events : List Event} {a : α} (h : s.Ends Q P)
    (hruns : s.Runs t events a after) : P a ∧ ∀ ev ∈ events, Q ev.query := by
  induction s generalizing t events with
  | done b =>
    obtain ⟨rfl, rfl, rfl⟩ := hruns
    exact ⟨h, fun ev hev => (by cases hev)⟩
  | ask q next ih =>
    obtain ⟨reply, mid, rest, rfl, -, hrest⟩ := hruns
    obtain ⟨ha, hevents⟩ := ih reply (h.2 reply) hrest
    exact ⟨ha, List.forall_mem_cons.mpr ⟨h.1, hevents⟩⟩

theorem Still.eq_of_runs {s : Script α} {t after : Table} {events : List Event} {a : α} (h : s.Still)
    (hruns : s.Runs t events a after) : after = t := h.passes ⟨_, hruns.reaches⟩

end Script

/-- Whether a question is one of those that are asked outside the engine. An account is looked up by entering its
repository first. -/
def Query.Outside : Query → Prop
  | .now => True
  | .note _ => True
  | .enter m => m = .getByName
  | .account _ => True
  | _ => False

theorem Query.Outside.still {q : Query} (h : q.Outside) : q.Still := by
  cases q with
  | now => trivial
  | note n => trivial
  | account name => trivial
  | mint => trivial
  | enter m => trivial
  | rotationTime id asked => trivial
  | table call => exact h.elim
  | roles user => trivial
  | sign signer text => trivial

theorem Script.Ends.of_runs_outside {α : Type} {P : α → Prop} {x : Script α} {t after : Table} {events : List Event}
    {a : α} (h : x.Ends Query.Outside P) (hruns : x.Runs t events a after) : P a ∧ after = t :=
  ⟨(h.of_runs hruns).1, (h.still fun _ => Query.Outside.still).eq_of_runs hruns⟩

/-! ### What a request asks for -/

/-- Which call of the engine a request comes to, and with what events before it. -/
inductive Asked (r : Request) : List Event → Command → Prop
  | login (login : LoginRequest) (signal : Bytes) (account : Account) (hcheck : Endpoint.login.check r = .ok ())
    (hlogin : LoginRequest.ofRequest r = .ok login) (hsignal : r.signal? = some signal)
    (hpassword : Password.verify login.password account.passwordHash = .ok true) :
    Asked r [⟨.enter .getByName, .ok ()⟩, ⟨.account login.name, some account⟩]
      (.create account.user signal login.persistent)
  | refresh (id : TokenId) (signal : Bytes) (hcheck : Endpoint.refresh.check r = .ok ())
    (hid : r.refreshToken? = some id) (hsignal : r.signal? = some signal) : Asked r [] (.refresh id signal)
  | revoke (id : TokenId) (signal : Bytes) (hcheck : Endpoint.revoke.check r = .ok ())
    (hid : r.refreshToken? = some id) (hsignal : r.signal? = some signal) : Asked r [] (.delete id signal)
  | revokeAll (id : TokenId) (signal : Bytes) (hcheck : Endpoint.revokeAll.check r = .ok ())
    (hid : r.refreshToken? = some id) (hsignal : r.signal? = some signal) : Asked r [] (.deleteAll id signal)

theorem ErrorCode.status_ne (code : ErrorCode) : code.status ≠ 200 := by
  cases code <;> decide

section Outside

/-! ### Only the call touches the table -/

variable {s : Service} {r : Request}

theorem ends_answerError (err : AuthError) (cookie : Option String) :
    (Service.answerError err cookie).Ends Query.Outside (· = .failure (.ofError err) cookie) := by
  cases err <;> exact ⟨trivial, fun _ => rfl⟩

theorem ends_action {α β : Type} {x : Action α} {f : α → Action β} (hx : x.run.Ends Query.Outside fun _ => True)
    (hf : ∀ a, (f a).run.Ends Query.Outside fun _ => True) : (x >>= f).run.Ends Query.Outside fun _ => True := by
  refine Script.Ends.bind hx fun result _ => ?_
  cases result with
  | ok a => exact hf a
  | error err => trivial

theorem ends_getByName (name : String) : (Repository.getByName name).run.Ends Query.Outside fun _ => True := by
  refine ends_action ⟨rfl, fun reply => ?_⟩ fun _ => ⟨trivial, fun _ => trivial⟩
  cases reply with
  | ok u => trivial
  | error text => trivial

theorem ends_loginVerify (name password : String) :
    (Login.verify name password).run.Ends Query.Outside fun _ => True := by
  rw [Login.verify]
  refine ends_action (ends_getByName name) fun found => ?_
  cases found with
  | none => trivial
  | some account =>
    dsimp only
    rcases Password.verify password account.passwordHash with err | verdict
    · trivial
    · cases verdict with
      | true => trivial
      | false => exact ⟨trivial, fun _ => trivial⟩

theorem ends_verify (i : Inspector) (credential : String) (signal : Bytes) :
    (i.verify credential signal).run.Ends Query.Outside fun _ => True := by
  refine ends_action (ends_action ⟨trivial, fun _ => trivial⟩ fun time => ?_) fun claims => ?_
  · cases i.inspect time credential with
    | error reason => exact ⟨trivial, fun _ => trivial⟩
    | ok claims => trivial
  · rw [Inspector.principal]
    cases Uuid.parse claims.subject with
    | error fault => exact ⟨trivial, fun _ => trivial⟩
    | ok uuid =>
      dsimp only
      cases checkFingerprintHex ⟨uuid⟩ signal claims.fingerprint with
      | error err => exact ⟨trivial, fun _ => trivial⟩
      | ok u => trivial

theorem ends_answering {α : Type} {a : Action α} {answer : α → Response} {onError : AuthError → Script Response}
    {P : AuthError → Response → Prop} (ha : a.run.Ends Query.Outside fun _ => True)
    (herror : ∀ err, (onError err).Ends Query.Outside (P err)) :
    (Service.answering a answer onError).Ends Query.Outside fun result =>
      (∃ x, result = .ok (answer x)) ∨ ∃ err response, P err response ∧ result = .ok response := by
  refine ha.bind fun result _ => ?_
  cases result with
  | ok x => exact Or.inl ⟨x, rfl⟩
  | error err => exact (herror err).bind fun response hresponse => Or.inr ⟨err, response, hresponse, rfl⟩

theorem ends_answered (err : AuthError) (cookie : Option String) :
    ((Service.answerError err cookie).bind fun response =>
        .done (.ok (.inl response) : Except Refusal (Response ⊕ Command))).Ends
      Query.Outside (· = .ok (.inl (.failure (.ofError err) cookie))) := by
  refine (ends_answerError err cookie).bind ?_
  rintro _ rfl
  exact rfl

theorem ends_inspected (i : Inspector) (credential : String) (signal : Bytes) :
    (Service.answering (i.verify credential signal) Service.answerPrincipal fun err =>
      Service.answerError err none).Ends Query.Outside fun result =>
        (∃ err, result = .ok (.failure (.ofError err) none)) ∨ ∃ p, result = .ok (Service.answerPrincipal p) := by
  refine (ends_answering (ends_verify i credential signal) fun err => ends_answerError err none).mono ?_
  rintro _ (⟨p, rfl⟩ | ⟨err, _, rfl, rfl⟩)
  · exact Or.inr ⟨p, rfl⟩
  · exact Or.inl ⟨err, rfl⟩

theorem ends_handleSession (s : Service) (r : Request) : (s.handleSession r).Ends Query.Outside fun result =>
    result = .error .invalidHeader ∨ (∃ err, result = .ok (.failure (.ofError err) none)) ∨
      ∃ p, result = .ok (Service.answerPrincipal p) := by
  rw [Service.handleSession]
  cases r.optional? "authorization" with
  | none => exact Or.inl rfl
  | some authorization =>
    cases r.signal? with
    | none => exact Or.inl rfl
    | some signal =>
      dsimp only
      cases authorization.bind bearerCredential? with
      | none =>
        refine (ends_answerError .credentialInvalid none).bind ?_
        rintro _ rfl
        exact Or.inr (Or.inl ⟨_, rfl⟩)
      | some credential =>
        exact (ends_inspected s.inspector credential signal).mono fun result hresult => Or.inr hresult

/-- What may come of reading a request at an endpoint: a refusal, a failure, the news of whom a credential speaks for,
or a call of the engine that is no mere look at a session. -/
inductive Endpoint.Reading : Endpoint → Except Refusal (Response ⊕ Command) → Prop
  | refused (e : Endpoint) (refusal : Refusal) : Reading e (.error refusal)
  | failed (e : Endpoint) (err : AuthError) (cookie : Option String) :
    Reading e (.ok (.inl (.failure (.ofError err) cookie)))
  | principal (p : Principal) : Reading .session (.ok (.inl (Service.answerPrincipal p)))
  | called (e : Endpoint) (c : Command) (h : ∀ id, c ≠ .get id) : Reading e (.ok (.inr c))

theorem ends_approachToken {call : TokenId → Bytes → Command} (e : Endpoint)
    (hcall : ∀ id signal id', call id signal ≠ .get id') : (s.approachToken r call).Ends Query.Outside e.Reading := by
  rw [Service.approachToken]
  cases r.refreshToken? with
  | none =>
    refine (ends_answered .tokenIncorrect _).mono ?_
    rintro _ rfl
    exact .failed e _ _
  | some id =>
    cases r.signal? with
    | none => exact .refused e _
    | some signal => exact .called e _ (hcall id signal)

theorem ends_approach (s : Service) (r : Request) (e : Endpoint) :
    (s.approach r e).Ends Query.Outside e.Reading := by
  cases e with
  | login =>
    rw [Service.approach]
    cases LoginRequest.ofRequest r with
    | error refusal => exact .refused _ _
    | ok login =>
      cases r.signal? with
      | none => exact .refused _ _
      | some signal =>
        refine (ends_loginVerify login.name login.password).bind fun result _ => ?_
        cases result with
        | ok user => exact .called _ _ fun id h => by cases h
        | error err =>
          refine (ends_answered err none).mono ?_
          rintro _ rfl
          exact .failed _ _ _
  | refresh => exact ends_approachToken _ fun _ _ _ h => by cases h
  | revoke => exact ends_approachToken _ fun _ _ _ h => by cases h
  | revokeAll => exact ends_approachToken _ fun _ _ _ h => by cases h
  | session =>
    refine (ends_handleSession s r).bind ?_
    rintro _ (rfl | ⟨err, rfl⟩ | ⟨p, rfl⟩)
    · exact .refused _ _
    · exact .failed _ err none
    · exact .principal p

theorem ends_answerRefusals (refusals : List Refusal) :
    (Service.answerRefusals refusals).Ends Query.Outside (· = .failure (Refusal.code refusals) none) := by
  rw [Service.answerRefusals]
  dsimp only
  split
  · exact ⟨trivial, fun _ => rfl⟩
  · exact rfl

/-- What may come of reading a request: what an endpoint that admits it comes to, or a failure. -/
inductive Service.Heard (r : Request) : Response ⊕ Command → Prop
  | failed (code : ErrorCode) (cookie : Option String) : Heard r (.inl (.failure code cookie))
  | principal (p : Principal) (hcheck : Endpoint.session.check r = .ok ()) : Heard r (.inl (answerPrincipal p))
  | called (c : Command) (h : ∀ id, c ≠ .get id) : Heard r (.inr c)

theorem ends_consultFrom (s : Service) (r : Request) (refusals : List Refusal) (endpoints : List Endpoint) :
    (s.consultFrom r refusals endpoints).Ends Query.Outside (Service.Heard r) := by
  induction endpoints generalizing refusals with
  | nil =>
    refine (ends_answerRefusals refusals).bind ?_
    rintro _ rfl
    exact .failed _ _
  | cons e rest ih =>
    rw [Service.consultFrom]
    cases hcheck : e.check r with
    | error refusal => exact ih _
    | ok u =>
      refine (ends_approach s r e).bind fun result hresult => ?_
      cases hresult with
      | refused e refusal => exact ih _
      | failed e err cookie => exact .failed _ _
      | principal p => exact .principal p hcheck
      | called e c h => exact .called c h

theorem still_consult (s : Service) (r : Request) : (s.consult r).Still :=
  (ends_consultFrom s r [] Endpoint.all).still fun _ => Query.Outside.still

end Outside

section Runs

variable {s : Service} {r : Request} {t after mid : Table} {events : List Event}

theorem runs_getByName {name : String} {found : Option Account}
    (h : (Repository.getByName name).Runs t events (.ok found) after) :
    events = [⟨.enter .getByName, .ok ()⟩, ⟨.account name, found⟩] ∧ after = t := by
  rcases Action.runs_entered.mp h with ⟨rest, rfl, hasked⟩ | ⟨text, -, hr, -⟩
  · obtain ⟨reply, mid, last, rfl, rfl, rfl, hr, rfl⟩ := hasked
    obtain rfl := Except.ok.inj hr
    exact ⟨rfl, rfl⟩
  · cases hr

theorem runs_loginVerify {name password : String} {user : UserId}
    (h : (Login.verify name password).Runs t events (.ok user) after) :
    ∃ account, events = [⟨.enter .getByName, .ok ()⟩, ⟨.account name, some account⟩] ∧ account.user = user ∧
      Password.verify password account.passwordHash = .ok true := by
  rcases Action.runs_bind.mp h with ⟨first, rest, found, mid, hfound, hrest, rfl⟩ | ⟨err, -, hr⟩
  case inr => cases hr
  obtain ⟨rfl, rfl⟩ := runs_getByName hfound
  cases found with
  | none =>
    obtain ⟨-, hr, -⟩ := hrest
    cases hr
  | some account =>
    cases hverify : Password.verify password account.passwordHash with
    | error err =>
      simp only [hverify] at hrest
      obtain ⟨-, hr, -⟩ := hrest
      cases hr
    | ok verdict =>
      cases verdict with
      | true =>
        simp only [hverify] at hrest
        obtain ⟨rfl, hr, -⟩ := hrest
        exact ⟨account, rfl, (Except.ok.inj hr).symm, hverify⟩
      | false =>
        simp only [hverify] at hrest
        obtain ⟨-, hr, -⟩ := runs_refused hrest
        cases hr

/-- What an endpoint that has admitted a request may come to: an answer, a refusal with nothing asked, or the call that
the request asks for. -/
inductive Approached (r : Request) : List Event → Except Refusal (Response ⊕ Command) → Prop
  | answered (events : List Event) (response : Response) : Approached r events (.ok (.inl response))
  | refused (refusal : Refusal) : Approached r [] (.error refusal)
  | called (events : List Event) (c : Command) (h : Asked r events c) : Approached r events (.ok (.inr c))

theorem runs_approachLogin {result : Except Refusal (Response ⊕ Command)} (hcheck : Endpoint.login.check r = .ok ())
    (h : (s.approach r .login).Runs t events result after) : Approached r events result := by
  rw [Service.approach] at h
  cases hlogin : LoginRequest.ofRequest r with
  | error refusal =>
    rw [hlogin] at h
    obtain ⟨rfl, rfl, -⟩ := h
    exact .refused refusal
  | ok login =>
    rw [hlogin] at h
    cases hsignal : r.signal? with
    | none =>
      rw [hsignal] at h
      obtain ⟨rfl, rfl, -⟩ := h
      exact .refused .invalidHeader
    | some signal =>
      rw [hsignal] at h
      obtain ⟨first, rest, verdict, between, hverify, hrest, rfl⟩ := Script.runs_bind.mp h
      cases verdict with
      | error err =>
        obtain rfl := ((ends_answered err none).of_runs hrest).1
        exact .answered _ _
      | ok user =>
        obtain ⟨rfl, rfl, -⟩ := hrest
        obtain ⟨account, rfl, rfl, hpassword⟩ := runs_loginVerify hverify
        rw [List.append_nil]
        exact .called _ _ (.login login signal account hcheck hlogin hsignal hpassword)

theorem runs_approachToken {call : TokenId → Bytes → Command} {result : Except Refusal (Response ⊕ Command)}
    (hcall : ∀ id signal, r.refreshToken? = some id → r.signal? = some signal → Asked r [] (call id signal))
    (h : (s.approachToken r call).Runs t events result after) : Approached r events result := by
  rw [Service.approachToken] at h
  cases hid : r.refreshToken? with
  | none =>
    rw [hid] at h
    obtain rfl := ((ends_answered .tokenIncorrect _).of_runs h).1
    exact .answered _ _
  | some id =>
    rw [hid] at h
    cases hsignal : r.signal? with
    | none =>
      rw [hsignal] at h
      obtain ⟨rfl, rfl, -⟩ := h
      exact .refused .invalidHeader
    | some signal =>
      rw [hsignal] at h
      obtain ⟨rfl, rfl, -⟩ := h
      exact .called _ _ (hcall id signal hid hsignal)

theorem runs_handleSession {result : Except Refusal Response} (h : (s.handleSession r).Runs t events result after) :
    (∃ response, result = .ok response) ∨ (result = .error .invalidHeader ∧ events = []) := by
  rw [Service.handleSession] at h
  cases hauthorization : r.optional? "authorization" with
  | none =>
    rw [hauthorization] at h
    obtain ⟨rfl, rfl, -⟩ := h
    exact Or.inr ⟨rfl, rfl⟩
  | some authorization =>
    cases hsignal : r.signal? with
    | none =>
      rw [hauthorization, hsignal] at h
      obtain ⟨rfl, rfl, -⟩ := h
      exact Or.inr ⟨rfl, rfl⟩
    | some signal =>
      rw [hauthorization, hsignal] at h
      dsimp only at h
      cases hcredential : authorization.bind bearerCredential? with
      | none =>
        rw [hcredential] at h
        obtain ⟨first, last, response, mid, -, ⟨-, rfl, -⟩, -⟩ := Script.runs_bind.mp h
        exact Or.inl ⟨response, rfl⟩
      | some credential =>
        rw [hcredential] at h
        rcases ((ends_inspected s.inspector credential signal).of_runs h).1 with ⟨err, rfl⟩ | ⟨p, rfl⟩
        · exact Or.inl ⟨_, rfl⟩
        · exact Or.inl ⟨_, rfl⟩

theorem runs_approach {e : Endpoint} {result : Except Refusal (Response ⊕ Command)} (hcheck : e.check r = .ok ())
    (h : (s.approach r e).Runs t events result after) : Approached r events result := by
  cases e with
  | login => exact runs_approachLogin hcheck h
  | refresh => exact runs_approachToken (fun id signal => .refresh id signal hcheck) h
  | revoke => exact runs_approachToken (fun id signal => .revoke id signal hcheck) h
  | revokeAll => exact runs_approachToken (fun id signal => .revokeAll id signal hcheck) h
  | session =>
    obtain ⟨first, rest, answered, between, hsession, hrest, rfl⟩ := Script.runs_bind.mp h
    rcases runs_handleSession hsession with ⟨response, rfl⟩ | ⟨rfl, rfl⟩
    · obtain ⟨-, rfl, -⟩ := hrest
      exact .answered _ response
    · obtain ⟨rfl, rfl, -⟩ := hrest
      exact .refused .invalidHeader

/-- If reading a request comes to a call, it is the call that the request asks for. -/
theorem asked_of_consultFrom {refusals : List Refusal} {endpoints : List Endpoint} {c : Command}
    (h : (s.consultFrom r refusals endpoints).Runs t events (.inr c) after) : Asked r events c := by
  induction endpoints generalizing refusals t events with
  | nil =>
    obtain ⟨first, rest, response, between, -, hrest, -⟩ := Script.runs_bind.mp h
    obtain ⟨-, hr, -⟩ := hrest
    cases hr
  | cons e endpoints ih =>
    rw [Service.consultFrom] at h
    cases hcheck : e.check r with
    | error refusal =>
      rw [hcheck] at h
      exact ih h
    | ok u =>
      rw [hcheck] at h
      obtain ⟨first, rest, result, between, happroach, hrest, rfl⟩ := Script.runs_bind.mp h
      cases runs_approach hcheck happroach with
      | answered _ response =>
        obtain ⟨-, hr, -⟩ := hrest
        cases hr
      | refused refusal => exact ih hrest
      | called _ c' hasked =>
        obtain ⟨rfl, hr, -⟩ := hrest
        obtain rfl := Sum.inr.inj hr
        rwa [List.append_nil]

/-! ### What a request does -/

def Service.told (s : Service) : Command → Except AuthError Outcome → Response
  | .create .., .error err => .failure (.ofError err) none
  | _, .error err =>
    .failure (.ofError err) (if err.discardsRefreshToken then some (clearRefreshCookie s.cookiePath) else none)
  | _, .ok (.pair p) => s.answerPair p
  | _, .ok _ => s.answerClosed

theorem ends_reply (s : Service) (c : Command) (result : Except AuthError Outcome) :
    (s.reply c result).Ends Query.Outside (· = s.told c result) := by
  cases result with
  | ok outcome => cases c <;> cases outcome <;> exact rfl
  | error err => cases c <;> exact ends_answerError err _

/-- A request is answered and the table is left alone, or it comes to one call and the outcome is told. -/
theorem runs_respond {response : Response} (h : (s.respond r).Runs t events response after) :
    (after = t ∧ (s.consult r).Runs t events (.inl response) t) ∨
      ∃ first rest last c result, events = first ++ (rest ++ last) ∧ Asked r first c ∧
        (s.engine.serve c).Runs t rest result after ∧ response = s.told c result := by
  rw [Service.respond_eq] at h
  obtain ⟨first, rest, x, mid, hconsult, hconclude, rfl⟩ := Script.runs_bind.mp h
  obtain rfl := (still_consult s r).eq_of_runs hconsult
  cases x with
  | inl answered =>
    obtain ⟨rfl, rfl, rfl⟩ := hconclude
    rw [List.append_nil]
    exact Or.inl ⟨rfl, hconsult⟩
  | inr c =>
    obtain ⟨rest, last, result, mid', hserve, hreply, rfl⟩ := Script.runs_bind.mp hconclude
    obtain ⟨hresponse, rfl⟩ := (ends_reply s c result).of_runs_outside hreply
    exact Or.inr ⟨first, rest, last, c, result, rfl, asked_of_consultFrom hconsult, hserve, hresponse⟩

/-- On its way, a request has left the table alone, or it has come to its one call. -/
theorem passes_respond (h : (s.respond r).Passes t events mid) :
    mid = t ∨ ∃ first rest last c, events = first ++ (rest ++ last) ∧ Asked r first c ∧
      (s.engine.serve c).Passes t rest mid := by
  rw [Service.respond_eq] at h
  rcases h.of_bind with hconsult | ⟨first, rest, x, mid', hconsult, hconclude, rfl⟩
  · exact Or.inl ((still_consult s r).passes hconsult)
  · obtain rfl := (still_consult s r).eq_of_runs hconsult
    cases x with
    | inl answered =>
      obtain ⟨rest, hconclude⟩ := hconclude
      cases hconclude
      exact Or.inl rfl
    | inr c =>
      have hasked := asked_of_consultFrom hconsult
      rcases Script.Passes.of_bind hconclude with hserve | ⟨rest, last, result, after, hserve, hreply, rfl⟩
      · exact Or.inr ⟨first, rest, [], c, by rw [List.append_nil], hasked, hserve⟩
      · obtain rfl := ((ends_reply s c result).still fun _ => Query.Outside.still).passes hreply
        exact Or.inr ⟨first, rest, last, c, rfl, hasked, Action.Runs.passes hserve⟩

end Runs

def Service.sample : Service := ⟨Engine.sample, Inspector.sample, "/"⟩

end SessionWarden
