import SessionWarden.Http.Service
import SessionWarden.Proofs.Session.Command
/-!
# Handling a request

A request is handled in three parts. What it asks for is read off the request and the accounts; then at most one call
of the engine is made; then the outcome of the call is told. The service, which goes from endpoint to endpoint and
from handler to handler, does no more than this.
-/

namespace SessionWarden

/-! ### The three parts -/

namespace Service

def approachToken (s : Service) (r : Request) (call : TokenId → Bytes → Command) :
    Script (Except Refusal (Response ⊕ Command)) :=
  match r.refreshToken? with
  | none => (s.answerTokenError .tokenIncorrect).bind fun response => .done (.ok (.inl response))
  | some id =>
    match r.signal? with
    | none => .done (.error .invalidHeader)
    | some signal => .done (.ok (.inr (call id signal)))

/-- What a request asks for at an endpoint that has admitted it: it is refused, it is answered at once, or it comes to
a call of the engine. -/
def approach (s : Service) (r : Request) : Endpoint → Script (Except Refusal (Response ⊕ Command))
  | .login =>
    match LoginRequest.ofRequest r, r.signal? with
    | .error refusal, _ => .done (.error refusal)
    | .ok _, none => .done (.error .invalidHeader)
    | .ok login, some signal => (Login.verify login.name login.password).run.bind fun
      | .ok user => .done (.ok (.inr (.create user signal login.persistent)))
      | .error err => (answerError err none).bind fun response => .done (.ok (.inl response))
  | .refresh => s.approachToken r .refresh
  | .revoke => s.approachToken r .delete
  | .revokeAll => s.approachToken r .deleteAll
  | .session => (s.handleSession r).bind fun
    | .ok response => .done (.ok (.inl response))
    | .error refusal => .done (.error refusal)

/-- What a request asks for when it is offered to endpoints in turn. -/
def consultFrom (s : Service) (r : Request) : List Refusal → List Endpoint → Script (Response ⊕ Command)
  | refusals, [] => (answerRefusals refusals).bind fun response => .done (.inl response)
  | refusals, e :: rest =>
    match e.check r with
    | .error refusal => s.consultFrom r (refusals ++ [refusal]) rest
    | .ok () => (s.approach r e).bind fun
      | .ok x => .done x
      | .error refusal => s.consultFrom r (refusals ++ [refusal]) rest

def consult (s : Service) (r : Request) : Script (Response ⊕ Command) := s.consultFrom r [] Endpoint.all

def reply (s : Service) : Command → Except AuthError Outcome → Script Response
  | .create .., .error err => answerError err none
  | _, .error err => s.answerTokenError err
  | _, .ok (.pair p) => .done (s.answerPair p)
  | _, .ok _ => .done s.answerClosed

/-- What is left to do: nothing, or one call and the telling of its outcome. -/
def conclude (s : Service) : Response ⊕ Command → Script Response
  | .inl response => .done response
  | .inr c => (s.engine.serve c).run.bind (s.reply c)

/-! ### A request is handled in these parts -/

def finish (s : Service) : Except Refusal (Response ⊕ Command) → Script (Except Refusal Response)
  | .error refusal => .done (.error refusal)
  | .ok x => (s.conclude x).bind fun response => .done (.ok response)

section Answering

variable {α β : Type} {answer : α → Response} {onError : AuthError → Script Response}

theorem answering_bind (x : Action β) (f : β → Action α) : answering (x >>= f) answer onError = x.run.bind fun
    | .ok b => answering (f b) answer onError
    | .error err => (onError err).bind fun response => .done (.ok response) := by
  have hbind : (x >>= f).run = x.run.bind (ExceptT.bindCont f) := rfl
  show (x >>= f).run.bind _ = _
  rw [hbind, Script.bind_assoc]
  refine congrArg (Script.bind x.run) (funext fun result => ?_)
  cases result with
  | ok b => rfl
  | error err => rfl

theorem answering_eq (s : Service) {a : Action α} (c : Command) (outcome : α → Outcome)
    (hserve : s.engine.serve c = a >>= fun x => pure (outcome x))
    (hok : ∀ x, s.reply c (.ok (outcome x)) = .done (answer x))
    (herror : ∀ err, s.reply c (.error err) = onError err) :
    answering a answer onError = s.finish (.ok (.inr c)) := by
  have hrun : (s.engine.serve c).run = a.run.bind (ExceptT.bindCont fun x => pure (outcome x)) := by
    rw [hserve]
    rfl
  show a.run.bind _ = ((s.engine.serve c).run.bind (s.reply c)).bind _
  rw [hrun, Script.bind_assoc, Script.bind_assoc]
  refine congrArg (Script.bind a.run) (funext fun result => ?_)
  cases result with
  | ok x =>
    have hx : ((s.reply c (.ok (outcome x))).bind fun response => .done (.ok response)) =
        (.done (.ok (answer x)) : Script (Except Refusal Response)) := by
      rw [hok]
      rfl
    exact hx.symm
  | error err =>
    have herr : ((s.reply c (.error err)).bind fun response => .done (.ok response)) =
        ((onError err).bind fun response => .done (.ok response) : Script (Except Refusal Response)) := by
      rw [herror]
    exact herr.symm

end Answering

variable {s : Service} {r : Request}

theorem withToken_eq {α : Type} {act : TokenId → Bytes → Action α} {answer : α → Response}
    (call : TokenId → Bytes → Command) (h : ∀ id signal,
      answering (act id signal) answer s.answerTokenError = s.finish (.ok (.inr (call id signal)))) :
    s.withToken r act answer = (s.approachToken r call).bind s.finish := by
  rw [withToken, approachToken]
  cases r.refreshToken? with
  | none =>
    show _ = (Script.bind _ _).bind _
    rw [Script.bind_assoc]
    rfl
  | some id =>
    cases r.signal? with
    | none => rfl
    | some signal => exact h id signal

theorem handle_eq (s : Service) (r : Request) (e : Endpoint) : s.handle e r = (s.approach r e).bind s.finish := by
  cases e with
  | login =>
    show s.handleLogin r = _
    rw [handleLogin, approach]
    cases LoginRequest.ofRequest r with
    | error refusal => rfl
    | ok login =>
      cases r.signal? with
      | none => rfl
      | some signal =>
        show answering (Login.verify _ _ >>= fun user => s.engine.create user signal login.persistent) _ _ =
          (Script.bind _ _).bind _
        rw [answering_bind, Script.bind_assoc]
        refine congrArg (Script.bind _) (funext fun result => ?_)
        cases result with
        | ok user =>
          exact answering_eq s (.create user signal login.persistent) .pair rfl (fun _ => rfl) fun _ => rfl
        | error err =>
          show _ = (Script.bind _ _).bind _
          rw [Script.bind_assoc]
          rfl
  | refresh =>
    exact withToken_eq _ fun id signal => answering_eq s (.refresh id signal) .pair rfl (fun _ => rfl) fun _ => rfl
  | revoke =>
    exact withToken_eq _ fun id signal =>
      answering_eq s (.delete id signal) (fun _ => .done) rfl (fun _ => rfl) fun _ => rfl
  | revokeAll =>
    exact withToken_eq _ fun id signal =>
      answering_eq s (.deleteAll id signal) (fun _ => .done) rfl (fun _ => rfl) fun _ => rfl
  | session =>
    show s.handleSession r = ((s.handleSession r).bind _).bind _
    rw [Script.bind_assoc]
    refine (Script.bind_pure _).symm.trans (congrArg (Script.bind _) (funext fun result => ?_))
    cases result with
    | ok response => rfl
    | error refusal => rfl

theorem offer_eq (s : Service) (r : Request) (refusals : List Refusal) (endpoints : List Endpoint) :
    s.offer r refusals endpoints = (s.consultFrom r refusals endpoints).bind s.conclude := by
  induction endpoints generalizing refusals with
  | nil =>
    rw [offer, consultFrom, Script.bind_assoc]
    exact (Script.bind_pure _).symm
  | cons e rest ih =>
    rw [offer, consultFrom]
    cases e.check r with
    | error refusal => exact ih _
    | ok u =>
      show (s.handle e r).bind _ = (Script.bind _ _).bind _
      rw [handle_eq, Script.bind_assoc, Script.bind_assoc]
      refine congrArg (Script.bind _) (funext fun result => ?_)
      cases result with
      | error refusal => exact ih _
      | ok x =>
        show ((s.conclude x).bind fun response => .done (Except.ok response : Except Refusal Response)).bind _ = _
        rw [Script.bind_assoc]
        exact Script.bind_pure _

theorem respond_eq (s : Service) (r : Request) : s.respond r = (s.consult r).bind s.conclude := s.offer_eq r [] _

end Service

end SessionWarden
