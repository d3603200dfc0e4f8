import SessionWarden.Proofs.Http.Asking
import SessionWarden.Proofs.Session.FailedRefresh
/-!
# Client errors

A response whose status blames the client has changed nothing. An opening has made room, and a renewal has consumed
its token, long before a credential is signed, but what may go wrong from then on is the fault of the store or of the
signer, and no client is blamed for it.
-/

namespace SessionWarden

variable {e : Engine} {t after : Table} {events : List Event} {err : AuthError}

/-! ### Whose fault an error is -/

theorem MadeRoom.not_external {user : UserId} (h : MadeRoom e user t events (.error err) after) :
    err.isExternal = false := by
  cases h with
  | failed text => rfl
  | stopped found hfound n text hmem => rfl

theorem Made.not_external {user : UserId} {signal : Bytes} {persistent : Bool}
    (h : Made e user signal persistent events (.error err)) : err.isExternal = false := by
  cases h with
  | overflow time hadd => rfl

/-- What stops the issue of a credential is the fault of the store or of the signer. -/
theorem Issued.not_external {x : Record} (h : Issued e x events (.error err)) : err.isExternal = false := by
  rcases h.error_cases with ⟨text, rfl⟩ | ⟨text, rfl⟩
  · rfl
  · rfl

/-! ### The table after a client error -/

theorem Opened.not_external {user : UserId} {signal : Bytes} {persistent : Bool}
    (h : Opened e user signal persistent t events (.error err) after) : err.isExternal = false := by
  cases h with
  | crowded evict err mid hroom => exact hroom.not_external
  | unmade evict make err mid hroom hmake => exact hmake.not_external
  | unstored evict make new mid text hroom hmake => rfl
  | unissued evict make issue new mid err hroom hmake hissue => exact hissue.not_external

theorem Renewed.eq_of_external {id : TokenId} {signal : Bytes} (h : Renewed e id signal t events (.error err) after)
    (herr : err.isExternal = true) : after = t := by
  cases h with
  | lost look err hlook => rfl
  | unmade look make old err hlook hmake => rfl
  | unrotated look make turn old new asked err hlook hmake hturn => rfl
  | expired look make turn old new asked time hlook hmake hturn hexp => rfl
  | consumed look make turn old new asked time hlook hmake hturn hlive => rfl
  | unissued look make turn issue old new asked err after hlook hmake hturn hissue =>
    have hfault := hissue.not_external
    rw [herr] at hfault
    cases hfault

theorem Closed.eq_of_error {id : TokenId} {signal : Bytes} {remove : Record → Table}
    (h : Closed id signal remove t events (.error err) after) : after = t := by
  cases h with
  | lost look err hlook => rfl
  | failed look x m text hlook => rfl

theorem serve_client_error {c : Command} (h : (e.serve c).Runs t events (.error err) after)
    (herr : err.isExternal = true) : after = t := by
  have hinner : ∀ {α : Type} {a : Action α} {g : α → Outcome},
      Action.Runs (a >>= fun x => pure (g x)) t events (.error err) after → a.Runs t events (.error err) after := by
    intro α a g hruns
    obtain ⟨result, ha, hresult⟩ := Action.runs_map.mp hruns
    cases result with
    | ok x => cases hresult
    | error err' =>
      obtain rfl := Except.error.inj hresult
      exact ha
  cases c with
  | create user signal persistent =>
    have hfault := (runs_open (hinner h)).not_external
    rw [herr] at hfault
    cases hfault
  | refresh id signal => exact (runs_refresh (hinner h)).eq_of_external herr
  | get id => exact (runs_get (hinner h)).1
  | delete id signal => exact (runs_delete (hinner h)).eq_of_error
  | deleteAll id signal => exact (runs_deleteAll (hinner h)).eq_of_error

/-! ### Statuses -/

theorem ErrorCode.isExternal_of_status (h : (ofError err).status < 500) : err.isExternal = true := by
  cases err with
  | store text => exact absurd h (Nat.lt_irrefl 500)
  | internal text => exact absurd h (Nat.lt_irrefl 500)
  | userNotExist => rfl
  | passwordIncorrect => rfl
  | tokenIncorrect => rfl
  | tokenExpired => rfl
  | fingerprintIncorrect => rfl
  | credentialInvalid => rfl

namespace Service

theorem status_told_ok (s : Service) (c : Command) (outcome : Outcome) : (s.told c (.ok outcome)).status = 200 := by
  cases c <;> cases outcome <;> rfl

theorem status_told_error (s : Service) (c : Command) (err : AuthError) :
    (s.told c (.error err)).status = (ErrorCode.ofError err).status := by
  cases c <;> rfl

/-- A request is read without the engine and comes to one call at most, which is no mere look at a session. If the
response blames the client, the table is what it was. -/
theorem client_error_changes_nothing (s : Service) (r : Request) :
    (∃ reading : Script (Response ⊕ Command),
      reading.Ends Query.Outside (fun x => ∀ id, x ≠ .inr (.get id)) ∧
      (∀ c result, (s.reply c result).Ends Query.Outside fun _ => True) ∧
      s.respond r = reading.bind fun
        | .inl response => .done response
        | .inr c => (s.engine.serve c).run.bind (s.reply c)) ∧
    ∀ t events response after, (s.respond r).Runs t events response after →
      400 ≤ response.status → response.status < 500 → after = t := by
  have hreading : (s.consult r).Ends Query.Outside fun x => ∀ id, x ≠ .inr (.get id) := by
    refine (ends_consultFrom s r [] _).mono ?_
    rintro _ (⟨code, cookie⟩ | ⟨p, hcheck⟩ | ⟨c, hc⟩) id h
    · cases h
    · cases h
    · exact hc id (Sum.inr.inj h)
  refine ⟨⟨s.consult r, hreading, fun c result => (ends_reply s c result).mono fun _ _ => trivial, ?_⟩, ?_⟩
  · refine (s.respond_eq r).trans (congrArg (Script.bind _) (funext fun x => ?_))
    cases x with
    | inl response => rfl
    | inr c => rfl
  · intro t events response after hruns hleast hmost
    rcases runs_respond hruns with ⟨rfl, -⟩ | ⟨first, rest, last, c, result, -, -, hserve, rfl⟩
    · rfl
    · cases result with
      | ok outcome =>
        rw [status_told_ok] at hleast
        exact absurd hleast (by decide)
      | error err =>
        rw [status_told_error] at hmost
        exact serve_client_error hserve (ErrorCode.isExternal_of_status hmost)

def strayRequest : Request :=
  ⟨"POST", "/token/refresh", [("cookie", Bytes.ofString "refresh_token=00000000-0000-0000-0000-000000000001")], []⟩

theorem client_error_of_sample : ∃ events response after,
    (sample.respond strayRequest).Runs (Table.empty.insert Record.sample) events response after ∧
      response.status = 401 ∧ after = Table.empty.insert Record.sample := by
  let w : World := { World.empty ⟨0⟩ fun _ => default with table := Table.empty.insert Record.sample }
  obtain ⟨events, hruns⟩ := Script.runs_of_run (sample.respond strayRequest) w rfl
  have hstatus : (w.run (sample.respond strayRequest)).1.status = 401 := by decide +kernel
  refine ⟨events, _, _, hruns, hstatus, ?_⟩
  refine (client_error_changes_nothing sample strayRequest).2 _ events _ _ hruns ?_ ?_
  · rw [hstatus]
    decide
  · rw [hstatus]
    decide

end Service

end SessionWarden
