import SessionWarden.Proofs.Http.Admission
import SessionWarden.Proofs.Http.Answers
import SessionWarden.Proofs.Session.Discretion
/-!
# What clients are told of failures

The store and the signer say what has gone wrong with them. That is noted and not told: the response to a request, and
the table that it leaves, are the same whatever words they choose, and an error of theirs is always answered with one
and the same response.
-/

namespace SessionWarden

open SessionWarden.Action (discreet_bind discreet_pure discreet_throw)

def Response.internal : Response :=
  ⟨500, envelope false .null (.record [("code", .string "InternalError"), ("message", .string "Internal error")]), none⟩

/-! ### The service is discreet -/

namespace Service

variable {s : Service} {r : Request} {e : Endpoint} {a : Action Response}

theorem discreet_work (hwork : s.work r e = .ok a) : a.Discreet := by
  have hprepares := s.prepares_work r e
  rw [hwork] at hprepares
  cases hprepares with
  | login login signal hlogin hsignal =>
    exact discreet_bind (discreet_bind (discreet_loginVerify _ _) fun user => discreet_create _ _ _ _) fun p =>
      discreet_pure _
  | refresh id signal hid hsignal => exact discreet_bind (discreet_refresh _ id signal) fun p => discreet_pure _
  | revoke id signal hid hsignal => exact discreet_bind (discreet_delete id signal) fun _ => discreet_pure _
  | revokeAll id signal hid hsignal => exact discreet_bind (discreet_deleteAll id signal) fun _ => discreet_pure _
  | session credential signal hsignal => exact discreet_bind (discreet_verify _ _ _) fun p => discreet_pure _
  | tokenless e he hid => exact discreet_throw _
  | unknown => exact discreet_throw _

theorem twins_answerError (err : AuthError) (cookie : Option String) :
    (answerError err cookie).Twins (· = ·) (answerError err cookie) := by
  cases err <;> exact .note _ _ _ _ (.done _ _ rfl)

/-- An error of which no client is told the text is noted, and answered with one response. -/
theorem answerError_of_internal {err : AuthError} (h : err.isExternal = false) (cookie : Option String) :
    ∃ n, answerError err cookie = .ask (.note n) fun _ => .done (.failure .internalError cookie) := by
  cases err with
  | store text => exact ⟨_, rfl⟩
  | internal text => exact ⟨_, rfl⟩
  | userNotExist => cases h
  | passwordIncorrect => cases h
  | tokenIncorrect => cases h
  | tokenExpired => cases h
  | fingerprintIncorrect => cases h
  | credentialInvalid => cases h

theorem settle_of_internal (s : Service) (e : Endpoint) {err : AuthError} (h : err.isExternal = false) :
    ∃ n, s.settle e (.error err) = .ask (.note n) fun _ => .done .internal := by
  have hkeeps : err.discardsRefreshToken = false := by
    by_contra hdiscards
    have hexternal := AuthError.isExternal_of_discards (Bool.not_eq_false _ ▸ hdiscards)
    exact absurd (h.symm.trans hexternal) (by decide)
  have hcookie : s.cookieFor e err = none := by simp [cookieFor, hkeeps]
  rw [settle, hcookie]
  exact answerError_of_internal h none

theorem twins_settle (s : Service) (e : Endpoint) {result result' : Except AuthError Response}
    (h : AlikeResults result result') : (s.settle e result).Twins (· = ·) (s.settle e result') := by
  cases result with
  | ok response =>
    cases result' with
    | ok response' => exact .done _ _ h
    | error err' => exact h.elim
  | error err =>
    cases result' with
    | ok response' => exact h.elim
    | error err' =>
      rcases h with rfl | ⟨herr, herr'⟩
      · exact twins_answerError err _
      · obtain ⟨n, hn⟩ := s.settle_of_internal e herr
        obtain ⟨n', hn'⟩ := s.settle_of_internal e herr'
        rw [hn, hn']
        exact .note n n' _ _ (.done _ _ rfl)

theorem twins_respond (s : Service) (r : Request) : (s.respond r).Twins (· = ·) (s.respond r) := by
  by_cases hserved : ∃ e : Endpoint, e.check r = .ok ()
  · obtain ⟨e, hcheck⟩ := hserved
    cases hwork : s.work r e with
    | error refusal =>
      rw [respond_of_refusal hcheck hwork]
      exact .done _ _ rfl
    | ok a =>
      rw [respond_of_work hcheck hwork]
      exact (discreet_work hwork).bind fun result result' h => s.twins_settle e h
  · rw [respond_of_unserved (not_exists.mp hserved)]
    exact .done _ _ rfl

/-- If a request is told of the same failures in two wordings, its response and the table that it leaves are the same;
and if its work ends with an error of the store or of the signer, the response is the one for that. -/
theorem texts_stay_inside (s : Service) (r : Request) (t : Table) :
    (∀ (events events' : List Event) (response response' : Response) (after after' : Table),
      (s.respond r).Runs t events response after → (s.respond r).Runs t events' response' after' →
        AlikeEvents events events' → response = response' ∧ after = after') ∧
    ∀ (e : Endpoint) (a : Action Response) (first : List Event) (err : AuthError) (mid : Table),
      e.check r = .ok () → s.work r e = .ok a → a.Runs t first (.error err) mid → err.isExternal = false →
        (∃ last, (s.respond r).Runs t (first ++ last) .internal mid) ∧
          ∀ (last : List Event) (response : Response) (after : Table),
            (s.respond r).Runs t (first ++ last) response after → response = .internal ∧ after = mid := by
  refine ⟨fun events events' response response' after after' hruns hruns' halike =>
    (s.twins_respond r).of_runs hruns hruns' halike, ?_⟩
  intro e a first err mid hcheck hwork herror hinternal
  obtain ⟨n, hsettle⟩ := s.settle_of_internal e hinternal
  rw [respond_of_work hcheck hwork]
  refine ⟨⟨[⟨.note n, ()⟩], ?_⟩, fun last response after hruns => ?_⟩
  · refine Script.runs_bind.mpr ⟨first, _, _, mid, herror, ?_, rfl⟩
    rw [hsettle]
    exact ⟨(), mid, [], rfl, rfl, rfl, rfl, rfl⟩
  · have hlast := Script.Runs.of_bind herror hruns
    rw [hsettle] at hlast
    obtain ⟨_, _, _, -, rfl, -, rfl, rfl⟩ := hlast
    exact ⟨rfl, rfl⟩

def failedRenewal (text : String) : List Event :=
  [⟨.enter .getById, .error text⟩, ⟨.note (.internalFailure text), ()⟩]

theorem alike_failedRenewal (text text' : String) : AlikeEvents (failedRenewal text) (failedRenewal text') := by
  refine alikeEvents_cons.mpr ⟨?_, alikeEvents_cons.mpr ⟨?_, alikeEvents_nil⟩⟩
  · rintro q a b ⟨⟩ ⟨⟩
    exact rfl
  · rintro q a b ⟨⟩ hb
    exact rfl

theorem texts_stay_inside_of_sample : ∃ response response' : Response,
    (sample.respond (Request.sampleRefresh [])).Runs .empty (failedRenewal "no answer") response .empty ∧
    (sample.respond (Request.sampleRefresh [])).Runs .empty (failedRenewal "no space left") response' .empty ∧
    response = response' ∧ response = .internal := by
  have hcheck := Endpoint.check_sampleRefresh []
  have hid : (Request.sampleRefresh []).refreshToken? = some FaultFree.sample.id := by decide +kernel
  obtain ⟨signal, hsignal⟩ : ∃ signal, (Request.sampleRefresh []).signal? = some signal := ⟨_, rfl⟩
  have hwork : sample.work (Request.sampleRefresh []) .refresh =
      .ok (sample.refreshWork FaultFree.sample.id signal) := by
    rw [work, tokenWork, hid, hsignal]
  have hfailed : ∀ text, (sample.refreshWork FaultFree.sample.id signal).Runs .empty [⟨.enter .getById, .error text⟩]
      (.error (.store text)) .empty := fun text => ⟨.error text, .empty, [], rfl, rfl, rfl, rfl, rfl⟩
  have hruns : ∀ text,
      (sample.respond (Request.sampleRefresh [])).Runs .empty (failedRenewal text) .internal .empty := fun text => by
    rw [respond_of_work hcheck hwork]
    exact Script.runs_bind.mpr ⟨_, _, _, _, hfailed text, ⟨(), .empty, [], rfl, rfl, rfl, rfl, rfl⟩, rfl⟩
  obtain ⟨hsame, htold⟩ := texts_stay_inside sample (Request.sampleRefresh []) .empty
  obtain ⟨-, hunique⟩ := htold .refresh _ _ _ _ hcheck hwork (hfailed "no answer") rfl
  refine ⟨.internal, .internal, hruns _, hruns _, ?_, ?_⟩
  · exact (hsame _ _ _ _ _ _ (hruns _) (hruns _) (alike_failedRenewal "no answer" "no space left")).1
  · exact (hunique _ _ _ (hruns "no answer")).1

end Service

end SessionWarden
