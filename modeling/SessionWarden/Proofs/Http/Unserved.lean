import SessionWarden.Proofs.Http.Admission
import SessionWarden.Proofs.Http.Answers
/-!
# Requests that nobody serves

Every endpoint looks at the method before the path, so a request that none of them admits was refused by one of
another method, and that is what it is told: a path that is not there is never told as such. The same befalls a login
whose content is not said to be JSON, which no endpoint of the service has a word for.
-/

namespace SessionWarden

/-- Whether a request says that its content is something other than JSON. -/
def Request.OtherContent (r : Request) : Prop :=
  ∃ value, r.header? "content-type" = some value ∧ (Request.valueText? value).bind MediaType.parse? ≠ some .json

namespace LoginRequest

variable {r : Request} {refusal : Refusal}

/-- A login is read off the body unless the request says that the body is something else. -/
theorem ofRequest_cases (r : Request) : (r.OtherContent ∧ ofRequest r = .error .mediaType) ∨
    (¬ r.OtherContent ∧ ofRequest r = ((Json.read? r.body).bind ofJson?).elim (.error .body) .ok) := by
  unfold ofRequest Request.OtherContent
  cases r.header? "content-type" with
  | none => exact Or.inr ⟨by simp, by cases (Json.read? r.body).bind ofJson? <;> rfl⟩
  | some value =>
    by_cases hjson : (Request.valueText? value).bind MediaType.parse? = some .json
    · refine Or.inr ⟨by simp [hjson], ?_⟩
      simp only [hjson, beq_self_eq_true, Bool.not_true, Bool.false_eq_true, ite_false]
      cases (Json.read? r.body).bind ofJson? <;> rfl
    · exact Or.inl ⟨⟨value, rfl, hjson⟩, by simp [hjson]⟩

theorem ofRequest_eq_mediaType_iff : ofRequest r = .error .mediaType ↔ r.OtherContent := by
  rcases ofRequest_cases r with ⟨hcontent, hread⟩ | ⟨hcontent, hread⟩
  · simp only [hread, hcontent]
  · cases hlogin : (Json.read? r.body).bind ofJson? <;> simp [hread, hcontent, hlogin]

theorem of_ofRequest_eq_error (h : ofRequest r = .error refusal) : refusal = .mediaType ∨ refusal = .body := by
  rcases ofRequest_cases r with ⟨-, hread⟩ | ⟨-, hread⟩
  · exact Or.inl (Except.error.inj (h.symm.trans hread))
  · cases hlogin : (Json.read? r.body).bind ofJson? with
    | none =>
      rw [hread, hlogin] at h
      exact Or.inr (Except.error.inj h).symm
    | some login =>
      rw [hread, hlogin] at h
      cases h

end LoginRequest

/-! ### The statuses of answers -/

theorem ErrorCode.status_eq_iff {code : ErrorCode} :
    (code.status = 404 ↔ code = .notFound) ∧ (code.status = 405 ↔ code = .methodNotAllowed) := by
  cases code <;> decide

theorem ErrorCode.ofError_ne (err : AuthError) : ofError err ≠ .notFound ∧ ofError err ≠ .methodNotAllowed := by
  cases err <;> exact ⟨nofun, nofun⟩

theorem Refusal.verdict_ne (refusal : Refusal) : refusal.verdict ≠ .notFound := by cases refusal <;> decide

namespace Service

variable {s : Service} {r : Request} {e : Endpoint} {t after : Table} {response : Response}

theorem Achieves.status_eq (h : s.Achieves e response after) : response.status = 200 := by cases h <;> rfl

/-- A refusal that is told as a method that is not allowed is one for the content of a login. -/
theorem work_not_allowed {refusal : Refusal} (h : s.work r e = .error refusal)
    (hverdict : refusal.verdict = .methodNotAllowed) : e = .login ∧ r.OtherContent := by
  have hprepares := s.prepares_work r e
  rw [h] at hprepares
  cases hprepares with
  | unread refusal hlogin =>
    rcases LoginRequest.of_ofRequest_eq_error hlogin with rfl | rfl
    · exact ⟨rfl, LoginRequest.ofRequest_eq_mediaType_iff.mp hlogin⟩
    · cases hverdict
  | unheard e => cases hverdict

theorem Answered.status_ne (h : s.Answered r t response after) : response.status ≠ 404 := by
  intro hstatus
  cases h with
  | unserved h => cases hstatus
  | refused e refusal hcheck hwork => exact refusal.verdict_ne (ErrorCode.status_eq_iff.1.mp hstatus)
  | failed e a events err after hcheck hwork hruns =>
    exact (ErrorCode.ofError_ne err).1 (ErrorCode.status_eq_iff.1.mp hstatus)
  | achieved e response after hcheck h => exact absurd (h.status_eq.symm.trans hstatus) (by decide)

theorem Answered.of_status (h : s.Answered r t response after) (hstatus : response.status = 405) :
    ((∀ e : Endpoint, e.check r ≠ .ok ()) ∨ (Endpoint.login.check r = .ok () ∧ r.OtherContent)) ∧
      response = .failure .methodNotAllowed none ∧ after = t := by
  cases h with
  | unserved h => exact ⟨Or.inl h, rfl, rfl⟩
  | refused e refusal hcheck hwork =>
    have hverdict := ErrorCode.status_eq_iff.2.mp hstatus
    obtain ⟨rfl, hcontent⟩ := work_not_allowed hwork hverdict
    exact ⟨Or.inr ⟨hcheck, hcontent⟩, by rw [hverdict], rfl⟩
  | failed e a events err after hcheck hwork hruns =>
    exact absurd (ErrorCode.status_eq_iff.2.mp hstatus) (ErrorCode.ofError_ne err).2
  | achieved e response after hcheck h => exact absurd (h.status_eq.symm.trans hstatus) (by decide)

theorem respond_of_otherContent (hcheck : Endpoint.login.check r = .ok ()) (h : r.OtherContent) :
    s.respond r = .done (.failure .methodNotAllowed none) := by
  have hwork : s.work r .login = .error .mediaType := by
    rw [work, LoginRequest.ofRequest_eq_mediaType_iff.mpr h]
  exact respond_of_refusal hcheck hwork

/-- No request is told that its path is not there. Told that their method is not allowed are the requests that no
endpoint admits, be it for their method or for their path, and the logins that say that their content is no JSON. -/
theorem told_not_allowed_iff (s : Service) (r : Request) (t : Table) :
    (∃ events response after, (s.respond r).Runs t events response after) ∧
      ∀ (events : List Event) (response : Response) (after : Table), (s.respond r).Runs t events response after →
        response.status ≠ 404 ∧
        (response.status = 405 ↔ (∀ e : Endpoint, r.segments = e.path → r.method ≠ e.method) ∨
          (r.segments = Endpoint.login.path ∧ r.method = Endpoint.login.method ∧ r.OtherContent)) ∧
        (response.status = 405 → response = .failure .methodNotAllowed none ∧ after = t) := by
  refine ⟨Script.exists_any_run _ t, fun events response after hruns => ?_⟩
  have hanswered := answered_of_runs hruns
  have hunserved : (∀ e : Endpoint, r.segments = e.path → r.method ≠ e.method) ↔ ∀ e : Endpoint, e.check r ≠ .ok () :=
    forall_congr' fun e => by rw [ne_eq, ne_eq, Endpoint.check_eq_ok_iff, not_and']
  refine ⟨hanswered.status_ne, ⟨fun hstatus => ?_, ?_⟩, fun hstatus => (hanswered.of_status hstatus).2⟩
  · rcases (hanswered.of_status hstatus).1 with hnone | ⟨hcheck, hcontent⟩
    · exact Or.inl (hunserved.mpr hnone)
    · obtain ⟨hmethod, hpath⟩ := Endpoint.check_eq_ok_iff.mp hcheck
      exact Or.inr ⟨hpath, hmethod, hcontent⟩
  · rintro (hnone | ⟨hpath, hmethod, hcontent⟩)
    · rw [respond_of_unserved (hunserved.mp hnone)] at hruns
      obtain ⟨-, rfl, -⟩ := hruns
      rfl
    · rw [respond_of_otherContent (Endpoint.check_eq_ok_iff.mpr ⟨hmethod, hpath⟩) hcontent] at hruns
      obtain ⟨-, rfl, -⟩ := hruns
      rfl

def nowhere : Request := ⟨"GET", "/unknown", [], []⟩

def plainLogin : Request := Request.sampleLogin [("content-type", Bytes.ofString "text/plain")]

theorem segments_nowhere (e : Endpoint) : nowhere.segments ≠ e.path := by
  have hsegments : nowhere.segments = ["unknown"] := by decide +kernel
  rw [hsegments]
  cases e <;> decide

theorem otherContent_plainLogin : plainLogin.OtherContent := by
  have hheader : plainLogin.header? "content-type" = some (Bytes.ofString "text/plain") := by decide +kernel
  exact ⟨_, hheader, by decide +kernel⟩

theorem told_not_allowed_of_sample : ∃ events response after,
    (sample.respond nowhere).Runs .empty events response after ∧ response.status = 405 := by
  obtain ⟨⟨events, response, after, hruns⟩, htold⟩ := told_not_allowed_iff sample nowhere .empty
  obtain ⟨-, hstatus, -⟩ := htold events response after hruns
  exact ⟨events, response, after, hruns, hstatus.mpr (Or.inl fun e hpath => absurd hpath (segments_nowhere e))⟩

/-- A path that is not there is told as a method that is not allowed, and so is a login where it is served. -/
theorem not_found_told_not_allowed : (Response.failure .methodNotAllowed none).status = 405 ∧
    (∀ e : Endpoint, nowhere.segments ≠ e.path) ∧
    sample.respond nowhere = .done (.failure .methodNotAllowed none) ∧
    Endpoint.login.check plainLogin = .ok () ∧ sample.respond plainLogin = .done (.failure .methodNotAllowed none) := by
  have hcheck : Endpoint.login.check plainLogin = .ok () := Endpoint.check_sampleLogin _
  refine ⟨rfl, segments_nowhere, respond_of_unserved fun e he => ?_, hcheck, ?_⟩
  · exact segments_nowhere e (Endpoint.check_eq_ok_iff.mp he).2
  · exact respond_of_otherContent hcheck otherContent_plainLogin

end Service

end SessionWarden
