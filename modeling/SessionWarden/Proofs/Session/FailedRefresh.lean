import SessionWarden.Proofs.Session.Operations
import SessionWarden.Proofs.Session.Traffic
/-!
# What a failed refresh leaves behind

A refresh that fails before it begins to issue a credential leaves the table as it was. Once it has begun, the
rotation has taken place, and a failure costs the client the token that it presented: the table holds the
successor, which nobody was told about.
-/

namespace SessionWarden

variable {t after : Table} {events : List Event}

/-- Whether the issue of a credential has begun: its first question is about the look-up of roles. -/
def IssueBegan (events : List Event) : Prop := ∃ ev ∈ events, ev.query = .enter .roles

/-! ### Which parts issue -/

theorem issueBegan_append {first rest : List Event} :
    IssueBegan (first ++ rest) ↔ IssueBegan first ∨ IssueBegan rest := by
  simp only [IssueBegan, List.mem_append, or_and_right, exists_or]

theorem issueBegan_cons {ev : Event} : IssueBegan (ev :: events) ↔ ev.query = .enter .roles ∨ IssueBegan events := by
  simp only [IssueBegan, List.mem_cons, or_and_right, exists_or, exists_eq_left]

@[simp] theorem not_issueBegan_nil : ¬ IssueBegan [] := by
  rintro ⟨ev, hev, -⟩
  cases hev

theorem Sought.not_issueBegan {id : TokenId} {r : Except AuthError Record} (h : Sought t id events r) :
    ¬ IssueBegan events := by
  cases h <;> simp [issueBegan_cons]

theorem SoughtBound.not_issueBegan {id : TokenId} {signal : Bytes} {r : Except AuthError Record}
    (h : SoughtBound t id signal events r) : ¬ IssueBegan events := by
  cases h with
  | lost events err hlost => exact hlost.not_issueBegan
  | foreign x h hsignal => simp [issueBegan_cons]
  | expired x time h hsignal hexp => simp [issueBegan_cons]
  | bound x time h hsignal hlive => simp [issueBegan_cons]

theorem Made.not_issueBegan {e : Engine} {user : UserId} {signal : Bytes} {persistent : Bool}
    {r : Except AuthError Record} (h : Made e user signal persistent events r) : ¬ IssueBegan events := by
  cases h <;> simp [issueBegan_cons]

theorem Rotated.not_issueBegan {id : TokenId} {asked : Instant} {new : Record}
    {r : Except AuthError (Option Record)} (h : Rotated t id asked new events r after) :
    ¬ IssueBegan events := by
  cases h <;> simp [issueBegan_cons]

theorem Issued.began {e : Engine} {x : Record} {r : Except AuthError String} (h : Issued e x events r) :
    IssueBegan events := by
  cases h <;> simp [issueBegan_cons]

/-- A credential is not issued because the roles cannot be looked up or it cannot be signed. -/
theorem Issued.error_cases {e : Engine} {x : Record} {err : AuthError} (h : Issued e x events (.error err)) :
    (∃ text, err = .store text) ∨ ∃ text, err = .ofCredential (.signing text) := by
  cases h with
  | rolesFailed text => exact Or.inl ⟨text, rfl⟩
  | buildFailed roles text => exact Or.inr ⟨text, rfl⟩
  | unbuildable roles time fault h => exact Or.inr ⟨fault.message, rfl⟩

/-! ### The table after a failure -/

/-- What takes the place of a record when its refresh fails too late: a record of the same session with an
identifier and an expiry of its own. -/
structure Successor (e : Engine) (events : List Event) (old new : Record) : Prop where
  user_eq : new.user = old.user
  persistent_eq : new.persistent = old.persistent
  fingerprint_eq : new.fingerprint = old.fingerprint
  minted : ⟨.mint, new.id⟩ ∈ events
  expires : ∃ time, ⟨.now, time⟩ ∈ events ∧ time.add? e.params.refreshAge = some new.expires

theorem Made.successor {e : Engine} {signal : Bytes} {old new : Record}
    (h : Made e old.user signal old.persistent events (.ok new))
    (hsignal : SessionWarden.fingerprint old.user signal = old.fingerprint) :
    Successor e events old new := by
  cases h with
  | made time id _ hmade =>
    obtain ⟨expires, hadd, rfl⟩ := Option.map_eq_some_iff.mp hmade
    exact ⟨rfl, rfl, hsignal, by simp, time, by simp, hadd⟩

theorem Successor.mono {e : Engine} {more : List Event} {old new : Record} (h : Successor e events old new)
    (hmore : ∀ ev ∈ events, ev ∈ more) : Successor e more old new := by
  obtain ⟨time, htime, hadd⟩ := h.expires
  exact ⟨h.user_eq, h.persistent_eq, h.fingerprint_eq, hmore _ h.minted, time, hmore _ htime, hadd⟩

/-- A refresh that fails leaves the table as it was, unless the issue of a credential has begun. Then the look-up
of roles or the signing failed, and the table differs in one thing: the successor of the record that was presented
is in its place. -/
theorem refresh_error {e : Engine} {id : TokenId} {signal : Bytes} {err : AuthError}
    (h : (e.refresh id signal).Runs t events (.error err) after) :
    (¬ IssueBegan events → after = t) ∧
    (IssueBegan events → ((∃ text, err = .store text) ∨ ∃ text, err = .ofCredential (.signing text)) ∧
      ∃ old new, t.get id = some old ∧ Successor e events old new ∧ after = (t.remove id).insert new) := by
  cases runs_refresh h with
  | lost look err hlook => exact ⟨fun _ => rfl, fun hbegan => absurd hbegan hlook.not_issueBegan⟩
  | unmade look make old err hlook hmake =>
    have hnone : ¬ IssueBegan (look ++ make) := by
      simp [issueBegan_append, hlook.not_issueBegan, hmake.not_issueBegan]
    exact ⟨fun _ => rfl, fun hbegan => absurd hbegan hnone⟩
  | unrotated look make turn old new asked err hlook hmake hturn =>
    have hnone : ¬ IssueBegan (look ++ (make ++ (⟨.now, asked⟩ :: turn))) := by
      simp [issueBegan_append, issueBegan_cons, hlook.not_issueBegan, hmake.not_issueBegan,
        hturn.not_issueBegan]
    exact ⟨fun _ => rfl, fun hbegan => absurd hbegan hnone⟩
  | expired look make turn old new asked time hlook hmake hturn hexp =>
    have hnone : ¬ IssueBegan (look ++ (make ++ (⟨.now, asked⟩ ::
        (turn ++ [⟨.now, time⟩, ⟨.note (.tokenExpiredDuringRotation id), ()⟩])))) := by
      simp [issueBegan_append, issueBegan_cons, hlook.not_issueBegan, hmake.not_issueBegan,
        hturn.not_issueBegan]
    exact ⟨fun _ => rfl, fun hbegan => absurd hbegan hnone⟩
  | consumed look make turn old new asked time hlook hmake hturn hlive =>
    have hnone : ¬ IssueBegan (look ++ (make ++ (⟨.now, asked⟩ ::
        (turn ++ [⟨.now, time⟩, ⟨.note (.tokenConsumedConcurrently id), ()⟩])))) := by
      simp [issueBegan_append, issueBegan_cons, hlook.not_issueBegan, hmake.not_issueBegan,
        hturn.not_issueBegan]
    exact ⟨fun _ => rfl, fun hbegan => absurd hbegan hnone⟩
  | unissued look make turn issue old new asked err after hlook hmake hturn hissue =>
    have hbegan : IssueBegan (look ++ (make ++ (⟨.now, asked⟩ :: (turn ++ issue)))) := by
      simp [issueBegan_append, issueBegan_cons, hissue.began]
    refine ⟨fun hnone => absurd hbegan hnone, fun _ => ⟨hissue.error_cases, old, new, ?_⟩⟩
    obtain ⟨hget, -, hsignal⟩ := hlook.eq_some
    have hsuccessor : Successor e (look ++ (make ++ (⟨.now, asked⟩ :: (turn ++ issue)))) old new :=
      (hmake.successor hsignal).mono fun ev hev => List.mem_append_right _ (List.mem_append_left _ hev)
    cases hturn with
    | replaced time x hx hlive => exact ⟨hget, hsuccessor, rfl⟩

/-! ### Any usable token can be lost -/

open SessionWarden.Action (runs_bind) in
theorem runs_findBound_bound {id : TokenId} {signal : Bytes} {old : Record} {time : Instant}
    (hget : t.get id = some old) (hsignal : fingerprint old.user signal = old.fingerprint)
    (hlive : ¬ old.expires < time) :
    (Engine.findBound id signal).Runs t
      [⟨.enter .getById, .ok ()⟩, ⟨.table (.get id), some old⟩, ⟨.now, time⟩] (.ok old) t := by
  have hfind : (Engine.find id).Runs t [⟨.enter .getById, .ok ()⟩, ⟨.table (.get id), some old⟩] (.ok old) t :=
    ⟨.ok (), t, _, rfl, rfl, some old, t, _, rfl, ⟨hget.symm, rfl⟩, rfl, rfl, rfl⟩
  have hcheck : checkFingerprint old.user signal old.fingerprint = .ok () :=
    checkFingerprint_ok_iff.mpr hsignal
  refine runs_bind.mpr (Or.inl ⟨_, [⟨.now, time⟩], old, t, hfind, ?_, rfl⟩)
  simp only [hcheck]
  refine ⟨time, t, [], rfl, rfl, ?_⟩
  show Script.Runs (if old.isExpiredAt time then _ else _) _ _ _ _
  rw [if_neg (by simpa [Record.isExpiredAt] using hlive)]
  exact ⟨rfl, rfl, rfl⟩

open SessionWarden.Action (runs_bind) in
theorem runs_rotate_live {id : TokenId} {old new : Record} {time : Instant} (hget : t.get id = some old)
    (hlive : ¬ old.expires < time) :
    (Repository.rotate id time new).Runs t
      [⟨.enter .rotate, .ok ()⟩, ⟨.rotationTime id time, time⟩, ⟨.table (.removeLive id time), true⟩,
        ⟨.table (.insert new), ()⟩]
      (.ok (some new)) ((t.remove id).insert new) := by
  have hperform : (TableCall.removeLive id time).perform t = (true, t.remove id) := by
    rcases removeLive_cases t id time with ⟨hexpired, -⟩ | ⟨x, -, -, hperform⟩
    · exact absurd (hexpired old hget) hlive
    · exact hperform
  refine ⟨.ok (), t, _, rfl, rfl, time, t, _, rfl, rfl, true, t.remove id, _, rfl, ?_, ?_⟩
  · exact ⟨(congrArg Prod.fst hperform).symm, (congrArg Prod.snd hperform).symm⟩
  · exact ⟨(), _, [], rfl, ⟨rfl, rfl⟩, rfl, rfl, rfl⟩

theorem runs_newRecord_made {e : Engine} {user : UserId} {signal : Bytes} {persistent : Bool} {id : TokenId}
    {new : Record} {time : Instant} (hnew : e.recordAt? time id user signal persistent = some new) :
    (e.newRecord user signal persistent).Runs t [⟨.now, time⟩, ⟨.mint, id⟩] (.ok new) t := by
  obtain ⟨expires, hadd, rfl⟩ := Option.map_eq_some_iff.mp hnew
  refine ⟨time, t, _, rfl, rfl, ?_⟩
  show Action.Runs (do let expires ← Action.orThrow _ (time.add? e.params.refreshAge); _) _ _ _ _
  rw [hadd]
  exact ⟨id, t, [], rfl, rfl, rfl, rfl, rfl⟩

open SessionWarden.Action (runs_bind) in
/-- Whatever record a refresh could renew, a failing look-up of roles puts its successor in its place. -/
theorem exists_lossy_refresh (e : Engine) {id fresh : TokenId} {signal : Bytes} {old new : Record}
    {time : Instant} (text : String) (hget : t.get id = some old)
    (hsignal : fingerprint old.user signal = old.fingerprint) (hlive : ¬ old.expires < time)
    (hnew : e.recordAt? time fresh old.user signal old.persistent = some new) :
    ∃ events, (e.refresh id signal).Runs t events (.error (.store text)) ((t.remove id).insert new) ∧
      IssueBegan events := by
  obtain rfl : old.id = id := (Table.get_eq_some_iff.mp hget).2
  obtain ⟨look, hlook⟩ : ∃ look, (Engine.findBound old.id signal).Runs t look (.ok old) t :=
    ⟨_, runs_findBound_bound hget hsignal hlive⟩
  obtain ⟨make, hmake⟩ : ∃ make, (e.newRecord old.user signal old.persistent).Runs t make (.ok new) t :=
    ⟨_, runs_newRecord_made hnew⟩
  obtain ⟨turn, hrotate⟩ : ∃ turn, (Repository.rotate old.id time new).Runs t turn (.ok (some new))
      ((t.remove old.id).insert new) := ⟨_, runs_rotate_live hget hlive⟩
  have hissue : (e.issueAccess new).Runs ((t.remove old.id).insert new) [⟨.enter .roles, .error text⟩]
      (.error (.store text)) ((t.remove old.id).insert new) := ⟨.error text, _, [], rfl, rfl, rfl, rfl, rfl⟩
  refine ⟨look ++ (make ++ (⟨.now, time⟩ :: (turn ++ [⟨.enter .roles, .error text⟩]))), ?_, ?_⟩
  · refine runs_bind.mpr (Or.inl ⟨_, _, old, t, hlook, ?_, rfl⟩)
    refine runs_bind.mpr (Or.inl ⟨_, _, new, t, hmake, ?_, rfl⟩)
    refine ⟨time, t, _, rfl, rfl, ?_⟩
    refine runs_bind.mpr (Or.inl ⟨_, _, some new, _, hrotate, ?_, rfl⟩)
    exact runs_bind.mpr (Or.inr ⟨_, hissue, rfl⟩)
  · simp [issueBegan_append, issueBegan_cons]

theorem Engine.sample_renewable : (Table.empty.insert Record.sample).get default = some Record.sample ∧
    fingerprint Record.sample.user [] = Record.sample.fingerprint ∧ ¬ Record.sample.expires < ⟨0⟩ ∧
    Engine.sample.recordAt? ⟨0⟩ ⟨.ofNat 1⟩ Record.sample.user [] Record.sample.persistent =
      some { Record.sample with id := ⟨.ofNat 1⟩ } := by
  refine ⟨Table.get_eq_some_iff.mpr ⟨Table.mem_insert.mpr (Or.inl rfl), rfl⟩, ?_, by decide, ?_⟩
  · simp only [Record.sample]
  · exact Option.map_eq_some_iff.mpr ⟨⟨86400000000000⟩, by decide, by simp only [Record.sample]⟩

theorem Engine.sample_lossy : ∃ events, (Engine.sample.refresh default []).Runs (Table.empty.insert Record.sample)
    events (.error (.store "down"))
    (((Table.empty.insert Record.sample).remove default).insert { Record.sample with id := ⟨.ofNat 1⟩ }) ∧
    IssueBegan events := by
  obtain ⟨hget, hsignal, hlive, hnew⟩ := Engine.sample_renewable
  exact exists_lossy_refresh Engine.sample "down" hget hsignal hlive hnew

theorem refresh_error_not_unchanged : ¬ ∀ (e : Engine) (t after : Table) (id : TokenId) (signal : Bytes)
    (events : List Event) (err : AuthError), (e.refresh id signal).Runs t events (.error err) after →
      after = t := by
  intro hall
  obtain ⟨events, hruns, -⟩ := Engine.sample_lossy
  have hsame := hall _ _ _ _ _ _ _ hruns
  have hmem : Record.sample ∈ (((Table.empty.insert Record.sample).remove default).insert
      { Record.sample with id := ⟨.ofNat 1⟩ }).records := by
    rw [hsame]
    exact Table.mem_insert.mpr (Or.inl rfl)
  rcases Table.mem_insert.mp hmem with hnew | ⟨hold, -⟩
  · have hid : (default : TokenId) = ⟨.ofNat 1⟩ := congrArg Record.id hnew
    exact absurd hid (by decide)
  · exact (Table.mem_remove.mp hold).2 rfl

theorem refresh_error_of_sample : ∃ events, IssueBegan events ∧ ∃ old new,
    (Table.empty.insert Record.sample).get default = some old ∧ Successor Engine.sample events old new := by
  obtain ⟨events, hruns, hbegan⟩ := Engine.sample_lossy
  obtain ⟨-, old, new, hold, hsuccessor, -⟩ := (refresh_error hruns).2 hbegan
  exact ⟨events, hbegan, old, new, hold, hsuccessor⟩

end SessionWarden
