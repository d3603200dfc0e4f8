import SessionWarden.Proofs.Session.Ledger
import SessionWarden.Proofs.Session.Operations
/-!
# Operations without faults

When nothing fails and the clock stands still, each operation has one way to end, up to the order in which a scan
lists the records that may have to give way.
-/

namespace SessionWarden

variable {t after : Table} {events : List Event} {o : FaultFree}

/-! ### Parts without faults -/

/-- The record of an identifier for the client that it is bound to. -/
def Table.claim (t : Table) (time : Instant) (id : TokenId) (signal : Bytes) : Except AuthError Record :=
  match t.get id with
  | none => .error .tokenIncorrect
  | some x =>
    if fingerprint x.user signal ≠ x.fingerprint then .error .fingerprintIncorrect
    else if x.expires < time then .error .tokenExpired
    else .ok x

theorem Table.claim_eq_ok {time : Instant} {id : TokenId} {signal : Bytes} {x : Record}
    (h : t.claim time id signal = .ok x) : t.get id = some x ∧ ¬ x.expires < time := by
  unfold Table.claim at h
  split at h
  · cases h
  · rename_i y hy
    split at h
    · cases h
    · split at h
      · cases h
      · rename_i hlive
        injection h with h
        exact h ▸ ⟨hy, hlive⟩

theorem Sought.of_fits {id : TokenId} {r : Except AuthError Record} (h : Sought t id events r)
    (hfits : ∀ ev ∈ events, ev.Fits o) :
    (t.get id = none ∧ r = .error .tokenIncorrect) ∨ ∃ x, t.get id = some x ∧ r = .ok x := by
  cases h with
  | failed text =>
    have henter : Except.error text = Except.ok () := hfits _ List.mem_cons_self
    cases henter
  | absent h => exact Or.inl ⟨h, rfl⟩
  | found x h => exact Or.inr ⟨x, h, rfl⟩

theorem SoughtBound.of_fits {id : TokenId} {signal : Bytes} {r : Except AuthError Record}
    (h : SoughtBound t id signal events r) (hfits : ∀ ev ∈ events, ev.Fits o) :
    t.claim o.time id signal = r := by
  cases h with
  | lost events err hlost =>
    rcases hlost.of_fits hfits with ⟨hnone, hr⟩ | ⟨x, -, hr⟩
    · rw [hr]
      simp only [Table.claim, hnone]
    · cases hr
  | foreign x h hsignal => simp only [Table.claim, h, ne_eq, hsignal, not_false_eq_true, ite_true]
  | expired x time h hsignal hexp =>
    obtain rfl : time = o.time := hfits ⟨.now, time⟩ (by simp)
    simp only [Table.claim, h, ne_eq, hsignal, not_true_eq_false, ite_false, hexp, ite_true]
  | bound x time h hsignal hlive =>
    obtain rfl : time = o.time := hfits ⟨.now, time⟩ (by simp)
    simp only [Table.claim, h, ne_eq, hsignal, not_true_eq_false, ite_false, hlive]

theorem Made.of_fits {e : Engine} {user : UserId} {signal : Bytes} {persistent : Bool}
    {r : Except AuthError Record} (h : Made e user signal persistent events r)
    (hfits : ∀ ev ∈ events, ev.Fits o) (hadd : (o.time.add? e.params.refreshAge).isSome) :
    r = .ok ((e.entryOn o user signal persistent).record user) ∧ ⟨.mint, o.id⟩ ∈ events := by
  have hadd := Instant.add?_eq_some hadd
  cases h with
  | overflow time h =>
    obtain rfl : time = o.time := hfits ⟨.now, time⟩ (by simp)
    rw [hadd] at h
    cases h
  | made time id x h =>
    obtain rfl : time = o.time := hfits ⟨.now, time⟩ (by simp)
    obtain rfl : id = o.id := hfits ⟨.mint, id⟩ (by simp)
    rw [Engine.recordAt?, hadd] at h
    obtain rfl := Option.some.inj h
    exact ⟨rfl, by simp⟩

theorem Issued.of_fits {e : Engine} {user : UserId} {x : Entry} {r : Except AuthError String}
    (h : Issued e (x.record user) events r) (hfits : ∀ ev ∈ events, ev.Fits o)
    (hadd : (o.time.add? e.params.accessAge).isSome) : r = .ok (e.accessOn o user x) := by
  have hadd := Instant.add?_eq_some hadd
  have hclaims : e.claimsAt o.time (x.record user) (o.roles user) = .ok (e.claimsOn o user x) := by
    simp only [Engine.claimsAt, Issuer.claims, hadd]
    rfl
  cases h with
  | rolesFailed text =>
    have henter : Except.error text = Except.ok () := hfits _ List.mem_cons_self
    cases henter
  | buildFailed roles text =>
    have henter : Except.error text = Except.ok () := hfits ⟨.enter .build, .error text⟩ (by simp)
    cases henter
  | unbuildable roles time fault h =>
    obtain rfl : time = o.time := hfits ⟨.now, time⟩ (by simp)
    obtain rfl : roles = o.roles user := hfits ⟨.roles user, roles⟩ (by simp)
    rw [hclaims] at h
    cases h
  | issued roles time claims signature h hsig =>
    obtain rfl : time = o.time := hfits ⟨.now, time⟩ (by simp)
    obtain rfl : roles = o.roles user := hfits ⟨.roles user, roles⟩ (by simp)
    rw [hclaims] at h
    obtain rfl := Except.ok.inj h
    have hsign : signature = Base64.urlBare.encode (o.sign (Issuer.message e.issuer.algorithm
        (e.claimsOn o user x))) :=
      hfits ⟨.sign e.issuer.signer (Issuer.message e.issuer.algorithm (e.claimsOn o user x)), signature⟩
        (by simp)
    rw [hsign]
    rfl

theorem Rotated.not_refused {id : TokenId} {signal : Bytes} {new old : Record}
    (h : Rotated t id o.time new events (.ok none) after) (hfits : ∀ ev ∈ events, ev.Fits o)
    (hclaim : t.claim o.time id signal = .ok old) : False := by
  obtain ⟨hget, hlive⟩ := Table.claim_eq_ok hclaim
  cases h with
  | refused time hexp =>
    obtain rfl : time = o.time := hfits ⟨.rotationTime id o.time, time⟩ (by simp)
    exact hlive (hexp old hget)

theorem MadeRoom.of_fits {e : Engine} {user : UserId} {r : Except AuthError Unit}
    (h : MadeRoom e user t events r after) (hfits : ∀ ev ∈ events, ev.Fits o) :
    r = .ok () ∧ ∃ found, found.Perm (t.ownedBy user) ∧ after = t.removeAll ((e.evicted found).map Record.id) := by
  cases h with
  | failed text =>
    have henter : Except.error text = Except.ok () := hfits _ List.mem_cons_self
    cases henter
  | stopped found h n text events hmem =>
    have henter : Except.error text = Except.ok () := hfits _ hmem
    cases henter
  | room found h events => exact ⟨rfl, found, h, rfl⟩

/-! ### Operations without faults -/

theorem Opened.of_fits {e : Engine} {user : UserId} {signal : Bytes} {persistent : Bool}
    {r : Except AuthError TokenPair} (h : Opened e user signal persistent t events r after)
    (hfits : ∀ ev ∈ events, ev.Fits o) (haccess : (o.time.add? e.params.accessAge).isSome)
    (hrefresh : (o.time.add? e.params.refreshAge).isSome) :
    ∃ found, found.Perm (t.ownedBy user) ∧ ⟨.mint, o.id⟩ ∈ events ∧
      r = .ok ⟨e.accessOn o user (e.entryOn o user signal persistent),
        (e.entryOn o user signal persistent).record user⟩ ∧
      after = (t.removeAll ((e.evicted found).map Record.id)).insert
        ((e.entryOn o user signal persistent).record user) := by
  cases h with
  | crowded evict err mid hroom =>
    obtain ⟨hr, -⟩ := hroom.of_fits hfits
    cases hr
  | unmade evict make err mid hroom hmake =>
    obtain ⟨hr, -⟩ := hmake.of_fits (fun ev hev => hfits ev (by simp [hev])) hrefresh
    cases hr
  | unstored evict make new mid text hroom hmake =>
    have henter : Except.error text = Except.ok () := hfits ⟨.enter .create, .error text⟩ (by simp)
    cases henter
  | unissued evict make issue new mid err hroom hmake hissue =>
    obtain ⟨hnew, -⟩ := hmake.of_fits (fun ev hev => hfits ev (by simp [hev])) hrefresh
    obtain rfl := Except.ok.inj hnew
    have hr := hissue.of_fits (fun ev hev => hfits ev (by simp [hev])) haccess
    cases hr
  | opened evict make issue new mid access hroom hmake hissue =>
    obtain ⟨-, found, hfound, rfl⟩ := hroom.of_fits fun ev hev => hfits ev (by simp [hev])
    obtain ⟨hnew, hmint⟩ := hmake.of_fits (fun ev hev => hfits ev (by simp [hev])) hrefresh
    obtain rfl := Except.ok.inj hnew
    have hr := hissue.of_fits (fun ev hev => hfits ev (by simp [hev])) haccess
    obtain rfl := Except.ok.inj hr
    exact ⟨found, hfound, by simp [hmint], rfl, rfl⟩

/-- A refresh without faults is refused as the look-up is, or puts a new record in the place of the old. -/
theorem Renewed.of_fits {e : Engine} {id : TokenId} {signal : Bytes} {r : Except AuthError TokenPair}
    (h : Renewed e id signal t events r after) (hfits : ∀ ev ∈ events, ev.Fits o)
    (haccess : (o.time.add? e.params.accessAge).isSome) (hrefresh : (o.time.add? e.params.refreshAge).isSome) :
    (∃ err, t.claim o.time id signal = .error err ∧ r = .error err ∧ after = t) ∨
      ∃ old, t.claim o.time id signal = .ok old ∧ ⟨.mint, o.id⟩ ∈ events ∧
        r = .ok ⟨e.accessOn o old.user (e.entryOn o old.user signal old.persistent),
          (e.entryOn o old.user signal old.persistent).record old.user⟩ ∧
        after = (t.remove id).insert ((e.entryOn o old.user signal old.persistent).record old.user) := by
  cases h with
  | lost look err hlook => exact Or.inl ⟨err, hlook.of_fits hfits, rfl, rfl⟩
  | unmade look make old err hlook hmake =>
    obtain ⟨hr, -⟩ := hmake.of_fits (fun ev hev => hfits ev (by simp [hev])) hrefresh
    cases hr
  | unrotated look make turn old new asked err hlook hmake hturn =>
    cases hturn with
    | failed text =>
      have henter : Except.error text = Except.ok () := hfits ⟨.enter .rotate, .error text⟩ (by simp)
      cases henter
  | expired look make turn old new asked time hlook hmake hturn hexp =>
    have hclaim := hlook.of_fits fun ev hev => hfits ev (by simp [hev])
    obtain rfl : asked = o.time := hfits ⟨.now, asked⟩ (by simp)
    exact (hturn.not_refused (fun ev hev => hfits ev (by simp [hev])) hclaim).elim
  | consumed look make turn old new asked time hlook hmake hturn hlive =>
    have hclaim := hlook.of_fits fun ev hev => hfits ev (by simp [hev])
    obtain rfl : asked = o.time := hfits ⟨.now, asked⟩ (by simp)
    exact (hturn.not_refused (fun ev hev => hfits ev (by simp [hev])) hclaim).elim
  | unissued look make turn issue old new asked err after hlook hmake hturn hissue =>
    obtain ⟨hnew, -⟩ := hmake.of_fits (fun ev hev => hfits ev (by simp [hev])) hrefresh
    obtain rfl := Except.ok.inj hnew
    have hr := hissue.of_fits (fun ev hev => hfits ev (by simp [hev])) haccess
    cases hr
  | renewed look make turn issue old new asked access after hlook hmake hturn hissue =>
    obtain ⟨hnew, hmint⟩ := hmake.of_fits (fun ev hev => hfits ev (by simp [hev])) hrefresh
    obtain rfl := Except.ok.inj hnew
    have hr := hissue.of_fits (fun ev hev => hfits ev (by simp [hev])) haccess
    obtain rfl := Except.ok.inj hr
    have hclaim := hlook.of_fits fun ev hev => hfits ev (by simp [hev])
    cases hturn with
    | replaced time x hx hlive => exact Or.inr ⟨old, hclaim, by simp [hmint], rfl, rfl⟩

theorem Read.of_fits {id : TokenId} {r : Except AuthError Record} (h : Read id t events r)
    (hfits : ∀ ev ∈ events, ev.Fits o) :
    (t.get id = none ∧ r = .error .tokenIncorrect) ∨
      ∃ x, t.get id = some x ∧ r = if x.expires < o.time then .error .tokenExpired else .ok x := by
  cases h with
  | lost events err hlook =>
    rcases hlook.of_fits hfits with hnone | ⟨x, -, hr⟩
    · exact Or.inl hnone
    · cases hr
  | expired look x time hlook hexp =>
    obtain rfl : time = o.time := hfits ⟨.now, time⟩ (by simp)
    rcases hlook.of_fits (fun ev hev => hfits ev (by simp [hev])) with ⟨-, hr⟩ | ⟨y, hy, hr⟩
    · cases hr
    · obtain rfl := Except.ok.inj hr
      exact Or.inr ⟨x, hy, by rw [if_pos hexp]⟩
  | read look x time hlook hlive =>
    obtain rfl : time = o.time := hfits ⟨.now, time⟩ (by simp)
    rcases hlook.of_fits (fun ev hev => hfits ev (by simp [hev])) with ⟨-, hr⟩ | ⟨y, hy, hr⟩
    · cases hr
    · obtain rfl := Except.ok.inj hr
      exact Or.inr ⟨x, hy, by rw [if_neg hlive]⟩

theorem Closed.of_fits {id : TokenId} {signal : Bytes} {remove : Record → Table} {r : Except AuthError Unit}
    (h : Closed id signal remove t events r after) (hfits : ∀ ev ∈ events, ev.Fits o) :
    (∃ err, t.claim o.time id signal = .error err ∧ r = .error err ∧ after = t) ∨
      ∃ x, t.claim o.time id signal = .ok x ∧ r = .ok () ∧ after = remove x := by
  cases h with
  | lost events err hlook => exact Or.inl ⟨err, hlook.of_fits hfits, rfl, rfl⟩
  | failed look x m text hlook =>
    have henter : Except.error text = Except.ok () := hfits ⟨.enter m, .error text⟩ (by simp)
    cases henter
  | closed look x m c reply n hlook =>
    exact Or.inr ⟨x, hlook.of_fits fun ev hev => hfits ev (by simp [hev]), rfl, rfl⟩

end SessionWarden
