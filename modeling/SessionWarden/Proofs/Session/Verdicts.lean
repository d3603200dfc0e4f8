import Mathlib.Tactic.ByContra
import SessionWarden.Proofs.Session.Faultless
/-!
# How the operations on an identifier decide

An operation on an identifier that nothing disturbs is decided by three things, which are looked at in this order:
whether there is a record of the identifier, whether the record is bound to the client, and whether it has expired.
What is granted concerns the record of the identifier, or all records of its user, and the rest of the table stays.
-/

namespace SessionWarden

variable {t after : Table} {events : List Event} {o : FaultFree}

/-! ### Reasons -/

/-- Whether a record is bound to a client: its fingerprint is the SHA-256 digest of the client's signal and the bytes of
the user. -/
def Record.BoundTo (x : Record) (signal : Bytes) : Prop :=
  Digest.sha256.hash (signal ++ x.user.uuid.bytes) = x.fingerprint

/-- How the result of an operation on an identifier is decided. -/
structure Decided {α : Type} (t : Table) (time : Instant) (id : TokenId) (bound : Record → Prop)
    (r : Except AuthError α) : Prop where
  incorrect_iff : r = .error .tokenIncorrect ↔ ∀ x ∈ t.records, x.id ≠ id
  foreign_iff : r = .error .fingerprintIncorrect ↔ ∃ x ∈ t.records, x.id = id ∧ ¬ bound x
  expired_iff : r = .error .tokenExpired ↔ ∃ x ∈ t.records, x.id = id ∧ bound x ∧ x.expires < time
  granted_iff : (∃ a, r = .ok a) ↔ ∃ x ∈ t.records, x.id = id ∧ bound x ∧ ¬ x.expires < time

theorem Table.exists_of_get_iff {id : TokenId} {x : Record} (hx : t.get id = some x) {p : Record → Prop} :
    (∃ y ∈ t.records, y.id = id ∧ p y) ↔ p x := by
  obtain ⟨hmem, hid⟩ := get_eq_some_iff.mp hx
  constructor
  · rintro ⟨y, hy, hyid, hp⟩
    exact eq_of_mem_of_id_eq hy hmem (hyid.trans hid.symm) ▸ hp
  · exact fun hp => ⟨x, hmem, hid, hp⟩

namespace Decided

variable {α : Type} {time : Instant} {id : TokenId} {bound : Record → Prop} {x : Record} {r : Except AuthError α}

theorem of_absent (h : t.get id = none) :
    Decided t time id bound (.error .tokenIncorrect : Except AuthError α) := by
  have hnone := Table.get_eq_none_iff.mp h
  have hno : ∀ p : Record → Prop, ¬ ∃ x ∈ t.records, x.id = id ∧ p x := by
    rintro p ⟨x, hx, hid, -⟩
    exact hnone x hx hid
  constructor
  · exact ⟨fun _ => hnone, fun _ => rfl⟩
  · simp [hno]
  · simp [hno]
  · simp [hno]

theorem of_found (hx : t.get id = some x) (hforeign : r = .error .fingerprintIncorrect ↔ ¬ bound x)
    (hexpired : r = .error .tokenExpired ↔ bound x ∧ x.expires < time)
    (hgranted : (∃ a, r = .ok a) ↔ bound x ∧ ¬ x.expires < time) (hr : r ≠ .error .tokenIncorrect) :
    Decided t time id bound r where
  incorrect_iff := by
    obtain ⟨hmem, hid⟩ := Table.get_eq_some_iff.mp hx
    exact ⟨fun h => absurd h hr, fun h => absurd hid (h x hmem)⟩
  foreign_iff := hforeign.trans (Table.exists_of_get_iff hx (p := fun x => ¬ bound x)).symm
  expired_iff := hexpired.trans (Table.exists_of_get_iff hx (p := fun x => bound x ∧ x.expires < time)).symm
  granted_iff := hgranted.trans (Table.exists_of_get_iff hx (p := fun x => bound x ∧ ¬ x.expires < time)).symm

/-- An operation for the client that a record is bound to is decided as the look-up is. -/
theorem of_claim {signal : Bytes} (h : (∃ err, t.claim time id signal = .error err ∧ r = .error err) ∨
      ∃ x a, t.claim time id signal = .ok x ∧ r = .ok a) : Decided t time id (·.BoundTo signal) r := by
  cases hget : t.get id with
  | none =>
    have hclaim : t.claim time id signal = .error .tokenIncorrect := by simp only [Table.claim, hget]
    rw [hclaim] at h
    obtain ⟨_, ⟨⟩, rfl⟩ | ⟨_, _, ⟨⟩, -⟩ := h
    exact of_absent hget
  | some x =>
    by_cases hbound : x.BoundTo signal
    · by_cases hexp : x.expires < time
      · have hclaim : t.claim time id signal = .error .tokenExpired := by
          rw [Table.claim, hget]
          exact (if_neg (not_not.mpr hbound)).trans (if_pos hexp)
        rw [hclaim] at h
        obtain ⟨_, ⟨⟩, rfl⟩ | ⟨_, _, ⟨⟩, -⟩ := h
        exact of_found hget (by simp [hbound]) (by simp [hbound, hexp]) (by simp [hexp]) (by simp)
      · have hclaim : t.claim time id signal = .ok x := by
          rw [Table.claim, hget]
          exact (if_neg (not_not.mpr hbound)).trans (if_neg hexp)
        rw [hclaim] at h
        obtain ⟨_, ⟨⟩, -⟩ | ⟨_, a, -, rfl⟩ := h
        exact of_found hget (by simp [hbound]) (by simp [hexp]) (by simp [hbound, hexp]) (by simp)
    · have hclaim : t.claim time id signal = .error .fingerprintIncorrect := by
        rw [Table.claim, hget]
        exact if_pos hbound
      rw [hclaim] at h
      obtain ⟨_, ⟨⟩, rfl⟩ | ⟨_, _, ⟨⟩, -⟩ := h
      exact of_found hget (by simp [hbound]) (by simp [hbound]) (by simp [hbound]) (by simp)

end Decided

/-! ### What is granted -/

/-- How an operation on an identifier ends: as is decided, with the table as it was if it is refused, and with what it
is for if it is granted. -/
structure Judged {α : Type} (t : Table) (time : Instant) (id : TokenId) (bound : Record → Prop)
    (granted : Record → α → Table → Prop) (r : Except AuthError α) (after : Table) : Prop where
  decided : Decided t time id bound r
  of_error : ∀ err, r = .error err → after = t
  of_ok : ∀ a, r = .ok a → ∃ x ∈ t.records, x.id = id ∧ granted x a after

/-- How a new record takes the place of an old one: it is of the same session, it expires at its full age, and of all
other records none is touched, unless one has the identifier that was drawn. -/
structure Replaces (e : Engine) (o : FaultFree) (t : Table) (old new : Record) (after : Table) : Prop where
  id_eq : new.id = o.id
  user_eq : new.user = old.user
  persistent_eq : new.persistent = old.persistent
  fingerprint_eq : new.fingerprint = old.fingerprint
  expires_eq : o.time.add? e.params.refreshAge = some new.expires
  after_eq : after = (t.remove old.id).insert new
  mem_iff : (∀ x ∈ t.records, x ≠ old → x.id ≠ new.id) →
    ∀ x, x ∈ after.records ↔ x = new ∨ (x ∈ t.records ∧ x ≠ old)

theorem Table.mem_remove_of_mem {x y : Record} (hx : x ∈ t.records) :
    y ∈ (t.remove x.id).records ↔ y ∈ t.records ∧ y ≠ x := by
  rw [mem_remove, and_congr_right_iff]
  intro hy
  exact ⟨fun hid heq => hid (congrArg Record.id heq), fun hne hid => hne (eq_of_mem_of_id_eq hy hx hid)⟩

theorem Replaces.of_entry {e : Engine} {signal : Bytes} {old : Record} (hold : old ∈ t.records)
    (hbound : fingerprint old.user signal = old.fingerprint) (hadd : (o.time.add? e.params.refreshAge).isSome) :
    Replaces e o t old ((e.entryOn o old.user signal old.persistent).record old.user)
      ((t.remove old.id).insert ((e.entryOn o old.user signal old.persistent).record old.user)) where
  id_eq := rfl
  user_eq := rfl
  persistent_eq := rfl
  fingerprint_eq := hbound
  expires_eq := Instant.add?_eq_some hadd
  after_eq := rfl
  mem_iff hfresh x := by
    rw [Table.mem_insert, Table.mem_remove_of_mem hold]
    constructor
    · rintro (rfl | ⟨hx, -⟩)
      · exact Or.inl rfl
      · exact Or.inr hx
    · rintro (rfl | ⟨hx, hne⟩)
      · exact Or.inl rfl
      · exact Or.inr ⟨⟨hx, hne⟩, hfresh x hx hne⟩

theorem Table.bound_of_claim {time : Instant} {id : TokenId} {signal : Bytes} {x : Record}
    (h : t.claim time id signal = .ok x) : fingerprint x.user signal = x.fingerprint := by
  by_contra hne
  have hclaim : t.claim time id signal = .error .fingerprintIncorrect := by
    rw [claim, (claim_eq_ok h).1]
    exact if_pos hne
  rw [hclaim] at h
  cases h

/-! ### Rotations that are refused -/

def RotationRefused (events : List Event) : Prop := ∃ id time, (⟨.table (.removeLive id time), false⟩ : Event) ∈ events

theorem rotationRefused_append {first rest : List Event} :
    RotationRefused (first ++ rest) ↔ RotationRefused first ∨ RotationRefused rest := by
  simp only [RotationRefused, List.mem_append, exists_or]

theorem rotationRefused_cons {ev : Event} : RotationRefused (ev :: events) ↔
    (∃ id time, ev = ⟨.table (.removeLive id time), false⟩) ∨ RotationRefused events := by
  simp only [RotationRefused, List.mem_cons, exists_or, eq_comm]

@[simp] theorem not_rotationRefused_nil : ¬ RotationRefused [] := by
  rintro ⟨id, time, hev⟩
  cases hev

theorem Sought.not_rotationRefused {id : TokenId} {r : Except AuthError Record} (h : Sought t id events r) :
    ¬ RotationRefused events := by
  cases h <;> simp [rotationRefused_cons]

theorem SoughtBound.not_rotationRefused {id : TokenId} {signal : Bytes} {r : Except AuthError Record}
    (h : SoughtBound t id signal events r) : ¬ RotationRefused events := by
  cases h with
  | lost events err hlost => exact hlost.not_rotationRefused
  | foreign x h hsignal => simp [rotationRefused_cons]
  | expired x time h hsignal hexp => simp [rotationRefused_cons]
  | bound x time h hsignal hlive => simp [rotationRefused_cons]

theorem Made.not_rotationRefused {e : Engine} {user : UserId} {signal : Bytes} {persistent : Bool}
    {r : Except AuthError Record} (h : Made e user signal persistent events r) : ¬ RotationRefused events := by
  cases h <;> simp [rotationRefused_cons]

theorem Issued.not_rotationRefused {e : Engine} {x : Record} {r : Except AuthError String}
    (h : Issued e x events r) : ¬ RotationRefused events := by
  cases h <;> simp [rotationRefused_cons]

theorem Rotated.not_rotationRefused {id : TokenId} {signal : Bytes} {old new : Record}
    {r : Except AuthError (Option Record)} (h : Rotated t id o.time new events r after)
    (hfits : ∀ ev ∈ events, ev.Fits o) (hclaim : t.claim o.time id signal = .ok old) : ¬ RotationRefused events := by
  cases h with
  | failed text => simp [rotationRefused_cons]
  | refused time hexp =>
    have hturn : Rotated t id o.time new _ (.ok none) t := .refused time hexp
    exact (hturn.not_refused hfits hclaim).elim
  | replaced time x hx hlive => simp [rotationRefused_cons]

/-- A renewal that has come to its rotation while the clock stands still is not refused: what the look-up found live is
live. -/
theorem not_rotationRefused_of_parts {e : Engine} {id : TokenId} {signal : Bytes} {old new : Record} {asked : Instant}
    {look make turn more : List Event} {r : Except AuthError (Option Record)} {mid : Table}
    (hlook : SoughtBound t id signal look (.ok old)) (hmake : Made e old.user signal old.persistent make (.ok new))
    (hturn : Rotated t id asked new turn r mid) (hmore : ¬ RotationRefused more)
    (hfits : ∀ ev ∈ look ++ (make ++ (⟨.now, asked⟩ :: (turn ++ more))), ev.Fits o) :
    ¬ RotationRefused (look ++ (make ++ (⟨.now, asked⟩ :: (turn ++ more)))) := by
  have hclaim := hlook.of_fits fun ev hev => hfits ev (by simp [hev])
  obtain rfl : asked = o.time := hfits ⟨.now, asked⟩ (by simp)
  have hrotation := hturn.not_rotationRefused (fun ev hev => hfits ev (by simp [hev])) hclaim
  simp [rotationRefused_append, rotationRefused_cons, hlook.not_rotationRefused, hmake.not_rotationRefused, hrotation,
    hmore]

theorem Renewed.not_rotationRefused {e : Engine} {id : TokenId} {signal : Bytes} {r : Except AuthError TokenPair}
    (h : Renewed e id signal t events r after) (hfits : ∀ ev ∈ events, ev.Fits o) : ¬ RotationRefused events := by
  cases h with
  | lost look err hlook => exact hlook.not_rotationRefused
  | unmade look make old err hlook hmake =>
    simp [rotationRefused_append, hlook.not_rotationRefused, hmake.not_rotationRefused]
  | unrotated look make turn old new asked err hlook hmake hturn =>
    rw [← List.append_nil turn] at hfits ⊢
    exact not_rotationRefused_of_parts hlook hmake hturn not_rotationRefused_nil hfits
  | expired look make turn old new asked time hlook hmake hturn hexp =>
    exact not_rotationRefused_of_parts hlook hmake hturn (by simp [rotationRefused_cons]) hfits
  | consumed look make turn old new asked time hlook hmake hturn hlive =>
    exact not_rotationRefused_of_parts hlook hmake hturn (by simp [rotationRefused_cons]) hfits
  | unissued look make turn issue old new asked err after hlook hmake hturn hissue =>
    exact not_rotationRefused_of_parts hlook hmake hturn hissue.not_rotationRefused hfits
  | renewed look make turn issue old new asked access after hlook hmake hturn hissue =>
    refine not_rotationRefused_of_parts hlook hmake hturn ?_ hfits
    simp [rotationRefused_append, rotationRefused_cons, hissue.not_rotationRefused]

/-! ### The four operations -/

/-- What is sure of an action without faults: it comes to its end, and whatever comes of it is such. -/
def Action.Surely {α : Type} (a : Action α) (o : FaultFree) (t : Table)
    (post : List Event → Except AuthError α → Table → Prop) : Prop :=
  (∃ events r after, a.Runs t events r after ∧ ∀ ev ∈ events, ev.Fits o) ∧
    ∀ events r after, a.Runs t events r after → (∀ ev ∈ events, ev.Fits o) → post events r after

theorem Action.surely {α : Type} {a : Action α} {post : List Event → Except AuthError α → Table → Prop}
    (h : ∀ events r after, a.Runs t events r after → (∀ ev ∈ events, ev.Fits o) → post events r after) :
    a.Surely o t post := ⟨Script.exists_fitting_run a.run o t, h⟩

theorem Closed.judged {id : TokenId} {signal : Bytes} {remove : Record → Table} {r : Except AuthError Unit}
    {granted : Record → Unit → Table → Prop} (h : Closed id signal remove t events r after)
    (hfits : ∀ ev ∈ events, ev.Fits o) (hgranted : ∀ x ∈ t.records, x.id = id → granted x () (remove x)) :
    Judged t o.time id (·.BoundTo signal) granted r after := by
  obtain ⟨err, hclaim, rfl, rfl⟩ | ⟨x, hclaim, rfl, rfl⟩ := h.of_fits hfits
  · exact ⟨.of_claim (Or.inl ⟨err, hclaim, rfl⟩), fun _ _ => rfl, by simp⟩
  · obtain ⟨hmem, hid⟩ := Table.get_eq_some_iff.mp (Table.claim_eq_ok hclaim).1
    exact ⟨.of_claim (Or.inr ⟨x, (), hclaim, rfl⟩), by simp, fun _ _ => ⟨x, hmem, hid, hgranted x hmem hid⟩⟩

theorem Read.judged {id : TokenId} {r : Except AuthError Record} (h : Read id t events r)
    (hfits : ∀ ev ∈ events, ev.Fits o) :
    Judged t o.time id (fun _ => True) (fun x y after => y = x ∧ after = t) r t := by
  obtain ⟨hnone, rfl⟩ | ⟨x, hget, rfl⟩ := h.of_fits hfits
  · exact ⟨.of_absent hnone, fun _ _ => rfl, by simp⟩
  · obtain ⟨hmem, hid⟩ := Table.get_eq_some_iff.mp hget
    by_cases hexp : x.expires < o.time
    · rw [if_pos hexp]
      exact ⟨.of_found hget (by simp) (by simp [hexp]) (by simp [hexp]) (by simp), fun _ _ => rfl, by simp⟩
    · rw [if_neg hexp]
      refine ⟨.of_found hget (by simp) (by simp [hexp]) (by simp [hexp]) (by simp), by simp, ?_⟩
      rintro y ⟨⟩
      exact ⟨x, hmem, hid, rfl, rfl⟩

theorem Renewed.judged {e : Engine} {id : TokenId} {signal : Bytes} {r : Except AuthError TokenPair}
    (h : Renewed e id signal t events r after) (hfits : ∀ ev ∈ events, ev.Fits o)
    (haccess : (o.time.add? e.params.accessAge).isSome) (hrefresh : (o.time.add? e.params.refreshAge).isSome) :
    Judged t o.time id (·.BoundTo signal) (fun old p after => Replaces e o t old p.refresh after) r after := by
  obtain ⟨err, hclaim, rfl, rfl⟩ | ⟨old, hclaim, -, rfl, rfl⟩ := h.of_fits hfits haccess hrefresh
  · exact ⟨.of_claim (Or.inl ⟨err, hclaim, rfl⟩), fun _ _ => rfl, by simp⟩
  · obtain ⟨hmem, rfl⟩ := Table.get_eq_some_iff.mp (Table.claim_eq_ok hclaim).1
    refine ⟨.of_claim (Or.inr ⟨old, _, hclaim, rfl⟩), by simp, ?_⟩
    rintro p ⟨⟩
    exact ⟨old, hmem, rfl, .of_entry hmem (Table.bound_of_claim hclaim) hrefresh⟩

/-- The four operations on an identifier decide alike, but that reading asks no binding. A renewal puts a record of the
same session in the place of the one that was presented, and its rotation is never refused; a closing removes the one
record, or the records of its user; reading and refusing leave the table as it was. -/
theorem operations_decided (e : Engine) (t : Table) (id : TokenId) (signal : Bytes) (o : FaultFree)
    (haccess : (o.time.add? e.params.accessAge).isSome) (hrefresh : (o.time.add? e.params.refreshAge).isSome) :
    ((e.refresh id signal).Surely o t fun events r after => ¬ RotationRefused events ∧
      Judged t o.time id (·.BoundTo signal) (fun old p after => Replaces e o t old p.refresh after) r after) ∧
    ((Engine.get id).Surely o t fun _ r after =>
      Judged t o.time id (fun _ => True) (fun x y after => y = x ∧ after = t) r after) ∧
    ((Engine.delete id signal).Surely o t fun _ r after => Judged t o.time id (·.BoundTo signal)
      (fun x _ after => ∀ y, y ∈ after.records ↔ y ∈ t.records ∧ y ≠ x) r after) ∧
    ((Engine.deleteAll id signal).Surely o t fun _ r after => Judged t o.time id (·.BoundTo signal)
      (fun x _ after => ∀ y, y ∈ after.records ↔ y ∈ t.records ∧ y.user ≠ x.user) r after) := by
  refine ⟨Action.surely fun events r after hruns hfits => ?_, Action.surely fun events r after hruns hfits => ?_,
    Action.surely fun events r after hruns hfits => ?_, Action.surely fun events r after hruns hfits => ?_⟩
  · have hrenewed := runs_refresh hruns
    exact ⟨hrenewed.not_rotationRefused hfits, hrenewed.judged hfits haccess hrefresh⟩
  · obtain ⟨rfl, hread⟩ := runs_get hruns
    exact hread.judged hfits
  · refine (runs_delete hruns).judged hfits ?_
    rintro x hx rfl y
    exact Table.mem_remove_of_mem hx
  · refine (runs_deleteAll hruns).judged hfits fun x _ _ y => ?_
    simp

theorem operations_decided_of_sample : (FaultFree.sample.time.add? Engine.sample.params.accessAge).isSome ∧
    (FaultFree.sample.time.add? Engine.sample.params.refreshAge).isSome ∧
    ∃ events p after, (Engine.sample.refresh default []).Runs (Table.empty.insert Record.sample) events (.ok p) after ∧
      ¬ RotationRefused events ∧
      Replaces Engine.sample FaultFree.sample (Table.empty.insert Record.sample) Record.sample p.refresh after := by
  have haccess : (FaultFree.sample.time.add? Engine.sample.params.accessAge).isSome := by decide
  have hrefresh : (FaultFree.sample.time.add? Engine.sample.params.refreshAge).isSome := by decide
  have hmem : Record.sample ∈ (Table.empty.insert Record.sample).records := Table.mem_insert.mpr (Or.inl rfl)
  have hbound : Record.sample.BoundTo [] := by
    show fingerprint Record.sample.user [] = Record.sample.fingerprint
    simp only [Record.sample]
  obtain ⟨⟨⟨events, r, after, hruns, hfits⟩, hall⟩, -⟩ :=
    operations_decided Engine.sample (Table.empty.insert Record.sample) default [] FaultFree.sample haccess hrefresh
  obtain ⟨hrefused, hjudged⟩ := hall events r after hruns hfits
  obtain ⟨p, rfl⟩ := hjudged.decided.granted_iff.mpr ⟨Record.sample, hmem, rfl, hbound, by decide⟩
  obtain ⟨old, hold, hid, hreplaces⟩ := hjudged.of_ok p rfl
  obtain rfl : old = Record.sample := Table.eq_of_mem_of_id_eq hold hmem hid
  exact ⟨haccess, hrefresh, events, p, after, hruns, hrefused, hreplaces⟩

end SessionWarden
