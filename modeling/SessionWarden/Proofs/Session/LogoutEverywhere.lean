import SessionWarden.Proofs.Session.Lineage
import SessionWarden.Proofs.Session.Overtaking
/-!
# Closing all sessions of a user while others are served

The removal of all records of a user ends every session that the user had by then, unless a rotation is halfway at that
moment: what it took out before the removal is not there to be removed, and what it stores afterwards stays.
-/

namespace SessionWarden

namespace Traffic

variable {e : Engine} {s : Traffic}

/-! ### The moment of the removal -/

section Removal

variable {s₁ s₂ : Traffic} {k : Nat} {user : UserId}

/-- What had been stored for a user is not in the table once the records of the user were removed. -/
theorem Reachable.gone_of_removal (h₁ : Reachable e s₁) (htable : s₂.table = s₁.table.removeOwnedBy user) {x : Record}
    (hx : x ∈ s₁.stored) (huser : x.user = user) : ∀ y ∈ s₂.table.records, y.id ≠ x.id := by
  intro y hy hid
  rw [htable, Table.records_removeOwnedBy, List.mem_filter] at hy
  obtain ⟨hmem, hother⟩ := hy
  have hsame : y = x := h₁.stored_eq (h₁.sound.of_table y hmem) hx hid
  simp [hsame, huser] at hother

/-- If no rotation is halfway when the records of a user are removed, what takes the place of a record of the user had
been stored by then. -/
theorem Reachable.stored_of_settled (h₁ : Reachable e s₁) (hstep : Step e s₁ s₂) (hpath : Path e s₂ s)
    (hlast : s₂.history = s₁.history ++ [(k, ⟨.table (.removeOwnedBy user), ()⟩)])
    (htable : s₂.table = s₁.table.removeOwnedBy user) (hsettled : s.Settled s₁.history) {old new : Record}
    (hold : old ∈ s₁.stored) (huser : old.user = user) (hs : s.Succeeds old new) : new ∈ s₁.stored := by
  obtain ⟨j, time, hremoved, hstored⟩ := hs
  have h₂ : Reachable e s₂ := h₁.tail hstep
  have hmem : ∃ x ∈ s₂.stored, x.id = old.id := ⟨old, Path.stored_mono (.single hstep) hold, rfl⟩
  -- the record was gone after the removal, so it was taken out before
  have hearly := Path.not_consumed h₂ hpath hmem (h₁.gone_of_removal htable hold huser) hremoved
  rw [hlast] at hearly
  rcases List.mem_append.mp hearly with hearly | hsame
  · exact mem_stored.mpr ⟨j, hsettled j old.id time new hearly hstored⟩
  · cases List.mem_singleton.mp hsame

theorem Reachable.session_stored (h₁ : Reachable e s₁) (hstep : Step e s₁ s₂) (hpath : Path e s₂ s)
    (hlast : s₂.history = s₁.history ++ [(k, ⟨.table (.removeOwnedBy user), ()⟩)])
    (htable : s₂.table = s₁.table.removeOwnedBy user) (hsettled : s.Settled s₁.history) {root y : Record}
    (hroot : root ∈ s₁.stored) (huser : root.user = user) (hy : s.InSession root y) :
    y ∈ s₁.stored ∧ y.user = user := by
  have h : Reachable e s := (h₁.tail hstep).trans hpath
  induction hy with
  | refl => exact ⟨hroot, huser⟩
  | tail _ hs ih =>
    obtain ⟨hold, huser⟩ := ih
    have hmem := Path.stored_mono (hpath.head hstep) hold
    exact ⟨h₁.stored_of_settled hstep hpath hlast htable hsettled hold huser hs,
      (h.succeeds_user hmem hs).trans huser⟩

end Removal

theorem Reachable.session_user (h : Reachable e s) {root y : Record} (hroot : root ∈ s.stored)
    (hy : s.InSession root y) : y ∈ s.stored ∧ y.user = root.user := by
  induction hy with
  | refl => exact ⟨hroot, rfl⟩
  | tail _ hs ih =>
    obtain ⟨hold, huser⟩ := ih
    have hnew := hs
    obtain ⟨k, time, -, hstored⟩ := hnew
    exact ⟨mem_stored.mpr ⟨k, hstored⟩, (h.succeeds_user hold hs).trans huser⟩

/-- When a closing of all sessions has succeeded, no record in the table that is of the user belongs to a session that
had a record before the removal, provided that no rotation was halfway at the removal, which is so when rotations are
one unit of work. -/
theorem Reachable.none_left (h : Reachable e s) {k : Nat} {id : TokenId} {signal : Bytes}
    (hk : s.calls[k]? = some ⟨.deleteAll id signal, .done (.ok .done)⟩) :
    ∃ x before after, s.history = before ++ (k, ⟨.table (.removeOwnedBy x.user), ()⟩) :: after ∧
      (k, ⟨.table (.get id), some x⟩) ∈ before ∧ (s.Whole → s.Settled before) ∧
      (s.Settled before → ∀ j root, (j, ⟨.table (.insert root), ()⟩) ∈ before →
        ∀ y ∈ s.table.records, s.InSession root y → y.user ≠ x.user) := by
  obtain ⟨x, first, between, after, hhistory⟩ := h.closing_split hk rfl
  have hremoval : s.history = (first ++ (k, ⟨.table (.get id), some x⟩) :: between) ++
      (k, ⟨.table (.removeOwnedBy x.user), ()⟩) :: after := by
    rw [hhistory, List.append_assoc, List.cons_append]
  obtain ⟨s₁, s₂, h₁, hbefore, hstep, hlast, ⟨-, htable⟩, hpath⟩ := h.around hremoval
  refine ⟨x, _, after, hremoval, by simp, fun hwhole => hwhole.settled h hremoval rfl, ?_⟩
  intro hsettled j root hroot y hy hsession huser
  rw [← hbefore] at hsettled hlast hroot
  have hroot : root ∈ s₁.stored := mem_stored.mpr ⟨j, hroot⟩
  have hrootuser : root.user = x.user :=
    ((h.session_user (Path.stored_mono (hpath.head hstep) hroot) hsession).2.symm.trans huser)
  obtain ⟨hystored, hyuser⟩ := h₁.session_stored hstep hpath hlast htable hsettled hroot hrootuser hsession
  have hgone := h₁.gone_of_removal htable hystored hyuser
  exact Path.gone (h₁.tail hstep) hpath ⟨y, Path.stored_mono (.single hstep) hystored, rfl⟩ hgone y hy rfl

/-- In the small engine a renewal that is served between the two moments of a closing of all sessions is over when the
closing removes, which leaves nothing behind. -/
theorem none_left_of_sample : ∃ (s : Traffic) (x : Record) (before after : List (Nat × Event)),
    Reachable Engine.sample s ∧ s.calls[1]? = some ⟨.deleteAll default [], .done (.ok .done)⟩ ∧
    s.history = before ++ (1, ⟨.table (.removeOwnedBy x.user), ()⟩) :: after ∧
    (1, ⟨.table (.get default), some x⟩) ∈ before ∧ s.Settled before ∧
    ∀ j root, (j, ⟨.table (.insert root), ()⟩) ∈ before →
      ∀ y ∈ s.table.records, s.InSession root y → y.user ≠ x.user := by
  obtain ⟨s, t, opened, o, new, hs, hwhole, hcalls, -⟩ := exists_overtaken_sample
    (c := .deleteAll default []) rfl (fun t => t.removeOwnedBy Record.sample.user) fun t => ⟨rfl, rfl⟩
  have hclosed : s.calls[1]? = some ⟨.deleteAll default [], .done (.ok .done)⟩ := congrArg (·[1]?) hcalls
  obtain ⟨x, before, after, hhistory, hread, hsettled, hleft⟩ := Reachable.none_left hs hclosed
  exact ⟨s, x, before, after, hs, hclosed, hhistory, hread, hsettled hwhole, hleft (hsettled hwhole)⟩

/-- A rotation that is halfway at the removal stores its record afterwards: with the two calls of a rotation apart, a
session can go on after all sessions of its user were closed. -/
theorem session_left : ¬ ∀ (e : Engine) (s : Traffic), Reachable e s →
    ∀ (opened renewed : List Call) (id : TokenId) (signal : Bytes),
      s.calls = opened ++ ⟨.deleteAll id signal, .done (.ok .done)⟩ :: renewed →
      (∀ c ∈ opened, ∃ user signal persistent r, c = ⟨.create user signal persistent, .done r⟩) →
      (∀ c ∈ renewed, ∃ id signal r, c = ⟨.refresh id signal, .done r⟩) →
      ∀ user before after, s.history = before ++ (opened.length, ⟨.table (.removeOwnedBy user), ()⟩) :: after →
        ∀ root, s.Begun root → (∃ j, (j, ⟨.table (.insert root), ()⟩) ∈ before) →
          ∀ y ∈ s.table.records, s.InSession root y → y.user ≠ user := by
  intro hall
  obtain ⟨hget, hsignal, hlive, -⟩ := Engine.sample_renewable
  obtain ⟨new, claims, hnew, hclaims, hid, huser⟩ := exists_renewed_sample
  obtain ⟨rest, m, n, hlook, hclose⟩ := Engine.exists_closing_halves Engine.sample (c := .deleteAll default []) rfl
    hget hsignal hlive
  obtain ⟨rest', n', access, signer, text, signature, htake, hput⟩ :=
    Engine.exists_renewal_halves Engine.sample hget hsignal hlive hnew hclaims
  obtain ⟨s, s', opened, hs, hpath, -, htable, hcalls, hstored, -, hhistory⟩ := exists_overtaking_sample
    [⟨.ofNat 1⟩] hlook htake (hclose _ _ ⟨rfl, rfl⟩) (hput _) rfl (by decide) (by decide)
  simp only [List.map_cons, List.map_nil, List.cons_append, List.nil_append] at hhistory
  obtain ⟨more, hmore, hremoval, htaken, hrenewed⟩ : ∃ more, s'.history = s.history ++ more ∧
      (1, ⟨.table (.removeOwnedBy Record.sample.user), ()⟩) ∈ more ∧
      (2, ⟨.table (.removeLive default ⟨0⟩), true⟩) ∈ more ∧ (2, ⟨.table (.insert new), ()⟩) ∈ more :=
    ⟨_, hhistory, by simp, by simp, by simp⟩
  have hbegun : s'.Begun Record.sample :=
    ⟨0, default, [], true, _, congrArg (·[0]?) hcalls, hpath.history_mono _ hstored⟩
  have hsession : s'.InSession Record.sample new :=
    .single ⟨2, ⟨0⟩, hmore ▸ List.mem_append_right _ htaken, hmore ▸ List.mem_append_right _ hrenewed⟩
  obtain ⟨between, after, rfl⟩ := List.append_of_mem hremoval
  rw [← List.append_assoc] at hmore
  have hmem : new ∈ s'.table.records := htable ▸ Table.mem_insert.mpr (Or.inl rfl)
  refine hall _ s' (hs.trans hpath) [_] [_] default [] hcalls ?_ ?_ Record.sample.user _ after hmore
    Record.sample hbegun ⟨0, List.mem_append_left _ hstored⟩ new hmem hsession huser
  · intro c hc
    exact ⟨_, _, _, _, List.mem_singleton.mp hc⟩
  · intro c hc
    exact ⟨_, _, _, List.mem_singleton.mp hc⟩

end Traffic

end SessionWarden
