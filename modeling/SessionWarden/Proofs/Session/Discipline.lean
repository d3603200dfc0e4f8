import SessionWarden.Proofs.Session.Traffic
/-!
# The discipline of a call

A call stores a record at most once, under an identifier that it drew itself, and a refresh only after it took
the record of the presented identifier out. Every call of the engine keeps to this whatever it is answered, and
the events of a call are tidy because of it.
-/

namespace SessionWarden

/-! ### Rules -/

/-- The identifiers that a command consumes before it stores a record, if it stores one. -/
def Command.consumes? : Command → Option (List TokenId)
  | .create _ _ _ => some []
  | .refresh id _ => some [id]
  | .get _ => none
  | .delete _ _ => none
  | .deleteAll _ _ => none

/-- When a call may ask a question: it draws once, takes out only what was presented and only before it stores,
and stores once, under the identifier it drew. -/
def Command.Allows (c : Command) (past : List Event) : Query → Prop
  | .mint => past.filterMap Event.drawn? = []
  | .table (.insert r) =>
    past.filterMap Event.drawn? = [r.id] ∧ past.filterMap Event.stored? = [] ∧
      c.consumes? = some (past.filterMap Event.consumed?)
  | .table (.removeLive id _) =>
    c.consumes? = some [id] ∧ past.filterMap Event.stored? = [] ∧ past.filterMap Event.consumed? = []
  | _ => True

/-- A call that succeeds has consumed what it must. -/
def Command.Fits {α : Type} (c : Command) (past : List Event) (r : Except AuthError α) : Prop :=
  ∀ a ids, r = .ok a → c.consumes? = some ids → past.filterMap Event.consumed? = ids

theorem Command.allows_of_plain {c : Command} (past : List Event) (q : Query) (h : q.Plain) :
    c.Allows past q := by
  cases q with
  | table call =>
    cases call with
    | insert r => exact h.elim
    | removeLive id time => exact h.elim
    | get id => trivial
    | remove id => trivial
    | ownedBy user => trivial
    | removeOwnedBy user => trivial
  | mint => exact h.elim
  | now => trivial
  | note n => trivial
  | enter m => trivial
  | rotationTime id asked => trivial
  | roles user => trivial
  | account name => trivial
  | sign signer text => trivial

theorem Command.fits_error {α : Type} (c : Command) (past : List Event) (err : AuthError) :
    c.Fits past (.error err : Except AuthError α) := by
  intro a ids h
  cases h

/-! ### Operations -/

section Operations

open SessionWarden.Action (obeys_bind)

variable {α : Type} {past : List Event}

theorem filterMap_plain {more : List Event} (h : ∀ ev ∈ more, ev.query.Plain) (past : List Event)
    (f : Event → Option α) (hf : ∀ ev, ev.Idle → f ev = none) :
    (more ++ past).filterMap f = past.filterMap f := by
  have hmore : more.filterMap f = [] :=
    List.filterMap_eq_nil_iff.mpr fun ev hev => hf ev (Event.idle_of_plain (h ev hev))
  rw [List.filterMap_append, hmore, List.nil_append]

theorem Script.obeys_after_plain {c : Command} {s : Script (Except AuthError α)} {more : List Event}
    (hmore : ∀ ev ∈ more, ev.query.Plain) (h : s.Obeys c.Allows c.Fits past) :
    s.Obeys c.Allows c.Fits (more ++ past) := by
  have hdrawn := fun past => filterMap_plain hmore past Event.drawn? fun _ h => h.1
  have hstored := fun past => filterMap_plain hmore past Event.stored? fun _ h => h.2.1
  have hconsumed := fun past => filterMap_plain hmore past Event.consumed? fun _ h => h.2.2.1
  induction s generalizing past with
  | done r =>
    intro a ids hr hids
    rw [hconsumed]
    exact h a ids hr hids
  | ask q next ih =>
    obtain ⟨hq, hnext⟩ := h
    refine ⟨?_, fun reply hreply => ?_⟩
    · cases q with
      | mint => exact (hdrawn past).trans hq
      | table call =>
        cases call with
        | insert r =>
          show _ ∧ _ ∧ _
          rw [hdrawn, hstored, hconsumed]
          exact hq
        | removeLive id time =>
          show _ ∧ _ ∧ _
          rw [hstored, hconsumed]
          exact hq
        | get id => trivial
        | remove id => trivial
        | ownedBy user => trivial
        | removeOwnedBy user => trivial
      | now => trivial
      | note n => trivial
      | enter m => trivial
      | rotationTime id asked => trivial
      | roles user => trivial
      | account name => trivial
      | sign signer text => trivial
    · rw [List.append_assoc]
      exact ih reply (hnext reply hreply)

theorem obeys_after_plain {c : Command} {a : Action α} {more : List Event}
    (hmore : ∀ ev ∈ more, ev.query.Plain) (h : a.Obeys c.Allows c.Fits []) :
    a.Obeys c.Allows c.Fits more := by
  have hafter : Script.Obeys c.Allows c.Fits a.run (more ++ []) := Script.obeys_after_plain hmore h
  rw [List.append_nil] at hafter
  exact hafter

theorem obeys_map {c : Command} {a : Action α} {g : α → Outcome} (h : a.Obeys c.Allows c.Fits past) :
    (a >>= fun x => pure (g x)).Obeys c.Allows c.Fits past := by
  refine obeys_bind (Script.obeys_mono h ?_)
  intro past r hr
  cases r with
  | ok x => exact fun o ids _ hids => hr x ids rfl hids
  | error err => exact c.fits_error _ err

theorem obeys_issued {e : Engine} {x : Record} {c : Command} {f : String → Action α}
    (hf : ∀ access past', past'.filterMap Event.consumed? = past.filterMap Event.consumed? →
      (f access).Obeys c.Allows c.Fits past') :
    (e.issueAccess x >>= f).Obeys c.Allows c.Fits past := by
  refine obeys_bind (obeys_issueAccess ?_ ?_ ?_)
  · rintro past q (rfl | rfl | rfl | rfl | ⟨text, rfl⟩) <;> trivial
  · intro more err hmore
    exact c.fits_error _ err
  · intro roles time claims signature hclaims hsig
    refine hf _ _ ?_
    rw [List.filterMap_append]
    exact List.append_nil _

theorem obeys_serve_create (e : Engine) (user : UserId) (signal : Bytes) (persistent : Bool) :
    (e.serve (.create user signal persistent)).Obeys (Command.create user signal persistent).Allows
      (Command.create user signal persistent).Fits [] := by
  refine obeys_map (obeys_bind ((plainly_evictForCapacity e user).obeys Command.allows_of_plain ?_))
  intro more r hmore hr
  cases r with
  | error err => exact Command.fits_error _ _ err
  | ok u =>
    refine obeys_after_plain hmore ?_
    refine obeys_bind (obeys_newRecord trivial (fun _ => rfl) (fun _ err => Command.fits_error _ _ err) ?_)
    intro time id x hx
    obtain ⟨expires, -, rfl⟩ := Option.map_eq_some_iff.mp hx
    refine obeys_bind (obeys_create trivial ⟨rfl, rfl, rfl⟩ (fun _ err => Command.fits_error _ _ err) ?_)
    refine obeys_issued fun access past hpast => ⟨trivial, fun _ _ o ids ho hids => ?_⟩
    have hids : some [] = some ids := hids
    cases hids
    rw [List.filterMap_append, hpast]
    rfl

theorem obeys_serve_refresh (e : Engine) (id : TokenId) (signal : Bytes) :
    (e.serve (.refresh id signal)).Obeys (Command.refresh id signal).Allows
      (Command.refresh id signal).Fits [] := by
  refine obeys_map (obeys_bind ((plainly_findBound id signal).obeys Command.allows_of_plain ?_))
  intro more r hmore hr
  cases r with
  | error err => exact Command.fits_error _ _ err
  | ok old =>
    obtain rfl : old.id = id := (hr old rfl).1
    refine obeys_after_plain hmore ?_
    refine obeys_bind (obeys_newRecord trivial (fun _ => rfl) (fun _ err => Command.fits_error _ _ err) ?_)
    intro time fresh x hx
    obtain ⟨expires, -, rfl⟩ := Option.map_eq_some_iff.mp hx
    refine ⟨trivial, fun asked _ => obeys_bind (obeys_rotate trivial trivial (fun _ => ⟨rfl, rfl, rfl⟩)
      (fun _ => ⟨rfl, rfl, rfl⟩) (fun _ err => Command.fits_error _ _ err) ?_ ?_)⟩
    · intro late
      refine ⟨trivial, fun time _ => ?_⟩
      show Action.Obeys (if old.isExpiredAt time then _ else _) _ _ _
      split
      · exact ⟨trivial, fun _ _ => Command.fits_error _ _ _⟩
      · exact ⟨trivial, fun _ _ => Command.fits_error _ _ _⟩
    · intro late
      refine obeys_issued fun access past hpast => ⟨trivial, fun _ _ o ids ho hids => ?_⟩
      have hids : some [old.id] = some ids := hids
      cases hids
      rw [List.filterMap_append, hpast]
      rfl

theorem obeys_serve (e : Engine) (c : Command) : (e.serve c).Obeys c.Allows c.Fits [] := by
  cases c with
  | create user signal persistent => exact obeys_serve_create e user signal persistent
  | refresh id signal => exact obeys_serve_refresh e id signal
  | get id =>
    refine (plainly_serve_get e id).obeys Command.allows_of_plain ?_
    intro more r hmore hr o ids ho hids
    cases hids
  | delete id signal =>
    refine (plainly_serve_delete e id signal).obeys Command.allows_of_plain ?_
    intro more r hmore hr o ids ho hids
    cases hids
  | deleteAll id signal =>
    refine (plainly_serve_deleteAll e id signal).obeys Command.allows_of_plain ?_
    intro more r hmore hr o ids ho hids
    cases hids

end Operations

/-! ### Events of a call that kept to the rules -/

/-- What the events of a call come to: one record at most was stored, under the identifier that was drawn and
after the command consumed what it must. -/
structure Command.Tidy (c : Command) (past : List Event) : Prop where
  stored : past.filterMap Event.stored? = [] ∨ ∃ r, past.filterMap Event.stored? = [r] ∧
    past.filterMap Event.drawn? = [r.id] ∧ c.consumes? = some (past.filterMap Event.consumed?)
  consumed : past.filterMap Event.consumed? = [] ∨ c.consumes? = some (past.filterMap Event.consumed?)

theorem Command.tidy_of_kept {c : Command} {past : List Event} (h : Traffic.Kept c.Allows past) :
    c.Tidy past := by
  induction h with
  | nil => exact ⟨Or.inl rfl, Or.inl rfl⟩
  | snoc past ev hpast hq hreply ih =>
    obtain ⟨hstored, hconsumed⟩ := ih
    rcases ev.trace_cases with ⟨id, rfl⟩ | ⟨r, rfl⟩ | ⟨id, time, removed, rfl⟩ | ⟨hd, hs, hc⟩
    · have hdrawn : past.filterMap Event.drawn? = [] := hq
      have hnone : past.filterMap Event.stored? = [] := by
        rcases hstored with hnone | ⟨r, -, hr, -⟩
        · exact hnone
        · rw [hdrawn] at hr
          cases hr
      refine ⟨Or.inl ?_, ?_⟩
      · rw [List.filterMap_append, hnone]
        rfl
      · rw [List.filterMap_append]
        exact (List.append_nil (past.filterMap Event.consumed?)).symm ▸ hconsumed
    · obtain ⟨hdrawn, hnone, hids⟩ := hq
      have hsame : (past ++ [(⟨.table (.insert r), ()⟩ : Event)]).filterMap Event.consumed? =
          past.filterMap Event.consumed? := by
        rw [List.filterMap_append]
        exact List.append_nil _
      refine ⟨Or.inr ⟨r, ?_, ?_, by rw [hsame, hids]⟩, Or.inr (by rw [hsame, hids])⟩
      · rw [List.filterMap_append, hnone]
        rfl
      · rw [List.filterMap_append, hdrawn]
        rfl
    · obtain ⟨hids, hnone, hnil⟩ := hq
      refine ⟨Or.inl ?_, ?_⟩
      · rw [List.filterMap_append, hnone]
        rfl
      · rw [List.filterMap_append, hnil]
        cases removed with
        | true => exact Or.inr hids
        | false => exact Or.inl rfl
    · have hsame : ∀ {α : Type} (f : Event → Option α), f ev = none →
          (past ++ [ev]).filterMap f = past.filterMap f := by
        intro α f hf
        rw [List.filterMap_append, List.filterMap_cons_none hf, List.filterMap_nil, List.append_nil]
      rw [← hsame _ hs, ← hsame _ hd, ← hsame _ hc] at hstored
      rw [← hsame _ hc] at hconsumed
      exact ⟨hstored, hconsumed⟩

theorem Command.length_drawn_of_kept {c : Command} {past : List Event} (h : Traffic.Kept c.Allows past) :
    (past.filterMap Event.drawn?).length ≤ 1 := by
  induction h with
  | nil => exact Nat.zero_le 1
  | snoc past ev hpast hq hreply ih =>
    rw [List.filterMap_append]
    cases hdraw : ev.drawn? with
    | none => rwa [List.filterMap_cons_none hdraw, List.filterMap_nil, List.append_nil]
    | some id =>
      obtain rfl := Event.drawn?_eq_some.mp hdraw
      have hnone : past.filterMap Event.drawn? = [] := hq
      rw [hnone]
      exact Nat.le_refl 1

end SessionWarden
