import SessionWarden.Proofs.Session.Moments
/-!
# What closings do

A closing of one session or of all of a user's reads the record of an identifier, and later removes what the record
stands for. Its events tell when it did both.
-/

namespace SessionWarden

/-! ### What a closing does -/

/-- The identifier and the signal that a closing is given, and what it removes for the record that it reads. -/
def Command.closing? : Command → Option (TokenId × Bytes × (Record → Event))
  | .delete id signal => some (id, signal, fun _ => ⟨.table (.remove id), ()⟩)
  | .deleteAll id signal => some (id, signal, fun x => ⟨.table (.removeOwnedBy x.user), ()⟩)
  | .create _ _ _ => none
  | .refresh _ _ => none
  | .get _ => none

/-- The events of a closing that succeeded: it has read the record, and has removed what it removes for it. -/
def Command.Closes (c : Command) (past : List Event) (r : Except AuthError Outcome) : Prop :=
  ∀ o id signal removal, r = .ok o → c.closing? = some (id, signal, removal) → ∃ x time m n,
    past = [⟨.enter .getById, .ok ()⟩, ⟨.table (.get id), some x⟩, ⟨.now, time⟩, ⟨.enter m, .ok ()⟩, removal x,
      ⟨.note n, ()⟩]

theorem Command.closes_error (c : Command) (past : List Event) (err : AuthError) : c.Closes past (.error err) := by
  intro o id signal removal h
  cases h

section Operations

open SessionWarden.Action (obeys_bind obeys_entered)

/-- A look-up for a client, then one call on the table in a part of the world, then a line in the log. -/
theorem obeys_serve_closes (e : Engine) (c : Command) : (e.serve c).Obeys (fun _ _ => True) c.Closes [] := by
  cases c with
  | create user signal persistent =>
    exact Script.obeys_of_forall _ (fun _ _ => trivial) fun past r o id signal removal _ hnone => by cases hnone
  | refresh id signal =>
    exact Script.obeys_of_forall _ (fun _ _ => trivial) fun past r o id signal removal _ hnone => by cases hnone
  | get id =>
    exact Script.obeys_of_forall _ (fun _ _ => trivial) fun past r o id signal removal _ hnone => by cases hnone
  | delete id signal =>
    refine obeys_bind (obeys_bind (obeys_findBound (fun _ _ _ => trivial)
      (fun more err => Command.closes_error _ _ err) fun x time hid => ?_))
    subst hid
    refine obeys_bind (obeys_entered trivial ⟨trivial, fun _ _ => ⟨trivial, fun _ _ => ?_⟩⟩
      fun text => Command.closes_error _ _ _)
    intro o id signal removal ho hclosing
    cases hclosing
    exact ⟨x, time, _, _, rfl⟩
  | deleteAll id signal =>
    refine obeys_bind (obeys_bind (obeys_findBound (fun _ _ _ => trivial)
      (fun more err => Command.closes_error _ _ err) fun x time hid => ?_))
    subst hid
    refine obeys_bind (obeys_entered trivial ⟨trivial, fun _ _ => ⟨trivial, fun _ _ => ?_⟩⟩
      fun text => Command.closes_error _ _ _)
    intro o id signal removal ho hclosing
    cases hclosing
    exact ⟨x, time, _, _, rfl⟩

end Operations

namespace Traffic

variable {e : Engine} {s : Traffic}

theorem Reachable.closing_split (h : Reachable e s) {k : Nat} {c : Command} {o : Outcome} {id : TokenId}
    {signal : Bytes} {removal : Record → Event} (hk : s.calls[k]? = some ⟨c, .done (.ok o)⟩)
    (hc : c.closing? = some (id, signal, removal)) :
    ∃ x before between after,
      s.history = before ++ (k, ⟨.table (.get id), some x⟩) :: (between ++ (k, removal x) :: after) := by
  obtain ⟨-, hcloses⟩ := Reachable.kept_obeys (obeys_serve_closes e) h k _ hk
  obtain ⟨x, time, m, n, hevents⟩ := hcloses o id signal removal rfl hc
  obtain ⟨before, rest, hhistory, hrest⟩ := exists_split (a := [⟨.enter .getById, .ok ()⟩]) hevents
  obtain ⟨between, after, rfl, -⟩ := exists_split (a := [⟨.now, time⟩, ⟨.enter m, .ok ()⟩]) hrest
  exact ⟨x, before, between, after, hhistory⟩

end Traffic

end SessionWarden
