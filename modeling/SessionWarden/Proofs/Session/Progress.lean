import SessionWarden.Proofs.Session.Runs
/-!
# Scripts on their way

A script need not have come to its end: with some of its events behind it, it has come to a rest of itself and to a
table. Which tables it passes through is read off its shape, as its runs are. A script that asks nothing that changes
the table passes through one table only.
-/

namespace SessionWarden

namespace Script

variable {α β : Type}

/-- Whether a script may come, from a table and with these events, to this rest of itself and this table. -/
inductive Reaches : Script α → Table → List Event → Script α → Table → Prop
  | refl (s : Script α) (t : Table) : Reaches s t [] s t
  | step (q : Query) (next : q.Reply → Script α) (t : Table) (reply : q.Reply) (after : Table) (events : List Event)
    (rest : Script α) (mid : Table) (hanswer : t.Answers q reply after)
    (h : Reaches (next reply) after events rest mid) : Reaches (.ask q next) t (⟨q, reply⟩ :: events) rest mid

theorem Runs.reaches {s : Script α} {t after : Table} {events : List Event} {a : α} (h : s.Runs t events a after) :
    s.Reaches t events (.done a) after := by
  induction s generalizing t events with
  | done b =>
    obtain ⟨rfl, rfl, rfl⟩ := h
    exact .refl _ _
  | ask q next ih =>
    obtain ⟨reply, mid, rest, rfl, hanswer, hrest⟩ := h
    exact .step q next t reply mid rest _ _ hanswer (ih reply hrest)

theorem Reaches.runs {s rest : Script α} {t mid after : Table} {first last : List Event} {a : α}
    (h : s.Reaches t first rest mid) (hlast : rest.Runs mid last a after) : s.Runs t (first ++ last) a after := by
  induction h with
  | refl s t => exact hlast
  | step q next t reply after' events rest mid hanswer h ih => exact ⟨reply, after', _, rfl, hanswer, ih hlast⟩

theorem Reaches.trans {s mid rest : Script α} {t t' after : Table} {first last : List Event}
    (h : s.Reaches t first mid t') (hlast : mid.Reaches t' last rest after) :
    s.Reaches t (first ++ last) rest after := by
  induction h with
  | refl s t => exact hlast
  | step q next t reply after' events rest mid hanswer h ih =>
    exact .step q next t reply after' _ _ _ hanswer (ih hlast)

theorem Reaches.bind {s rest : Script α} {t mid : Table} {events : List Event} (h : s.Reaches t events rest mid)
    (f : α → Script β) : (s.bind f).Reaches t events (rest.bind f) mid := by
  induction h with
  | refl s t => exact .refl _ _
  | step q next t reply after events rest mid hanswer h ih => exact .step _ _ _ _ _ _ _ _ hanswer ih

/-- Whether a script passes through a table with these events behind it. -/
def Passes (s : Script α) (t : Table) (events : List Event) (mid : Table) : Prop := ∃ rest, s.Reaches t events rest mid

theorem Passes.of_bind {s : Script α} {f : α → Script β} {t mid : Table} {events : List Event}
    (h : (s.bind f).Passes t events mid) : s.Passes t events mid ∨ ∃ first last a after,
      s.Runs t first a after ∧ (f a).Passes after last mid ∧ events = first ++ last := by
  obtain ⟨rest, h⟩ := h
  induction s generalizing t events with
  | done a => exact Or.inr ⟨[], events, a, t, ⟨rfl, rfl, rfl⟩, ⟨rest, h⟩, rfl⟩
  | ask q next ih =>
    cases h with
    | refl => exact Or.inl ⟨_, .refl _ _⟩
    | step _ _ _ reply after events _ _ hanswer h =>
      rcases ih reply h with ⟨rest', hfirst⟩ | ⟨first, last, a, after', hfirst, hlast, rfl⟩
      · exact Or.inl ⟨rest', .step q next t reply after events _ _ hanswer hfirst⟩
      · exact Or.inr ⟨_, last, a, after', ⟨reply, after, first, rfl, hanswer, hfirst⟩, hlast, rfl⟩

end Script

namespace Action

variable {α β : Type} {t mid : Table} {events : List Event}

def Passes (a : Action α) (t : Table) (events : List Event) (mid : Table) : Prop := Script.Passes a.run t events mid

theorem Runs.passes {a : Action α} {r : Except AuthError α} (h : a.Runs t events r mid) : a.Passes t events mid :=
  ⟨_, Script.Runs.reaches h⟩

theorem Runs.reaches_bind {x : Action α} {f : α → Action β} {first last : List Event} {a : α} {after : Table}
    {rest : Script (Except AuthError β)} (h : x.Runs t first (.ok a) mid)
    (hlast : (f a).run.Reaches mid last rest after) : (x >>= f).run.Reaches t (first ++ last) rest after :=
  ((Script.Runs.reaches h).bind (ExceptT.bindCont f)).trans hlast

theorem Passes.of_bind {x : Action α} {f : α → Action β} (h : (x >>= f).Passes t events mid) :
    x.Passes t events mid ∨ ∃ first last a after,
      x.Runs t first (.ok a) after ∧ (f a).Passes after last mid ∧ events = first ++ last := by
  have h : Script.Passes (Script.bind x.run (ExceptT.bindCont f)) t events mid := h
  rcases h.of_bind with hfirst | ⟨first, last, r, after, hfirst, hlast, rfl⟩
  · exact Or.inl hfirst
  · cases r with
    | ok a => exact Or.inr ⟨first, last, a, after, hfirst, hlast, rfl⟩
    | error err =>
      obtain ⟨rest, hlast⟩ := hlast
      cases hlast
      rw [List.append_nil]
      exact Or.inl (Runs.passes hfirst)

/-- What follows a question goes on from its answer, or the question is still to be asked. -/
theorem Passes.of_asked {q : Query} {f : q.Reply → Action α} (h : (query q >>= f).Passes t events mid) :
    mid = t ∨ ∃ reply after rest, events = ⟨q, reply⟩ :: rest ∧ t.Answers q reply after ∧
      (f reply).Passes after rest mid := by
  obtain ⟨rest, h⟩ := h
  cases h with
  | refl => exact Or.inl rfl
  | step _ _ _ reply after events _ _ hanswer h => exact Or.inr ⟨reply, after, events, rfl, hanswer, rest, h⟩

theorem Passes.of_query {q : Query} (h : (query q).Passes t events mid) :
    mid = t ∨ ∃ reply, events = [⟨q, reply⟩] ∧ t.Answers q reply mid := by
  obtain ⟨rest, h⟩ := h
  cases h with
  | refl => exact Or.inl rfl
  | step _ _ _ reply after events _ _ hanswer h =>
    cases h with
    | refl => exact Or.inr ⟨reply, rfl, hanswer⟩

end Action

/-! ### Scripts that leave the table alone -/

def Query.Still : Query → Prop
  | .table (.insert _) => False
  | .table (.remove _) => False
  | .table (.removeLive _ _) => False
  | .table (.removeOwnedBy _) => False
  | _ => True

theorem Table.Answers.eq_of_still {t after : Table} {q : Query} {reply : q.Reply} (h : t.Answers q reply after)
    (hq : q.Still) : after = t := by
  cases q with
  | table call =>
    cases call with
    | get id => exact h.2
    | ownedBy user => exact h.2
    | insert r => exact hq.elim
    | remove id => exact hq.elim
    | removeLive id time => exact hq.elim
    | removeOwnedBy user => exact hq.elim
  | now => exact h
  | mint => exact h
  | note n => exact h
  | enter m => exact h
  | rotationTime id asked => exact h
  | roles user => exact h
  | account name => exact h
  | sign signer text => exact h.2

/-- Whether a script asks only questions that leave the table as it is. -/
def Script.Still {α : Type} : Script α → Prop
  | .done _ => True
  | .ask q next => q.Still ∧ ∀ reply, (next reply).Still

theorem Script.Still.passes {α : Type} {s : Script α} (hs : s.Still) {t mid : Table} {events : List Event}
    (h : s.Passes t events mid) : mid = t := by
  obtain ⟨rest, h⟩ := h
  induction h with
  | refl s t => rfl
  | step q next t reply after events rest mid hanswer h ih =>
    obtain ⟨hq, hnext⟩ := hs
    rw [ih (hnext reply), hanswer.eq_of_still hq]

namespace Action

variable {α β : Type}

def Still (a : Action α) : Prop := Script.Still a.run

theorem still_bind {x : Action α} {f : α → Action β} (hx : x.Still) (hf : ∀ a, (f a).Still) : (x >>= f).Still := by
  have key : ∀ s : Script (Except AuthError α), s.Still → (s.bind (ExceptT.bindCont f)).Still := by
    intro s
    induction s with
    | done r =>
      intro _
      cases r with
      | ok a => exact hf a
      | error err => trivial
    | ask q next ih =>
      rintro ⟨hq, hnext⟩
      exact ⟨hq, fun reply => ih reply (hnext reply)⟩
  exact key x.run hx

theorem still_query {q : Query} (hq : q.Still) : (query q).Still := ⟨hq, fun _ => trivial⟩

theorem still_note (n : Note) : (note n).Still := still_query trivial

theorem still_enter (m : Method) (failure : String → AuthError) : (enter m failure).Still := by
  refine ⟨trivial, fun reply => ?_⟩
  cases reply with
  | ok u => trivial
  | error text => trivial

theorem Still.passes {a : Action α} (ha : a.Still) {t mid : Table} {events : List Event}
    (h : a.Passes t events mid) : mid = t := Script.Still.passes ha h

end Action

/-! ### Still parts of the engine -/

section StillParts

open SessionWarden.Action (Still still_bind still_query still_enter)

theorem still_find (id : TokenId) : (Engine.find id).Still := by
  refine still_bind (still_bind (still_enter _ _) fun _ => still_query trivial) fun found => ?_
  cases found with
  | none => exact ⟨trivial, fun _ => trivial⟩
  | some x => trivial

theorem still_findBound (id : TokenId) (signal : Bytes) : (Engine.findBound id signal).Still := by
  refine still_bind (still_find id) fun x => ?_
  cases checkFingerprint x.user signal x.fingerprint with
  | error err => exact ⟨trivial, fun _ => trivial⟩
  | ok u =>
    refine ⟨trivial, fun time => ?_⟩
    show Action.Still (if x.isExpiredAt time then _ else pure x)
    split
    · exact ⟨trivial, fun _ => trivial⟩
    · trivial

theorem still_newRecord (e : Engine) (user : UserId) (signal : Bytes) (persistent : Bool) :
    (e.newRecord user signal persistent).Still := by
  refine ⟨trivial, fun time => ?_⟩
  refine still_bind (x := Action.orThrow _ (time.add? e.params.refreshAge)) ?_ fun _ => ⟨trivial, fun _ => trivial⟩
  cases time.add? e.params.refreshAge with
  | none => trivial
  | some expires => trivial

theorem still_issueAccess (e : Engine) (x : Record) : (e.issueAccess x).Still := by
  refine still_bind (still_bind (still_enter _ _) fun _ => still_query trivial) fun roles => ?_
  refine still_bind (still_enter _ _) fun _ => ⟨trivial, fun time => ?_⟩
  show Action.Still (e.signed (e.claimsAt time x roles))
  cases e.claimsAt time x roles with
  | error fault => trivial
  | ok claims => exact ⟨trivial, fun _ => trivial⟩

theorem still_get (id : TokenId) : (Engine.get id).Still := by
  refine still_bind (still_find id) fun x => ⟨trivial, fun time => ?_⟩
  show Action.Still (if x.isExpiredAt time then throw .tokenExpired else pure x)
  split
  · trivial
  · trivial

end StillParts

end SessionWarden
