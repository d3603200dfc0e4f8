import SessionWarden.Proofs.Session.Command
/-!
# Runs of one script alone

A script that runs alone asks its questions one after the other, and nobody else touches the table between
them. A run is the list of its events, its result and the two tables around it; every way in which the world
may answer is a run. What a run of an action is made of is read off the shape of the action.
-/

namespace SessionWarden

theorem Table.Answers.unique {t after after' : Table} {q : Query} {a b : q.Reply} (h : t.Answers q a after)
    (h' : t.Answers q b after') : after = after' := by
  cases q with
  | table call => exact h.2.trans h'.2.symm
  | sign signer text => exact h.2.trans h'.2.symm
  | now => exact Eq.trans h h'.symm
  | mint => exact Eq.trans h h'.symm
  | note n => exact Eq.trans h h'.symm
  | enter m => exact Eq.trans h h'.symm
  | rotationTime id asked => exact Eq.trans h h'.symm
  | roles user => exact Eq.trans h h'.symm
  | account name => exact Eq.trans h h'.symm

namespace Script

variable {α β : Type}

/-- Whether a script may run on a table with these events to this result and table. -/
def Runs : Script α → Table → List Event → α → Table → Prop
  | .done a, t, events, b, after => events = [] ∧ b = a ∧ after = t
  | .ask q next, t, events, b, after =>
    ∃ (reply : q.Reply) (mid : Table) (rest : List Event),
      events = ⟨q, reply⟩ :: rest ∧ t.Answers q reply mid ∧ (next reply).Runs mid rest b after

theorem runs_bind {s : Script α} {f : α → Script β} {t after : Table} {events : List Event} {b : β} :
    (s.bind f).Runs t events b after ↔ ∃ first rest a mid,
      s.Runs t first a mid ∧ (f a).Runs mid rest b after ∧ events = first ++ rest := by
  induction s generalizing t events with
  | done a =>
    constructor
    · intro h
      exact ⟨[], events, a, t, ⟨rfl, rfl, rfl⟩, h, rfl⟩
    · rintro ⟨first, rest, a', mid, ⟨rfl, rfl, rfl⟩, h, rfl⟩
      exact h
  | ask q next ih =>
    constructor
    · rintro ⟨reply, mid, rest, rfl, hans, hrest⟩
      obtain ⟨first, last, a, mid', hfirst, hlast, rfl⟩ := (ih reply).mp hrest
      exact ⟨⟨q, reply⟩ :: first, last, a, mid', ⟨reply, mid, first, rfl, hans, hfirst⟩, hlast, rfl⟩
    · rintro ⟨_, last, a, mid', ⟨reply, mid, first, rfl, hans, hfirst⟩, hlast, rfl⟩
      exact ⟨reply, mid, first ++ last, rfl, hans, (ih reply).mpr ⟨first, last, a, mid', hfirst, hlast, rfl⟩⟩

/-- A run of a script that goes on with another begins with the run of the first that its events tell of. -/
theorem Runs.of_bind {x : Script α} {f : α → Script β} {t mid after : Table} {first last : List Event} {a : α} {b : β}
    (h : x.Runs t first a mid) (hbind : (x.bind f).Runs t (first ++ last) b after) :
    (f a).Runs mid last b after := by
  induction x generalizing t first with
  | done a' =>
    obtain ⟨rfl, rfl, rfl⟩ := h
    exact hbind
  | ask q next ih =>
    obtain ⟨reply, between, rest, rfl, hanswer, hrest⟩ := h
    obtain ⟨reply', between', rest', hevents, hanswer', hrest'⟩ := hbind
    obtain ⟨hev, rfl⟩ := List.cons.inj hevents
    obtain rfl : reply = reply' := by simpa using hev
    obtain rfl := hanswer.unique hanswer'
    exact ih reply hrest hrest'

/-- If every question can be answered in some manner, a script runs to its end in that manner. -/
theorem exists_run {P : Event → Prop} (hP : ∀ t q, ∃ reply after, Table.Answers t q reply after ∧ P ⟨q, reply⟩)
    (s : Script α) (t : Table) : ∃ events a after, s.Runs t events a after ∧ ∀ ev ∈ events, P ev := by
  induction s generalizing t with
  | done a => exact ⟨[], a, t, ⟨rfl, rfl, rfl⟩, by simp⟩
  | ask q next ih =>
    obtain ⟨reply, mid, hanswer, hreply⟩ := hP t q
    obtain ⟨rest, a, after, hrest, hall⟩ := ih reply mid
    exact ⟨⟨q, reply⟩ :: rest, a, after, ⟨reply, mid, rest, rfl, hanswer, hrest⟩,
      List.forall_mem_cons.mpr ⟨hreply, hall⟩⟩

theorem runs_of_run (s : Script α) (w : World) (hw : w.faults.steal = false) :
    ∃ events, s.Runs w.table events (w.run s).1 (w.run s).2.table := by
  induction s generalizing w with
  | done a => exact ⟨[], rfl, rfl, rfl⟩
  | ask q next ih =>
    have hsteal : (w.answer q).2.faults.steal = false := by
      cases q with
      | rotationTime id asked =>
        show (w.beforeRotation id asked).2.faults.steal = false
        simp only [World.beforeRotation, hw, Bool.false_eq_true, ite_false]
        cases w.faults.delay <;> exact hw
      | table c => exact hw
      | now => exact hw
      | mint => exact hw
      | note n => exact hw
      | enter m => exact hw
      | roles user => exact hw
      | account name => exact hw
      | sign signer text => exact hw
    obtain ⟨rest, hrest⟩ := ih (w.answer q).1 (w.answer q).2 hsteal
    exact ⟨⟨q, (w.answer q).1⟩ :: rest, _, _, rest, rfl, w.answer_answers hw q, hrest⟩

end Script

namespace Action

variable {α β : Type} {t after : Table} {events : List Event}

def Runs (a : Action α) (t : Table) (events : List Event) (r : Except AuthError α) (after : Table) : Prop :=
  Script.Runs a.run t events r after

/-! ### Shapes of actions -/

theorem runs_query {q : Query} {r : Except AuthError q.Reply} :
    (query q).Runs t events r after ↔
      ∃ reply, events = [⟨q, reply⟩] ∧ r = .ok reply ∧ t.Answers q reply after := by
  constructor
  · rintro ⟨reply, mid, rest, rfl, hans, rfl, rfl, rfl⟩
    exact ⟨reply, rfl, rfl, hans⟩
  · rintro ⟨reply, rfl, rfl, hans⟩
    exact ⟨reply, after, [], rfl, hans, rfl, rfl, rfl⟩

theorem runs_bind {x : Action α} {f : α → Action β} {r : Except AuthError β} :
    Runs (x >>= f) t events r after ↔
      (∃ first rest a mid, x.Runs t first (.ok a) mid ∧ (f a).Runs mid rest r after ∧
        events = first ++ rest) ∨
      (∃ err, x.Runs t events (.error err) after ∧ r = .error err) := by
  have hbind : (x >>= f).run = Script.bind x.run (ExceptT.bindCont f) := rfl
  unfold Runs
  rw [hbind, Script.runs_bind]
  constructor
  · rintro ⟨first, rest, res, mid, hx, hf, rfl⟩
    cases res with
    | ok a => exact Or.inl ⟨first, rest, a, mid, hx, hf, rfl⟩
    | error err =>
      obtain ⟨rfl, rfl, rfl⟩ := hf
      exact Or.inr ⟨err, by simpa using hx, rfl⟩
  · rintro (⟨first, rest, a, mid, hx, hf, rfl⟩ | ⟨err, hx, rfl⟩)
    · exact ⟨first, rest, .ok a, mid, hx, hf, rfl⟩
    · exact ⟨events, [], .error err, after, hx, ⟨rfl, rfl, rfl⟩, by simp⟩

theorem runs_asked {q : Query} {f : q.Reply → Action α} {r : Except AuthError α} :
    Runs (query q >>= f) t events r after ↔ ∃ reply mid rest,
      events = ⟨q, reply⟩ :: rest ∧ t.Answers q reply mid ∧ (f reply).Runs mid rest r after := Iff.rfl

theorem runs_map {x : Action α} {g : α → β} {r : Except AuthError β} :
    Runs (x >>= fun a => pure (g a)) t events r after ↔
      ∃ s, x.Runs t events s after ∧ r = s.map g := by
  rw [runs_bind]
  constructor
  · rintro (⟨first, rest, a, mid, hx, ⟨rfl, rfl, rfl⟩, rfl⟩ | ⟨err, hx, rfl⟩)
    · exact ⟨.ok a, by simpa using hx, rfl⟩
    · exact ⟨.error err, hx, rfl⟩
  · rintro ⟨s, hx, rfl⟩
    cases s with
    | ok a => exact Or.inl ⟨events, [], a, after, hx, ⟨rfl, rfl, rfl⟩, by simp⟩
    | error err => exact Or.inr ⟨err, hx, rfl⟩

theorem runs_enter {m : Method} {failure : String → AuthError} {r : Except AuthError Unit} :
    (enter m failure).Runs t events r after ↔ after = t ∧
      ((events = [⟨.enter m, .ok ()⟩] ∧ r = .ok ()) ∨
        ∃ text, events = [⟨.enter m, .error text⟩] ∧ r = .error (failure text)) := by
  constructor
  · rintro ⟨reply, mid, rest, rfl, rfl, hrest⟩
    cases reply with
    | ok u =>
      obtain ⟨rfl, rfl, rfl⟩ := hrest
      exact ⟨rfl, Or.inl ⟨rfl, rfl⟩⟩
    | error text =>
      obtain ⟨rfl, rfl, rfl⟩ := hrest
      exact ⟨rfl, Or.inr ⟨text, rfl, rfl⟩⟩
  · rintro ⟨rfl, ⟨rfl, rfl⟩ | ⟨text, rfl, rfl⟩⟩
    · exact ⟨.ok (), _, [], rfl, rfl, rfl, rfl, rfl⟩
    · exact ⟨.error text, _, [], rfl, rfl, rfl, rfl, rfl⟩

/-- What is done in a part of the world happens after the part was entered, or not at all. -/
theorem runs_entered {m : Method} {failure : String → AuthError} {a : Action α} {r : Except AuthError α} :
    Runs (do enter m failure; a) t events r after ↔
      (∃ rest, events = ⟨.enter m, .ok ()⟩ :: rest ∧ a.Runs t rest r after) ∨
        ∃ text, events = [⟨.enter m, .error text⟩] ∧ r = .error (failure text) ∧ after = t := by
  rw [runs_bind]
  constructor
  · rintro (⟨first, rest, u, mid, he, ha, rfl⟩ | ⟨err, he, rfl⟩)
    · obtain ⟨rfl, ⟨rfl, -⟩ | ⟨text, -, hr⟩⟩ := runs_enter.mp he
      · exact Or.inl ⟨rest, rfl, ha⟩
      · cases hr
    · obtain ⟨rfl, ⟨-, hr⟩ | ⟨text, rfl, hr⟩⟩ := runs_enter.mp he
      · cases hr
      · injection hr with hr
        exact Or.inr ⟨text, rfl, by rw [hr], rfl⟩
  · rintro (⟨rest, rfl, ha⟩ | ⟨text, rfl, rfl, rfl⟩)
    · exact Or.inl ⟨_, rest, (), t, runs_enter.mpr ⟨rfl, Or.inl ⟨rfl, rfl⟩⟩, ha, rfl⟩
    · exact Or.inr ⟨_, runs_enter.mpr ⟨rfl, Or.inr ⟨text, rfl, rfl⟩⟩, rfl⟩

theorem runs_orThrow {err : AuthError} {o : Option α} {r : Except AuthError α} :
    (orThrow err o).Runs t events r after ↔
      events = [] ∧ after = t ∧ ((∃ a, o = some a ∧ r = .ok a) ∨ (o = none ∧ r = .error err)) := by
  cases o with
  | none =>
    constructor
    · rintro ⟨rfl, rfl, rfl⟩
      exact ⟨rfl, rfl, Or.inr ⟨rfl, rfl⟩⟩
    · rintro ⟨rfl, rfl, ⟨a, ha, -⟩ | ⟨-, rfl⟩⟩
      · cases ha
      · exact ⟨rfl, rfl, rfl⟩
  | some a =>
    constructor
    · rintro ⟨rfl, rfl, rfl⟩
      exact ⟨rfl, rfl, Or.inl ⟨a, rfl, rfl⟩⟩
    · rintro ⟨rfl, rfl, ⟨b, hb, rfl⟩ | ⟨hn, -⟩⟩
      · cases hb
        exact ⟨rfl, rfl, rfl⟩
      · cases hn

end Action

end SessionWarden
