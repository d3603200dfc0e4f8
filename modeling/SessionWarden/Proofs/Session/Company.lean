import SessionWarden.Proofs.Session.Ledger
/-!
# Calls in company

A call is not alone with the table: before each of its questions others may have made calls on it. The company of a call
is what these others do and what the clock shows, question by question. No part of the world fails; which identifiers
are drawn, which roles users have and how texts are signed is left open.
-/

namespace SessionWarden

/-! ### Calls of others -/

namespace Table

variable {t : Table} {x : Record}

def afterCalls (t : Table) (calls : List TableCall) : Table := calls.foldl (fun t c => (c.perform t).2) t

@[simp] theorem afterCalls_append (calls more : List TableCall) :
    t.afterCalls (calls ++ more) = (t.afterCalls calls).afterCalls more := List.foldl_append

theorem mem_of_mem_perform {c : TableCall} (hx : x ∈ (c.perform t).2.records) : x ∈ t.records ∨ c = .insert x := by
  cases c with
  | get id => exact Or.inl hx
  | ownedBy user => exact Or.inl hx
  | insert r =>
    rcases mem_insert.mp hx with rfl | ⟨hmem, -⟩
    · exact Or.inr rfl
    · exact Or.inl hmem
  | remove id => exact Or.inl (mem_remove.mp hx).1
  | removeLive id time =>
    rcases removeLive_cases t id time with ⟨-, hperform⟩ | ⟨y, -, -, hperform⟩
    · rw [hperform] at hx
      exact Or.inl hx
    · rw [hperform] at hx
      exact Or.inl (mem_remove.mp hx).1
  | removeOwnedBy user =>
    have hx : x ∈ (t.removeOwnedBy user).records := hx
    rw [records_removeOwnedBy] at hx
    exact Or.inl (List.mem_filter.mp hx).1

theorem mem_of_mem_afterCalls {calls : List TableCall} (hfresh : ∀ y, .insert y ∈ calls → y.id ≠ x.id)
    (hx : x ∈ (t.afterCalls calls).records) : x ∈ t.records := by
  induction calls generalizing t with
  | nil => exact hx
  | cons c calls ih =>
    have hlater := ih (fun y hy => hfresh y (List.mem_cons_of_mem c hy)) hx
    rcases mem_of_mem_perform hlater with hmem | rfl
    · exact hmem
    · exact absurd rfl (hfresh x List.mem_cons_self)

theorem exists_removal {calls : List TableCall} (hx : x ∈ t.records) (hgone : x ∉ (t.afterCalls calls).records) :
    ∃ first c rest, calls = first ++ c :: rest ∧ x ∈ (t.afterCalls first).records ∧
      x ∉ (c.perform (t.afterCalls first)).2.records := by
  induction calls generalizing t with
  | nil => exact absurd hx hgone
  | cons c calls ih =>
    by_cases hstays : x ∈ (c.perform t).2.records
    · obtain ⟨first, d, rest, rfl, hthere, hout⟩ := ih hstays hgone
      exact ⟨c :: first, d, rest, rfl, hthere, hout⟩
    · exact ⟨[], c, calls, rfl, hx, hstays⟩

end Table

/-! ### Runs in company -/

/-- What a call meets besides the table: the calls that others make on it before each question, and what the clock shows
at that question. -/
structure Company where
  calls : Nat → List TableCall
  clock : Nat → Instant

/-- Whether a question may be answered so: nothing fails, and the clock shows what it is to show. A rotation may take
place later than it was asked for. -/
def Company.Shows (w : Company) (n : Nat) : Event → Prop
  | ⟨.now, time⟩ => time = w.clock n
  | ⟨.rotationTime _ _, time⟩ => time = w.clock n
  | ⟨.enter _, reply⟩ => reply = .ok ()
  | ⟨.mint, _⟩ => True
  | ⟨.note _, _⟩ => True
  | ⟨.table _, _⟩ => True
  | ⟨.roles _, _⟩ => True
  | ⟨.account _, _⟩ => True
  | ⟨.sign _ _, _⟩ => True

/-- An event of a call between the tables just before and just after it. -/
structure Moment where
  before : Table
  event : Event
  after : Table

/-- Whether the call leaves the table alone at a moment. -/
def Moment.Calm (m : Moment) : Prop := m.after = m.before

def readings (moments : List Moment) : List Instant := moments.filterMap fun m => m.event.time?

namespace Script

variable {α β : Type} {w : Company} {n : Nat} {t after : Table} {moments : List Moment}

/-- Whether a script whose next question is of some number may run in company, on a table that its last question left,
through these moments to this result and table. -/
def RunsAmong (w : Company) : Script α → Nat → Table → List Moment → α → Table → Prop
  | .done a, _, t, moments, b, after => moments = [] ∧ b = a ∧ after = t
  | .ask q next, n, t, moments, b, after => ∃ (reply : q.Reply) (mid : Table) (rest : List Moment),
      moments = ⟨t.afterCalls (w.calls n), ⟨q, reply⟩, mid⟩ :: rest ∧
        (t.afterCalls (w.calls n)).Answers q reply mid ∧ w.Shows n ⟨q, reply⟩ ∧
          (next reply).RunsAmong w (n + 1) mid rest b after

theorem runsAmong_bind {s : Script α} {f : α → Script β} {b : β} :
    (s.bind f).RunsAmong w n t moments b after ↔ ∃ first rest a mid, s.RunsAmong w n t first a mid ∧
      (f a).RunsAmong w (n + first.length) mid rest b after ∧ moments = first ++ rest := by
  induction s generalizing n t moments with
  | done a =>
    constructor
    · intro h
      exact ⟨[], moments, a, t, ⟨rfl, rfl, rfl⟩, h, rfl⟩
    · rintro ⟨first, rest, a', mid, ⟨rfl, rfl, rfl⟩, h, rfl⟩
      exact h
  | ask q next ih =>
    constructor
    · rintro ⟨reply, mid, rest, rfl, hanswer, hshown, hrest⟩
      obtain ⟨first, last, a, mid', hfirst, hlast, rfl⟩ := (ih reply).mp hrest
      refine ⟨_ :: first, last, a, mid', ⟨reply, mid, first, rfl, hanswer, hshown, hfirst⟩, ?_, rfl⟩
      rw [List.length_cons, ← Nat.add_assoc, Nat.add_right_comm]
      exact hlast
    · rintro ⟨_, last, a, mid', ⟨reply, mid, first, rfl, hanswer, hshown, hfirst⟩, hlast, rfl⟩
      rw [List.length_cons, ← Nat.add_assoc, Nat.add_right_comm] at hlast
      exact ⟨reply, mid, first ++ last, rfl, hanswer, hshown, (ih reply).mpr ⟨first, last, a, mid', hfirst, hlast, rfl⟩⟩

theorem exists_runAmong (s : Script α) (w : Company) (n : Nat) (t : Table) :
    ∃ moments a after, s.RunsAmong w n t moments a after := by
  induction s generalizing n t with
  | done a => exact ⟨[], a, t, rfl, rfl, rfl⟩
  | ask q next ih =>
    have hanswer : ∃ reply mid, (t.afterCalls (w.calls n)).Answers q reply mid ∧ w.Shows n ⟨q, reply⟩ := by
      cases q with
      | now => exact ⟨w.clock n, _, rfl, rfl⟩
      | rotationTime id asked => exact ⟨w.clock n, _, rfl, rfl⟩
      | enter m => exact ⟨.ok (), _, rfl, rfl⟩
      | mint => exact ⟨default, _, rfl, trivial⟩
      | note line => exact ⟨(), _, rfl, trivial⟩
      | table c => exact ⟨_, _, ⟨c.alike_refl _, rfl⟩, trivial⟩
      | roles user => exact ⟨[], _, rfl, trivial⟩
      | account name => exact ⟨none, _, rfl, trivial⟩
      | sign signer text => exact ⟨_, _, ⟨⟨[], rfl⟩, rfl⟩, trivial⟩
    obtain ⟨reply, mid, hreply, hshown⟩ := hanswer
    obtain ⟨rest, a, after, hrest⟩ := ih reply (n + 1) mid
    exact ⟨_, a, after, reply, mid, rest, rfl, hreply, hshown, hrest⟩

end Script

/-! ### What others do in between -/

/-- What others do before some questions in a row. -/
def Company.interim (w : Company) (n count : Nat) : List TableCall := (List.range' n count).flatMap w.calls

namespace Company

variable {w : Company} {n : Nat}

theorem interim_succ (count : Nat) : w.interim n (count + 1) = w.calls n ++ w.interim (n + 1) count := by
  rw [interim, List.range'_succ, List.flatMap_cons]
  rfl

theorem interim_add (count more : Nat) :
    w.interim n (count + more) = w.interim n count ++ w.interim (n + count) more := by
  rw [interim, ← List.range'_append_1, List.flatMap_append]
  rfl

theorem exists_of_mem_interim {count : Nat} {c : TableCall} (hc : c ∈ w.interim n count) : ∃ i, c ∈ w.calls i := by
  obtain ⟨i, -, hi⟩ := List.mem_flatMap.mp hc
  exact ⟨i, hi⟩

end Company

theorem Script.RunsAmong.before_eq {α : Type} {s : Script α} {w : Company} {n : Nat} {t after : Table}
    {rest : List Moment} {m : Moment} {a : α} (early : List Moment) (h : s.RunsAmong w n t (early ++ m :: rest) a after)
    (hcalm : ∀ x ∈ early, x.Calm) : m.before = t.afterCalls (w.interim n (early.length + 1)) := by
  induction early generalizing s n t with
  | nil =>
    cases s with
    | done b => cases h.1
    | ask q next =>
      obtain ⟨reply, mid, last, hmoments, -⟩ := h
      obtain ⟨rfl, -⟩ := List.cons.inj hmoments
      simp [Company.interim]
  | cons x xs ih =>
    cases s with
    | done b => cases h.1
    | ask q next =>
      obtain ⟨reply, mid, last, hmoments, -, -, hrest⟩ := h
      obtain ⟨rfl, rfl⟩ := List.cons.inj hmoments
      -- the first moment is calm, so the rest of the run starts on what others left before it
      obtain rfl : mid = t.afterCalls (w.calls n) := hcalm _ List.mem_cons_self
      rw [ih hrest fun y hy => hcalm y (List.mem_cons_of_mem _ hy), List.length_cons,
        Company.interim_succ (xs.length + 1), Table.afterCalls_append]

/-! ### Actions in company -/

namespace Action

variable {α β : Type} {w : Company} {n : Nat} {t after : Table} {moments : List Moment}

def RunsAmong (a : Action α) (w : Company) (n : Nat) (t : Table) (moments : List Moment) (r : Except AuthError α)
    (after : Table) : Prop := Script.RunsAmong w a.run n t moments r after

theorem runsAmong_bind {x : Action α} {f : α → Action β} {r : Except AuthError β} :
    RunsAmong (x >>= f) w n t moments r after ↔
      (∃ first rest a mid, x.RunsAmong w n t first (.ok a) mid ∧
        (f a).RunsAmong w (n + first.length) mid rest r after ∧ moments = first ++ rest) ∨
      ∃ err, x.RunsAmong w n t moments (.error err) after ∧ r = .error err := by
  have hbind : (x >>= f).run = Script.bind x.run (ExceptT.bindCont f) := rfl
  unfold RunsAmong
  rw [hbind, Script.runsAmong_bind]
  constructor
  · rintro ⟨first, rest, res, mid, hx, hf, rfl⟩
    cases res with
    | ok a => exact Or.inl ⟨first, rest, a, mid, hx, hf, rfl⟩
    | error err =>
      obtain ⟨rfl, rfl, rfl⟩ := hf
      exact Or.inr ⟨err, by simpa using hx, rfl⟩
  · rintro (⟨first, rest, a, mid, hx, hf, rfl⟩ | ⟨err, hx, rfl⟩)
    · exact ⟨first, rest, .ok a, mid, hx, hf, rfl⟩
    · exact ⟨moments, [], .error err, after, hx, ⟨rfl, rfl, rfl⟩, by simp⟩

theorem runsAmong_asked {q : Query} {f : q.Reply → Action α} {r : Except AuthError α} :
    RunsAmong (query q >>= f) w n t moments r after ↔ ∃ reply mid rest,
      moments = ⟨t.afterCalls (w.calls n), ⟨q, reply⟩, mid⟩ :: rest ∧
        (t.afterCalls (w.calls n)).Answers q reply mid ∧ w.Shows n ⟨q, reply⟩ ∧
          (f reply).RunsAmong w (n + 1) mid rest r after := Iff.rfl

theorem runsAmong_entered {m : Method} {failure : String → AuthError} {a : Action α} {r : Except AuthError α}
    (h : RunsAmong (do enter m failure; a) w n t moments r after) :
    ∃ first rest, moments = first :: rest ∧ first.event = ⟨.enter m, .ok ()⟩ ∧ first.Calm ∧
      a.RunsAmong w (n + 1) (t.afterCalls (w.calls n)) rest r after := by
  obtain ⟨reply, mid, rest, rfl, rfl, hshown, hrest⟩ := h
  obtain rfl : reply = .ok () := hshown
  exact ⟨_, rest, rfl, rfl, rfl, hrest⟩

end Action

end SessionWarden
