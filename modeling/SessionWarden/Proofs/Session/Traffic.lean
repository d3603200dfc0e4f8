import Mathlib.Logic.Relation
import SessionWarden.Proofs.Session.Conduct
import SessionWarden.Proofs.Session.Ledger
import SessionWarden.Proofs.Session.Progress
/-!
# Calls in flight

Any number of calls are in flight at once. A step lets a new call arrive, or answers the next question of one
call; between two questions of a call the others may ask theirs, so the single calls on the table are what is
indivisible. In a step identifiers are never drawn twice; a move is a step that may draw any. What every call keeps to
on its own holds of its events in every state that comes about by moves.
-/

namespace SessionWarden

/-- A call in flight: what was asked for, and what is left of its script. -/
structure Call where
  command : Command
  script : Script (Except AuthError Outcome)

/-- The table, the calls in the order of their arrival, and the events so far, each with the number of its
call. -/
structure Traffic where
  table : Table
  calls : List Call
  history : List (Nat × Event)

namespace Traffic

def empty : Traffic := ⟨.empty, [], []⟩

def eventsOf (s : Traffic) (k : Nat) : List Event := (s.history.filter fun x => x.1 == k).map Prod.snd

def drawn (s : Traffic) : List TokenId := s.history.filterMap fun x => x.2.drawn?

def stored (s : Traffic) : List Record := s.history.filterMap fun x => x.2.stored?

def consumed (s : Traffic) : List TokenId := s.history.filterMap fun x => x.2.consumed?

/-- One step: a call arrives, or the next question of a call is answered. -/
inductive Step (e : Engine) (s : Traffic) : Traffic → Prop
  | arrive (c : Command) : Step e s { s with calls := s.calls ++ [⟨c, (e.serve c).run⟩] }
  | advance (k : Nat) (c : Command) (q : Query)
    (next : q.Reply → Script (Except AuthError Outcome)) (reply : q.Reply) (after : Table)
    (hcall : s.calls[k]? = some ⟨c, .ask q next⟩) (hanswer : s.table.Answers q reply after)
    (hfresh : ∀ id, (⟨q, reply⟩ : Event).drawn? = some id → id ∉ s.drawn) :
    Step e s ⟨after, s.calls.set k ⟨c, next reply⟩, s.history ++ [(k, ⟨q, reply⟩)]⟩

abbrev Path (e : Engine) : Traffic → Traffic → Prop := Relation.ReflTransGen (Step e)

abbrev Reachable (e : Engine) (s : Traffic) : Prop := Path e empty s

/-- One step, but whatever identifier is drawn. -/
inductive Move (e : Engine) (s : Traffic) : Traffic → Prop
  | arrive (c : Command) : Move e s { s with calls := s.calls ++ [⟨c, (e.serve c).run⟩] }
  | advance (k : Nat) (c : Command) (q : Query)
    (next : q.Reply → Script (Except AuthError Outcome)) (reply : q.Reply) (after : Table)
    (hcall : s.calls[k]? = some ⟨c, .ask q next⟩) (hanswer : s.table.Answers q reply after) :
    Move e s ⟨after, s.calls.set k ⟨c, next reply⟩, s.history ++ [(k, ⟨q, reply⟩)]⟩

/-- Any number of steps, whatever identifiers are drawn. -/
abbrev Moves (e : Engine) : Traffic → Traffic → Prop := Relation.ReflTransGen (Move e)

/-- Whether a state can come about when identifiers may repeat. -/
abbrev Attainable (e : Engine) (s : Traffic) : Prop := Moves e empty s

theorem Step.move {e : Engine} {s s' : Traffic} (h : Step e s s') : Move e s s' := by
  cases h with
  | arrive c => exact .arrive c
  | advance k c q next reply after hcall hanswer hfresh => exact .advance k c q next reply after hcall hanswer

theorem Path.moves {e : Engine} {s s' : Traffic} (h : Path e s s') : Moves e s s' :=
  Relation.ReflTransGen.mono (fun _ _ => Step.move) _ _ h

/-! ### The events of a call -/

theorem eventsOf_append (s : Traffic) (table : Table) (calls : List Call) (j k : Nat) (ev : Event) :
    eventsOf ⟨table, calls, s.history ++ [(j, ev)]⟩ k =
      s.eventsOf k ++ if j = k then [ev] else [] := by
  simp only [eventsOf, List.filter_append, List.map_append, List.append_cancel_left_eq]
  by_cases h : j = k <;> simp [h]

theorem mem_eventsOf {s : Traffic} {k : Nat} {ev : Event} : ev ∈ s.eventsOf k ↔ (k, ev) ∈ s.history := by
  simp only [eventsOf, List.mem_map, List.mem_filter, beq_iff_eq]
  constructor
  · rintro ⟨⟨j, ev'⟩, ⟨hmem, rfl⟩, rfl⟩
    exact hmem
  · intro h
    exact ⟨(k, ev), ⟨h, rfl⟩, rfl⟩

theorem Attainable.lt_length {e : Engine} {s : Traffic} (h : Attainable e s) :
    ∀ x ∈ s.history, x.1 < s.calls.length := by
  induction h with
  | refl =>
    intro x hx
    cases hx
  | @tail s _ _ hstep ih =>
    cases hstep with
    | arrive c =>
      intro x hx
      have := ih x hx
      simp only [List.length_append, List.length_singleton]
      omega
    | advance k c q next reply after hcall hanswer =>
      intro x hx
      rw [List.length_set]
      rcases List.mem_append.mp hx with hx | hx
      · exact ih x hx
      · rw [List.mem_singleton.mp hx]
        exact (List.getElem?_eq_some_iff.mp hcall).1

theorem Reachable.lt_length {e : Engine} {s : Traffic} (h : Reachable e s) :
    ∀ x ∈ s.history, x.1 < s.calls.length := Attainable.lt_length (Path.moves h)

theorem Attainable.call_of_mem {e : Engine} {s : Traffic} (h : Attainable e s) {k : Nat} {ev : Event}
    (hev : (k, ev) ∈ s.history) : ∃ c, s.calls[k]? = some c :=
  ⟨_, List.getElem?_eq_getElem (h.lt_length _ hev)⟩

/-- Events of which each was asked for when the rules allowed it. -/
inductive Kept (allowed : List Event → Query → Prop) : List Event → Prop
  | nil : Kept allowed []
  | snoc (past : List Event) (ev : Event) (hpast : Kept allowed past) (hq : allowed past ev.query)
    (hreply : ev.query.Possible ev.reply) : Kept allowed (past ++ [ev])

theorem Kept.of_mem {allowed : List Event → Query → Prop} {events : List Event} (h : Kept allowed events) {ev : Event}
    (hev : ev ∈ events) : ∃ past, (∀ x ∈ past, x ∈ events) ∧ allowed past ev.query := by
  induction h with
  | nil => cases hev
  | snoc past last hpast hq hreply ih =>
    rcases List.mem_append.mp hev with hold | hlast
    · obtain ⟨first, hfirst, hallowed⟩ := ih hold
      exact ⟨first, fun x hx => List.mem_append_left _ (hfirst x hx), hallowed⟩
    · cases List.mem_singleton.mp hlast
      exact ⟨past, fun x hx => List.mem_append_left _ hx, hq⟩

/-- In every state that can come about, each call has kept to the rules and what is left of it will keep to
them, if all calls keep to them from their start. -/
theorem Attainable.kept_obeys {e : Engine} {allowed : Command → List Event → Query → Prop}
    {fits : Command → List Event → Except AuthError Outcome → Prop}
    (hserve : ∀ c, (e.serve c).Obeys (allowed c) (fits c) [])
    {s : Traffic} (h : Attainable e s) :
    ∀ (k : Nat) (c : Call), s.calls[k]? = some c → Kept (allowed c.command) (s.eventsOf k) ∧
      c.script.Obeys (allowed c.command) (fits c.command) (s.eventsOf k) := by
  induction h with
  | refl =>
    intro k c hk
    cases hk
  | @tail s _ hpath hstep ih =>
    cases hstep with
    | arrive c =>
      intro k d hk
      have hevents : eventsOf { s with calls := s.calls ++ [⟨c, (e.serve c).run⟩] } k = s.eventsOf k := rfl
      rw [hevents]
      rw [List.getElem?_append] at hk
      split at hk
      · exact ih k d hk
      · rename_i hge
        have hnone : s.eventsOf k = [] := by
          rw [List.eq_nil_iff_forall_not_mem]
          intro ev hev
          exact hge (Attainable.lt_length hpath _ (mem_eventsOf.mp hev))
        rw [List.getElem?_singleton] at hk
        split at hk
        · cases hk
          rw [hnone]
          exact ⟨.nil, hserve c⟩
        · cases hk
    | advance k c q next reply after hcall hanswer =>
      intro j d hj
      rw [eventsOf_append]
      by_cases hjk : k = j
      · subst hjk
        rw [List.getElem?_set_self (List.getElem?_eq_some_iff.mp hcall).1] at hj
        cases hj
        rw [if_pos rfl]
        obtain ⟨hkept, hq, hnext⟩ := ih k _ hcall
        have hpossible : q.Possible reply := ⟨s.table, after, hanswer⟩
        exact ⟨.snoc _ ⟨q, reply⟩ hkept hq hpossible, hnext reply hpossible⟩
      · rw [List.getElem?_set_ne hjk] at hj
        rw [if_neg hjk, List.append_nil]
        exact ih j d hj

theorem Reachable.kept_obeys {e : Engine} {allowed : Command → List Event → Query → Prop}
    {fits : Command → List Event → Except AuthError Outcome → Prop}
    (hserve : ∀ c, (e.serve c).Obeys (allowed c) (fits c) [])
    {s : Traffic} (h : Reachable e s) :
    ∀ (k : Nat) (c : Call), s.calls[k]? = some c → Kept (allowed c.command) (s.eventsOf k) ∧
      c.script.Obeys (allowed c.command) (fits c.command) (s.eventsOf k) :=
  Attainable.kept_obeys hserve (Path.moves h)

theorem Moves.command_eq {e : Engine} {s s' : Traffic} (h : Moves e s s') {k : Nat} {c : Call}
    (hk : s.calls[k]? = some c) : ∃ c', s'.calls[k]? = some c' ∧ c'.command = c.command := by
  induction h with
  | refl => exact ⟨c, hk, rfl⟩
  | @tail s _ _ hstep ih =>
    obtain ⟨c', hc', hcommand⟩ := ih
    cases hstep with
    | arrive d =>
      refine ⟨c', ?_, hcommand⟩
      rw [List.getElem?_append_left (List.getElem?_eq_some_iff.mp hc').1]
      exact hc'
    | advance j d q next reply after hcall hanswer =>
      by_cases hjk : j = k
      · subst hjk
        rw [hcall] at hc'
        cases hc'
        exact ⟨_, List.getElem?_set_self (List.getElem?_eq_some_iff.mp hcall).1, hcommand⟩
      · exact ⟨c', by rw [List.getElem?_set_ne hjk]; exact hc', hcommand⟩

theorem Path.command_eq {e : Engine} {s s' : Traffic} (h : Path e s s') {k : Nat} {c : Call}
    (hk : s.calls[k]? = some c) : ∃ c', s'.calls[k]? = some c' ∧ c'.command = c.command :=
  Moves.command_eq (Path.moves h) hk

/-! ### Calls that run alone -/

theorem set_calls_self {s : Traffic} {k : Nat} {c : Call} (hk : s.calls[k]? = some c) :
    s.calls.set k c = s.calls := by
  obtain ⟨hlt, rfl⟩ := List.getElem?_eq_some_iff.mp hk
  exact List.set_getElem_self hlt

/-- A call that is in flight may ask some of its questions before any other takes a step. -/
theorem Path.of_reaches {e : Engine} {s : Traffic} {k : Nat} {c : Command}
    {script rest : Script (Except AuthError Outcome)} {events : List Event} {mid : Table}
    (hk : s.calls[k]? = some ⟨c, script⟩) (h : script.Reaches s.table events rest mid)
    (hfresh : (s.drawn ++ events.filterMap Event.drawn?).Nodup) :
    Path e s ⟨mid, s.calls.set k ⟨c, rest⟩, s.history ++ events.map fun ev => (k, ev)⟩ := by
  induction script generalizing s events with
  | done a =>
    cases h
    rw [set_calls_self hk, List.map_nil, List.append_nil]
  | ask q next ih =>
    have hlt : k < s.calls.length := (List.getElem?_eq_some_iff.mp hk).1
    cases h with
    | refl => rw [set_calls_self hk, List.map_nil, List.append_nil]
    | step _ _ _ reply after events _ _ hanswer hrest =>
      have hdrawn : drawn ⟨after, s.calls.set k ⟨c, next reply⟩, s.history ++ [(k, ⟨q, reply⟩)]⟩ =
          s.drawn ++ [⟨q, reply⟩].filterMap Event.drawn? := by
        simp only [drawn, List.filterMap_append, List.append_cancel_left_eq]
        rfl
      have hstep : Step e s ⟨after, s.calls.set k ⟨c, next reply⟩, s.history ++ [(k, ⟨q, reply⟩)]⟩ := by
        refine .advance k c q next reply after hk hanswer ?_
        intro id hid hmem
        rw [List.filterMap_cons_some hid, List.nodup_append] at hfresh
        exact hfresh.2.2 id hmem id List.mem_cons_self rfl
      have hpath := ih reply (s := ⟨after, s.calls.set k ⟨c, next reply⟩, s.history ++ [(k, ⟨q, reply⟩)]⟩)
        (List.getElem?_set_self hlt) hrest ?_
      · rw [List.set_set, List.append_assoc] at hpath
        exact hpath.head hstep
      · rw [hdrawn, List.append_assoc, ← List.filterMap_append]
        exact hfresh

/-- A call that is in flight may run to its end before any other takes a step. -/
theorem Path.of_runs {e : Engine} {s : Traffic} {k : Nat} {c : Command}
    {script : Script (Except AuthError Outcome)} {events : List Event} {r : Except AuthError Outcome}
    {after : Table} (hk : s.calls[k]? = some ⟨c, script⟩) (h : script.Runs s.table events r after)
    (hfresh : (s.drawn ++ events.filterMap Event.drawn?).Nodup) :
    Path e s ⟨after, s.calls.set k ⟨c, .done r⟩, s.history ++ events.map fun ev => (k, ev)⟩ :=
  .of_reaches hk h.reaches hfresh

end Traffic

/-! ### A state of the small engine -/

theorem Traffic.exists_sample : ∃ s access, Traffic.Reachable Engine.sample s ∧
    s.table = Table.empty.insert Record.sample ∧
    s.calls = [⟨.create default [] true, .done (.ok (.pair ⟨access, Record.sample⟩))⟩] ∧
    ∀ x ∈ s.history, x.2.Fits FaultFree.sample := by
  obtain ⟨events, access, hruns, hdrawn, hfits⟩ := Engine.sample_runs
  have harrive : Traffic.Reachable Engine.sample ⟨.empty, [⟨.create default [] true,
      (Engine.sample.serve (.create default [] true)).run⟩], []⟩ := .single (.arrive _)
  have hpath := Traffic.Path.of_runs (e := Engine.sample) (k := 0) (s := ⟨.empty, [⟨.create default [] true,
      (Engine.sample.serve (.create default [] true)).run⟩], []⟩) rfl hruns ?_
  · refine ⟨_, access, harrive.trans hpath, rfl, rfl, ?_⟩
    intro x hx
    obtain ⟨ev, hev, rfl⟩ := List.mem_map.mp hx
    exact hfits ev hev
  · rw [hdrawn]
    exact List.nodup_cons.mpr ⟨List.not_mem_nil, List.nodup_nil⟩

end SessionWarden
