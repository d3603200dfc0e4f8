import Mathlib.Data.List.Induction
import SessionWarden.Proofs.Session.Runs
/-!
# Calls one after the other

Calls are served one after the other from an empty table, each to its end before the next one comes. What a call meets
besides the table is a parameter: something may be settled about each call beforehand, such as the time or the answer
to every question, and a run of calls says which events keep to it.
-/

namespace SessionWarden

/-- A call that was served alone, and what was settled about it beforehand. -/
structure ServedCall (S : Type) where
  command : Command
  given : S
  events : List Event
  result : Except AuthError Outcome
  after : Table

variable {S : Type}

namespace ServedCall

/-- What is known of a call before it is served. -/
def plan (x : ServedCall S) : Command × S := (x.command, x.given)

/-- The table that some calls leave; there is nothing in it before the first. -/
def table (run : List (ServedCall S)) : Table := (run.getLast?.map after).getD .empty

def drawn (run : List (ServedCall S)) : List TokenId := run.flatMap fun x => x.events.filterMap Event.drawn?

def stored (run : List (ServedCall S)) : List Record := run.flatMap fun x => x.events.filterMap Event.stored?

@[simp] theorem table_concat (run : List (ServedCall S)) (x : ServedCall S) : table (run ++ [x]) = x.after := by
  simp only [table, List.getLast?_concat, Option.map_some, Option.getD_some]

@[simp] theorem drawn_append (first rest : List (ServedCall S)) : drawn (first ++ rest) = drawn first ++ drawn rest :=
  List.flatMap_append

@[simp] theorem stored_append (first rest : List (ServedCall S)) :
    stored (first ++ rest) = stored first ++ stored rest := List.flatMap_append

@[simp] theorem drawn_singleton (x : ServedCall S) : drawn [x] = x.events.filterMap Event.drawn? :=
  List.flatMap_singleton _ _

@[simp] theorem stored_singleton (x : ServedCall S) : stored [x] = x.events.filterMap Event.stored? :=
  List.flatMap_singleton _ _

theorem mem_stored_of_prefix {first run : List (ServedCall S)} (hfirst : first <+: run) {z : Record}
    (hz : z ∈ stored first) : z ∈ stored run := by
  obtain ⟨rest, rfl⟩ := hfirst
  rw [stored_append]
  exact List.mem_append_left _ hz

end ServedCall

/-- Calls that are served one after the other from an empty table, each with events that keep to what was settled
about it. -/
inductive SerialRun (e : Engine) (met : S → List Event → Prop) : List (ServedCall S) → Prop
  | nil : SerialRun e met []
  | snoc (run : List (ServedCall S)) (x : ServedCall S) (h : SerialRun e met run)
    (hrun : (e.serve x.command).Runs (ServedCall.table run) x.events x.result x.after)
    (hmet : met x.given x.events) : SerialRun e met (run ++ [x])

namespace SerialRun

variable {e : Engine} {met : S → List Event → Prop} {first run : List (ServedCall S)} {x : ServedCall S}

theorem concat_iff : SerialRun e met (run ++ [x]) ↔ SerialRun e met run ∧
    (e.serve x.command).Runs (ServedCall.table run) x.events x.result x.after ∧ met x.given x.events := by
  constructor
  · intro h
    generalize hall : run ++ [x] = all at h
    cases h with
    | nil => simp at hall
    | snoc run' x' h hrun hmet =>
      obtain ⟨rfl, hx⟩ := List.append_inj' hall rfl
      obtain rfl := List.singleton_inj.mp hx
      exact ⟨h, hrun, hmet⟩
  · rintro ⟨h, hrun, hmet⟩
    exact .snoc run x h hrun hmet

theorem of_prefix (h : SerialRun e met run) (hfirst : first <+: run) : SerialRun e met first := by
  obtain ⟨rest, rfl⟩ := hfirst
  induction rest using List.reverseRecOn with
  | nil => rwa [List.append_nil] at h
  | append_singleton rest x ih =>
    rw [← List.append_assoc] at h
    exact ih (concat_iff.mp h).1

section Plans

variable (hserve : ∀ c given t, ∃ events r after, (e.serve c).Runs t events r after ∧ met given events)
include hserve

/-- If every call can be served in keeping with anything that is settled about it, a run goes on with every call. -/
theorem exists_concat (h : SerialRun e met run) (p : Command × S) :
    ∃ x, SerialRun e met (run ++ [x]) ∧ x.plan = p := by
  obtain ⟨events, r, after, hrun, hmet⟩ := hserve p.1 p.2 (ServedCall.table run)
  exact ⟨⟨p.1, p.2, events, r, after⟩, .snoc run _ h hrun hmet, rfl⟩

theorem exists_of_plan (plan : List (Command × S)) :
    ∃ run, SerialRun e met run ∧ run.map ServedCall.plan = plan := by
  induction plan using List.reverseRecOn with
  | nil => exact ⟨[], .nil, rfl⟩
  | append_singleton plan p ih =>
    obtain ⟨run, hrun, rfl⟩ := ih
    obtain ⟨x, hx, rfl⟩ := hrun.exists_concat hserve p
    exact ⟨run ++ [x], hx, by rw [List.map_append, List.map_singleton]⟩

end Plans

end SerialRun

end SessionWarden
