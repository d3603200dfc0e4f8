import SessionWarden.Proofs.Session.Moments
import SessionWarden.Proofs.Session.Stages
/-!
# Sessions stay with their user

A renewal stores a record for the user of the record that it read, and the record that it takes out is the one that it
read. So all records of a session are of one user, whatever calls are in flight.
-/

namespace SessionWarden

/-! ### What a renewal stores -/

/-- When a call may store a record: a renewal stores one for the user of a record that it read. -/
def Command.Inherits (c : Command) (past : List Event) : Query → Prop
  | .table (.insert r) =>
    ∀ id signal, c = .refresh id signal → ∃ x, ⟨.table (.get id), some x⟩ ∈ past ∧ r.user = x.user
  | _ => True

theorem Command.inherits_of_ne {c : Command} {past : List Event} {q : Query} (hq : ∀ r, q ≠ .table (.insert r)) :
    c.Inherits past q := by
  unfold Inherits
  split
  · exact absurd rfl (hq _)
  · trivial

theorem Query.Plain.ne_insert {q : Query} (h : q.Plain) (r : Record) : q ≠ .table (.insert r) := by
  rintro rfl
  exact h

theorem Query.Still.ne_insert {q : Query} (h : q.Still) (r : Record) : q ≠ .table (.insert r) := by
  rintro rfl
  exact h

/-- A script that leaves the table alone keeps to every rule that is about changes of the table only. -/
theorem Script.Still.obeys {α : Type} {allowed : List Event → Query → Prop} {fits : List Event → α → Prop}
    {s : Script α} (hs : s.Still) {past : List Event} (hq : ∀ past q, q.Still → allowed past q)
    (ha : ∀ past a, fits past a) : s.Obeys allowed fits past := by
  induction s generalizing past with
  | done a => exact ha past a
  | ask q next ih => exact ⟨hq past q hs.1, fun reply _ => ih reply (hs.2 reply)⟩

section Operations

open SessionWarden.Action (obeys_bind)

theorem obeys_refresh_inherits (e : Engine) (id : TokenId) (signal : Bytes) :
    (e.refresh id signal).Obeys (Command.refresh id signal).Inherits (fun _ _ => True) [] := by
  refine obeys_bind (obeys_findBound (fun past q hq => Command.inherits_of_ne hq.ne_insert) (fun _ _ => trivial)
    fun old read _ => ?_)
  refine obeys_bind (obeys_newRecord trivial (fun _ => trivial) (fun _ _ => trivial) fun time fresh new hnew => ?_)
  obtain ⟨expires, -, rfl⟩ := Option.map_eq_some_iff.mp hnew
  refine ⟨trivial, fun asked _ => obeys_bind (obeys_rotate trivial trivial (fun _ => trivial) ?_ (fun _ _ => trivial)
    (fun _ => ?_) fun _ => ?_)⟩
  · rintro late _ _ ⟨⟩
    exact ⟨old, by simp, rfl⟩
  · exact (still_lost old _ _).obeys (fun past q hq => Command.inherits_of_ne hq.ne_insert) fun _ _ => trivial
  · exact (still_granted e _ _ _).obeys (fun past q hq => Command.inherits_of_ne hq.ne_insert) fun _ _ => trivial

theorem obeys_serve_inherits (e : Engine) (c : Command) : (e.serve c).Obeys c.Inherits (fun _ _ => True) [] := by
  have hother : (∀ id signal, c ≠ .refresh id signal) → (e.serve c).Obeys c.Inherits (fun _ _ => True) [] := by
    intro hc
    refine Script.obeys_of_forall _ (fun past q => ?_) fun _ _ => trivial
    unfold Command.Inherits
    split
    · exact fun id signal h => absurd h (hc id signal)
    · trivial
  cases c with
  | refresh id signal =>
    refine obeys_bind (Script.obeys_mono (obeys_refresh_inherits e id signal) ?_)
    rintro past (err | p) -
    · trivial
    · trivial
  | create user signal persistent => exact hother (by simp)
  | get id => exact hother (by simp)
  | delete id signal => exact hother (by simp)
  | deleteAll id signal => exact hother (by simp)

end Operations

namespace Traffic

variable {e : Engine} {s : Traffic}

theorem Reachable.succeeds_user (h : Reachable e s) {old new : Record} (hold : old ∈ s.stored)
    (hs : s.Succeeds old new) : new.user = old.user := by
  obtain ⟨k, time, hremoved, hstored⟩ := hs
  obtain ⟨⟨command, script⟩, hk, -, -, hids⟩ := h.of_stored hstored
  have hmem : old.id ∈ (s.eventsOf k).filterMap Event.consumed? :=
    List.mem_filterMap.mpr ⟨_, mem_eventsOf.mpr hremoved, rfl⟩
  cases command with
  | refresh id signal =>
    have hids : [id] = _ := Option.some.inj hids
    rw [← hids] at hmem
    have hid : old.id = id := List.mem_singleton.mp hmem
    obtain ⟨hkept, -⟩ := Reachable.kept_obeys (obeys_serve_inherits e) h k _ hk
    obtain ⟨past, hpast, hallowed⟩ := hkept.of_mem (mem_eventsOf.mpr hstored)
    obtain ⟨x, hx, huser⟩ := hallowed id signal rfl
    -- the record that was read has the identifier that was taken out, so it is the record that was taken out
    obtain ⟨hxstored, hxid⟩ := h.of_read (mem_eventsOf.mp (hpast _ hx))
    rw [huser, h.stored_eq hxstored hold (hxid.trans hid.symm)]
  | create user signal persistent =>
    have hids : [] = _ := Option.some.inj hids
    rw [← hids] at hmem
    cases hmem
  | get id => cases hids
  | delete id signal => cases hids
  | deleteAll id signal => cases hids

end Traffic

end SessionWarden
