import Mathlib.Data.List.Pairwise
import SessionWarden.Proofs.Session.Discipline
/-!
# Single use of refresh tokens

Identifiers are never drawn twice and a call stores under an identifier of its own, so no record is ever stored
under an identifier that was stored before. Hence what has left the table stays out, an identifier is consumed
once, and of the records of one session only the last can be there.
-/

namespace SessionWarden

/-! ### What one step does to the table -/

theorem Table.Answers.mem_before {t after : Table} {q : Query} {reply : q.Reply}
    (h : t.Answers q reply after) {x : Record} (hx : x ∈ after.records) :
    x ∈ t.records ∨ q = .table (.insert x) := by
  cases q with
  | table call =>
    obtain ⟨-, rfl⟩ := h
    cases call with
    | get id => exact Or.inl hx
    | insert r =>
      rcases Table.mem_insert.mp hx with rfl | ⟨hold, -⟩
      · exact Or.inr rfl
      · exact Or.inl hold
    | remove id => exact Or.inl (Table.mem_remove.mp hx).1
    | removeLive id time =>
      rcases removeLive_cases t id time with ⟨-, hperf⟩ | ⟨y, -, -, hperf⟩
      · rw [hperf] at hx
        exact Or.inl hx
      · rw [hperf] at hx
        exact Or.inl (Table.mem_remove.mp hx).1
    | ownedBy user => exact Or.inl hx
    | removeOwnedBy user => exact Or.inl (List.mem_filter.mp hx).1
  | now => exact Or.inl (h ▸ hx)
  | mint => exact Or.inl (h ▸ hx)
  | note n => exact Or.inl (h ▸ hx)
  | enter m => exact Or.inl (h ▸ hx)
  | rotationTime id asked => exact Or.inl (h ▸ hx)
  | roles user => exact Or.inl (h ▸ hx)
  | account name => exact Or.inl (h ▸ hx)
  | sign signer text => exact Or.inl (h.2 ▸ hx)

theorem Table.Answers.removed {t after : Table} {id : TokenId} {time : Instant}
    (h : t.Answers (.table (.removeLive id time)) true after) :
    (∃ x ∈ t.records, x.id = id) ∧ ∀ x ∈ after.records, x.id ≠ id := by
  obtain ⟨hreply, rfl⟩ := h
  have hreply : true = ((TableCall.removeLive id time).perform t).1 := hreply
  rcases removeLive_cases t id time with ⟨-, hperf⟩ | ⟨x, hx, -, hperf⟩
  · rw [hperf] at hreply
    cases hreply
  · rw [hperf]
    obtain ⟨hmem, hid⟩ := Table.get_eq_some_iff.mp hx
    exact ⟨⟨x, hmem, hid⟩, fun y hy => (Table.mem_remove.mp hy).2⟩

namespace Traffic

variable {e : Engine} {s : Traffic}

/-! ### The events of all calls -/

theorem Attainable.tidy (h : Attainable e s) {k : Nat} {c : Call} (hk : s.calls[k]? = some c) :
    c.command.Tidy (s.eventsOf k) :=
  Command.tidy_of_kept (Attainable.kept_obeys (obeys_serve e) h k c hk).1

theorem Reachable.tidy (h : Reachable e s) {k : Nat} {c : Call} (hk : s.calls[k]? = some c) :
    c.command.Tidy (s.eventsOf k) := Attainable.tidy (Path.moves h) hk

theorem mem_drawn {id : TokenId} : id ∈ s.drawn ↔ ∃ k, (k, ⟨.mint, id⟩) ∈ s.history := by
  simp only [drawn, List.mem_filterMap, Event.drawn?_eq_some, Prod.exists, exists_eq_right]

theorem mem_stored {x : Record} : x ∈ s.stored ↔ ∃ k, (k, ⟨.table (.insert x), ()⟩) ∈ s.history := by
  simp only [stored, List.mem_filterMap, Event.stored?_eq_some, Prod.exists, exists_eq_right]

theorem mem_consumed {id : TokenId} :
    id ∈ s.consumed ↔ ∃ k time, (k, ⟨.table (.removeLive id time), true⟩) ∈ s.history := by
  simp only [consumed, List.mem_filterMap, Event.consumed?_eq_some]
  constructor
  · rintro ⟨⟨k, ev⟩, hev, time, rfl⟩
    exact ⟨k, time, hev⟩
  · rintro ⟨k, time, hev⟩
    exact ⟨_, hev, time, rfl⟩

/-- The call that stored a record stored no other, drew its identifier, and consumed what it had to. -/
theorem Attainable.of_stored (h : Attainable e s) {k : Nat} {x : Record}
    (hx : (k, ⟨.table (.insert x), ()⟩) ∈ s.history) :
    ∃ c, s.calls[k]? = some c ∧ (s.eventsOf k).filterMap Event.stored? = [x] ∧
      (k, ⟨.mint, x.id⟩) ∈ s.history ∧
      c.command.consumes? = some ((s.eventsOf k).filterMap Event.consumed?) := by
  obtain ⟨c, hc⟩ := h.call_of_mem hx
  have hmem : x ∈ (s.eventsOf k).filterMap Event.stored? :=
    List.mem_filterMap.mpr ⟨_, mem_eventsOf.mpr hx, rfl⟩
  rcases (h.tidy hc).stored with hnone | ⟨r, hr, hdrawn, hids⟩
  · rw [hnone] at hmem
    cases hmem
  · rw [hr] at hmem
    obtain rfl : x = r := List.mem_singleton.mp hmem
    have hid : x.id ∈ (s.eventsOf k).filterMap Event.drawn? := by
      rw [hdrawn]
      exact List.mem_singleton_self x.id
    obtain ⟨ev, hev, hdraw⟩ := List.mem_filterMap.mp hid
    obtain rfl := Event.drawn?_eq_some.mp hdraw
    exact ⟨c, hc, hr, mem_eventsOf.mp hev, hids⟩

theorem Reachable.of_stored (h : Reachable e s) {k : Nat} {x : Record}
    (hx : (k, ⟨.table (.insert x), ()⟩) ∈ s.history) :
    ∃ c, s.calls[k]? = some c ∧ (s.eventsOf k).filterMap Event.stored? = [x] ∧
      (k, ⟨.mint, x.id⟩) ∈ s.history ∧
      c.command.consumes? = some ((s.eventsOf k).filterMap Event.consumed?) :=
  Attainable.of_stored (Path.moves h) hx

/-! ### The invariant -/

/-- An identifier is drawn by one call; what is in the table was stored; what was consumed is gone, and was
consumed once. -/
structure Sound (s : Traffic) : Prop where
  drawn_once : ∀ j k id, (j, ⟨.mint, id⟩) ∈ s.history → (k, ⟨.mint, id⟩) ∈ s.history → j = k
  of_table : ∀ x ∈ s.table.records, x ∈ s.stored
  of_consumed : ∀ id ∈ s.consumed, (∃ x ∈ s.stored, x.id = id) ∧ ∀ x ∈ s.table.records, x.id ≠ id
  consumed_nodup : s.consumed.Nodup

theorem sound_empty : Sound empty where
  drawn_once := by
    intro j k id h
    cases h
  of_table := by
    intro x hx
    cases hx
  of_consumed := by
    intro id hid
    cases hid
  consumed_nodup := List.nodup_nil

theorem Sound.insert_fresh (h : Sound s) (hs : Reachable e s) {k : Nat} {c : Command} {r : Record}
    {next : Unit → Script (Except AuthError Outcome)}
    (hk : s.calls[k]? = some ⟨c, .ask (.table (.insert r)) next⟩) : ∀ x ∈ s.stored, x.id ≠ r.id := by
  intro x hx hid
  obtain ⟨-, ⟨hdrawn, hnone, -⟩, -⟩ := Reachable.kept_obeys (obeys_serve e) hs k _ hk
  -- the call that stored the other record drew the same identifier, so it is this call, which has stored nothing
  obtain ⟨j, hj⟩ := mem_stored.mp hx
  obtain ⟨c', -, hstored, hminted, -⟩ := hs.of_stored hj
  have hmem : r.id ∈ (s.eventsOf k).filterMap Event.drawn? := by
    rw [hdrawn]
    exact List.mem_singleton_self r.id
  obtain ⟨ev, hev, hdraw⟩ := List.mem_filterMap.mp hmem
  obtain rfl := Event.drawn?_eq_some.mp hdraw
  rw [hid] at hminted
  obtain rfl := h.drawn_once j k r.id hminted (mem_eventsOf.mp hev)
  rw [hnone] at hstored
  cases hstored

theorem Sound.step {s' : Traffic} (h : Sound s) (hs : Reachable e s) (hstep : Step e s s') : Sound s' := by
  cases hstep with
  | arrive c => exact ⟨h.drawn_once, h.of_table, h.of_consumed, h.consumed_nodup⟩
  | advance k c q next reply after hcall hanswer hfresh =>
    have hstored : ∀ x ∈ s.stored, x ∈ stored ⟨after, s.calls.set k ⟨c, next reply⟩,
        s.history ++ [(k, ⟨q, reply⟩)]⟩ := by
      intro x hx
      obtain ⟨j, hj⟩ := mem_stored.mp hx
      exact mem_stored.mpr ⟨j, List.mem_append_left _ hj⟩
    have hconsumed : consumed ⟨after, s.calls.set k ⟨c, next reply⟩, s.history ++ [(k, ⟨q, reply⟩)]⟩ =
        s.consumed ++ (Event.consumed? ⟨q, reply⟩).toList := by
      simp only [consumed, List.filterMap_append, List.filterMap_cons, List.filterMap_nil]
      cases (Event.consumed? ⟨q, reply⟩) <;> rfl
    -- a consumed identifier was in the table just before, and is gone just after
    have hnew : ∀ id ∈ (Event.consumed? ⟨q, reply⟩).toList,
        (∃ x ∈ s.table.records, x.id = id) ∧ ∀ x ∈ after.records, x.id ≠ id := by
      intro id hid
      obtain ⟨time, hev⟩ := Event.consumed?_eq_some.mp (Option.mem_toList.mp hid)
      cases hev
      exact hanswer.removed
    constructor
    · intro j j' id hj hj'
      rcases List.mem_append.mp hj with hold | hlast
      · rcases List.mem_append.mp hj' with hold' | hlast'
        · exact h.drawn_once j j' id hold hold'
        · cases List.mem_singleton.mp hlast'
          exact absurd (mem_drawn.mpr ⟨j, hold⟩) (hfresh id rfl)
      · cases List.mem_singleton.mp hlast
        rcases List.mem_append.mp hj' with hold' | hlast'
        · exact absurd (mem_drawn.mpr ⟨j', hold'⟩) (hfresh id rfl)
        · cases List.mem_singleton.mp hlast'
          rfl
    · intro x hx
      rcases hanswer.mem_before hx with hold | rfl
      · exact hstored x (h.of_table x hold)
      · exact mem_stored.mpr ⟨k, List.mem_append_right _ (List.mem_singleton_self _)⟩
    · intro id hid
      rw [hconsumed] at hid
      rcases List.mem_append.mp hid with hold | hlast
      · obtain ⟨⟨y, hy, hyid⟩, hgone⟩ := h.of_consumed id hold
        refine ⟨⟨y, hstored y hy, hyid⟩, ?_⟩
        intro x hx
        rcases hanswer.mem_before hx with hbefore | rfl
        · exact hgone x hbefore
        · intro hxid
          exact h.insert_fresh hs hcall y hy (hyid.trans hxid.symm)
      · obtain ⟨⟨y, hy, hyid⟩, hgone⟩ := hnew id hlast
        exact ⟨⟨y, hstored y (h.of_table y hy), hyid⟩, hgone⟩
    · rw [hconsumed, List.nodup_append]
      refine ⟨h.consumed_nodup, ?_, ?_⟩
      · cases (Event.consumed? ⟨q, reply⟩) with
        | none => exact List.nodup_nil
        | some id => simp only [Option.toList_some, List.nodup_cons, List.not_mem_nil, not_false_eq_true,
            List.nodup_nil, and_self]
      · intro id hid id' hid' heq
        subst heq
        obtain ⟨⟨y, hy, hyid⟩, -⟩ := hnew id hid'
        exact (h.of_consumed id hid).2 y hy hyid

theorem Reachable.sound (h : Reachable e s) : Sound s := by
  induction h with
  | refl => exact sound_empty
  | tail hpath hstep ih => exact ih.step hpath hstep

/-! ### Identifiers that are gone -/

theorem Step.history_mono {s' : Traffic} (h : Step e s s') : ∀ x ∈ s.history, x ∈ s'.history := by
  cases h with
  | arrive c => exact fun x hx => hx
  | advance k c q next reply after hcall hanswer hfresh => exact fun x hx => List.mem_append_left _ hx

theorem Path.history_mono {s' : Traffic} (h : Path e s s') : ∀ x ∈ s.history, x ∈ s'.history := by
  induction h with
  | refl => exact fun x hx => hx
  | tail hpath hstep ih => exact fun x hx => hstep.history_mono x (ih x hx)

/-- An identifier that was stored and is not in the table does not come back in one step. -/
theorem Step.gone {s' : Traffic} (hs : Reachable e s) (h : Step e s s') {id : TokenId}
    (hid : ∃ x ∈ s.stored, x.id = id) (hgone : ∀ x ∈ s.table.records, x.id ≠ id) :
    ∀ x ∈ s'.table.records, x.id ≠ id := by
  cases h with
  | arrive c => exact hgone
  | advance k c q next reply after hcall hanswer hfresh =>
    intro x hx
    rcases hanswer.mem_before hx with hold | rfl
    · exact hgone x hold
    · obtain ⟨y, hy, hyid⟩ := hid
      intro hxid
      exact hs.sound.insert_fresh hs hcall y hy (hyid.trans hxid.symm)

theorem Path.gone {s' : Traffic} (hs : Reachable e s) (h : Path e s s') {id : TokenId}
    (hid : ∃ x ∈ s.stored, x.id = id) (hgone : ∀ x ∈ s.table.records, x.id ≠ id) :
    ∀ x ∈ s'.table.records, x.id ≠ id := by
  induction h with
  | refl => exact hgone
  | tail hpath hstep ih =>
    obtain ⟨x, hx, hxid⟩ := hid
    obtain ⟨k, hk⟩ := mem_stored.mp hx
    exact hstep.gone (hs.trans hpath) ⟨x, mem_stored.mpr ⟨k, Path.history_mono hpath _ hk⟩, hxid⟩ ih

/-! ### Rotations of one identifier -/

theorem Sound.consumed_once (h : Sound s) {a b : Nat × Event} (ha : a ∈ s.history) (hb : b ∈ s.history)
    {id : TokenId} (hida : a.2.consumed? = some id) (hidb : b.2.consumed? = some id) : a = b := by
  have hpairs := List.pairwise_filterMap.mp h.consumed_nodup
  by_cases hab : a = b
  · exact hab
  · have hsymm : Std.Symm fun a b : Nat × Event =>
        ∀ i, a.2.consumed? = some i → ∀ j, b.2.consumed? = some j → i ≠ j :=
      ⟨fun a b hne i hi j hj => (hne j hj i hi).symm⟩
    exact absurd rfl (hpairs.forall ha hb hab id hida id hidb)

theorem Reachable.consumed_of_done (h : Reachable e s) {k : Nat} {id : TokenId} {signal : Bytes} {o : Outcome}
    (hk : s.calls[k]? = some ⟨.refresh id signal, .done (.ok o)⟩) :
    ∃ ev, (k, ev) ∈ s.history ∧ ev.consumed? = some id := by
  have hfits := (Reachable.kept_obeys (obeys_serve e) h k _ hk).2
  have hids : (s.eventsOf k).filterMap Event.consumed? = [id] := hfits o [id] rfl rfl
  have hmem : id ∈ (s.eventsOf k).filterMap Event.consumed? := by
    rw [hids]
    exact List.mem_singleton_self id
  obtain ⟨ev, hev, hid⟩ := List.mem_filterMap.mp hmem
  exact ⟨ev, mem_eventsOf.mp hev, hid⟩

/-! ### Sessions -/

/-- Whether a session began with a record: a create stored it. -/
def Begun (s : Traffic) (root : Record) : Prop :=
  ∃ k user signal persistent script, s.calls[k]? = some ⟨.create user signal persistent, script⟩ ∧
    (k, ⟨.table (.insert root), ()⟩) ∈ s.history

/-- Whether a call took one record out and stored another in its place. -/
def Succeeds (s : Traffic) (old new : Record) : Prop :=
  ∃ k time, (k, ⟨.table (.removeLive old.id time), true⟩) ∈ s.history ∧
    (k, ⟨.table (.insert new), ()⟩) ∈ s.history

/-- The records of a session: the one that it began with and all that were rotated from it. -/
abbrev InSession (s : Traffic) : Record → Record → Prop := Relation.ReflTransGen s.Succeeds

theorem Step.succeeds_mono {s' : Traffic} (h : Step e s s') {old new : Record} (hr : s.Succeeds old new) :
    s'.Succeeds old new := by
  obtain ⟨k, time, hremoved, hstored⟩ := hr
  exact ⟨k, time, h.history_mono _ hremoved, h.history_mono _ hstored⟩

theorem Step.begun_mono {s' : Traffic} (h : Step e s s') {root : Record} (hr : s.Begun root) :
    s'.Begun root := by
  obtain ⟨k, user, signal, persistent, script, hk, hstored⟩ := hr
  obtain ⟨⟨c, script'⟩, hk', rfl⟩ := Path.command_eq (Relation.ReflTransGen.single h) hk
  exact ⟨k, user, signal, persistent, script', hk', h.history_mono _ hstored⟩

theorem Reachable.rooted (h : Reachable e s) : ∀ x ∈ s.stored, ∃ root, s.Begun root ∧ s.InSession root x := by
  induction h with
  | refl =>
    intro x hx
    cases hx
  | @tail s s' hpath hstep ih =>
    have hold : ∀ x ∈ s.stored, ∃ root, s'.Begun root ∧ s'.InSession root x := by
      intro x hx
      obtain ⟨root, hroot, hchain⟩ := ih x hx
      exact ⟨root, hstep.begun_mono hroot, Relation.ReflTransGen.mono (fun _ _ => hstep.succeeds_mono) _ _ hchain⟩
    intro x hx
    obtain ⟨k, hk⟩ := mem_stored.mp hx
    obtain ⟨⟨command, script⟩, hcall', -, -, hids⟩ := Reachable.of_stored (hpath.tail hstep) hk
    cases hstep with
    | arrive c => exact hold x hx
    | advance j c q next reply after hcall hanswer hfresh =>
      rcases List.mem_append.mp hk with hbefore | hlast
      · exact hold x (mem_stored.mpr ⟨k, hbefore⟩)
      -- the record has just been stored: it begins a session, or follows the record that its call took out
      · cases List.mem_singleton.mp hlast
        cases command with
        | create user signal persistent =>
          exact ⟨x, ⟨k, user, signal, persistent, script, hcall', hk⟩, .refl⟩
        | refresh id signal =>
          have hids : [id] = _ := Option.some.inj hids
          have hmem : id ∈ (eventsOf ⟨after, s.calls.set k ⟨c, next ()⟩,
              s.history ++ [(k, ⟨.table (.insert x), ()⟩)]⟩ k).filterMap Event.consumed? := by
            rw [← hids]
            exact List.mem_singleton_self id
          obtain ⟨ev, hev, hconsumed⟩ := List.mem_filterMap.mp hmem
          obtain ⟨time, rfl⟩ := Event.consumed?_eq_some.mp hconsumed
          have hev := mem_eventsOf.mp hev
          rcases List.mem_append.mp hev with hearlier | hlast
          · obtain ⟨⟨y, hy, rfl⟩, -⟩ := (Reachable.sound hpath).of_consumed id
              (mem_consumed.mpr ⟨k, time, hearlier⟩)
            obtain ⟨root, hroot, hchain⟩ := hold y hy
            exact ⟨root, hroot, hchain.tail ⟨k, time, hev, hk⟩⟩
          · cases List.mem_singleton.mp hlast
        | get id => cases hids
        | delete id signal => cases hids
        | deleteAll id signal => cases hids

theorem Reachable.succeeds_unique (h : Reachable e s) : Relator.RightUnique s.Succeeds := by
  rintro old x y ⟨j, time, hj, hx⟩ ⟨k, time', hk, hy⟩
  cases h.sound.consumed_once hj hk rfl rfl
  obtain ⟨-, -, hstored, -⟩ := h.of_stored hx
  obtain ⟨-, -, hstored', -⟩ := h.of_stored hy
  rw [hstored] at hstored'
  exact List.head_eq_of_cons_eq hstored'

theorem Reachable.not_succeeded (h : Reachable e s) {x y : Record} (hx : x ∈ s.table.records) :
    ¬ s.Succeeds x y := by
  rintro ⟨k, time, hk, -⟩
  exact (h.sound.of_consumed x.id (mem_consumed.mpr ⟨k, time, hk⟩)).2 x hx rfl

theorem Reachable.session_eq (h : Reachable e s) {root x y : Record} (hx : x ∈ s.table.records)
    (hy : y ∈ s.table.records) (hxs : s.InSession root x) (hys : s.InSession root y) : x = y := by
  rcases Relation.ReflTransGen.total_of_right_unique h.succeeds_unique hxs hys with hxy | hyx
  -- the records of a session form a chain, of which only the last can be in the table
  · rcases hxy.cases_head with rfl | ⟨z, hxz, -⟩
    · rfl
    · exact absurd hxz (h.not_succeeded hx)
  · rcases hyx.cases_head with rfl | ⟨z, hyz, -⟩
    · rfl
    · exact absurd hyz (h.not_succeeded hy)

end Traffic

end SessionWarden
