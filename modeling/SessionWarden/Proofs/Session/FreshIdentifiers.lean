import SessionWarden.Proofs.Session.Confined
import SessionWarden.Proofs.Session.SerialRuns
import SessionWarden.Proofs.Session.SingleUse
/-!
# Identifiers that are drawn once

Where calls that are served one after the other draw no identifier twice, a record is known by its identifier among all
that were ever stored, and a call that acts for one user leaves the records of all others as they were.
-/

namespace SessionWarden

variable {e : Engine} {t mid after : Table}

/-! ### What one call stores and leaves alone -/

/-- A record in a table that a script has come to was there before, or the script stored it. -/
theorem Script.Reaches.mem_before {α : Type} {s rest : Script α} {events : List Event}
    (h : s.Reaches t events rest mid) {x : Record} (hx : x ∈ mid.records) :
    x ∈ t.records ∨ x ∈ events.filterMap Event.stored? := by
  induction h with
  | refl s t => exact Or.inl hx
  | step q next t reply after events rest mid hanswer h ih =>
    rw [List.filterMap_cons]
    rcases ih hx with hmid | hstored
    · rcases hanswer.mem_before hmid with hold | rfl
      · exact Or.inl hold
      · exact Or.inr List.mem_cons_self
    · refine Or.inr ?_
      split
      · exact hstored
      · exact List.mem_cons_of_mem _ hstored

theorem Script.Runs.mem_before {α : Type} {s : Script α} {events : List Event} {a : α} (h : s.Runs t events a after)
    {x : Record} (hx : x ∈ after.records) : x ∈ t.records ∨ x ∈ events.filterMap Event.stored? :=
  h.reaches.mem_before hx

/-- A script that keeps to rules has events that were asked for when the rules allowed it. -/
theorem Script.Runs.kept {α : Type} {s : Script α} {allowed : List Event → Query → Prop}
    {fits : List Event → α → Prop} {past events : List Event} {a : α} (h : s.Runs t events a after)
    (hobeys : s.Obeys allowed fits past) (hpast : Traffic.Kept allowed past) :
    Traffic.Kept allowed (past ++ events) := by
  induction s generalizing t past events with
  | done b =>
    obtain ⟨rfl, -, -⟩ := h
    rwa [List.append_nil]
  | ask q next ih =>
    obtain ⟨reply, mid, rest, rfl, hanswer, hrest⟩ := h
    obtain ⟨hq, hnext⟩ := hobeys
    have hpossible : q.Possible reply := ⟨t, mid, hanswer⟩
    have hkept := ih reply hrest (hnext reply hpossible) (.snoc past ⟨q, reply⟩ hpast hq hpossible)
    rwa [List.append_assoc] at hkept

theorem Command.kept_of_runs {c : Command} {events : List Event} {r : Except AuthError Outcome}
    (h : (e.serve c).Runs t events r after) : Traffic.Kept c.Allows events :=
  Script.Runs.kept h (obeys_serve e c) .nil

theorem Engine.mem_of_mem_evicted {found : List Record} {x : Record} (hx : x ∈ e.evicted found) : x ∈ found := by
  unfold evicted at hx
  split at hx
  · cases hx
  · exact Repository.mem_byExpiry.mp (List.mem_of_mem_take hx)

/-- No stage of a call for one user touches a record of another, if what is drawn is new. -/
theorem Stage.ownedBy_of_ne {c : Command} {events : List Event} (h : Stage e t events c mid) {owner user : UserId}
    (hc : c.Confined owner t) (hne : user ≠ owner)
    (hfresh : ∀ id, ⟨.mint, id⟩ ∈ events → ∀ x ∈ t.records, x.id ≠ id) : mid.ownedBy user = t.ownedBy user := by
  cases h with
  | same c => rfl
  | evicting _ signal persistent found n hfound =>
    obtain rfl : _ = owner := hc
    exact Table.ownedBy_removeAll_of_ne hne fun x hx =>
      hfound.mem_iff.mp (Engine.mem_of_mem_evicted (List.mem_of_mem_take hx))
  | opened _ signal persistent found new hfound hnew =>
    obtain rfl : _ = owner := hc
    have hroom : (t.removeAll ((e.evicted found).map Record.id)).ownedBy user = t.ownedBy user :=
      Table.ownedBy_removeAll_of_ne hne fun x hx => hfound.mem_iff.mp (Engine.mem_of_mem_evicted hx)
    rw [Table.ownedBy_insert, if_neg (hnew.user_eq ▸ hne), hroom]
    intro x hx
    rw [Table.records_removeAll] at hx
    exact hfresh new.id hnew.minted x (List.mem_filter.mp hx).1
  | taken id signal old hget =>
    have hold : old.user = owner := Table.Reserves.user_eq hc hget
    rw [Table.ownedBy_remove_of_get hget, if_neg (hold ▸ hne)]
  | renewed id signal old new hget hsignal hnew hlive =>
    have hold : old.user = owner := Table.Reserves.user_eq hc hget
    have hremoved : (t.remove id).ownedBy user = t.ownedBy user := by
      rw [Table.ownedBy_remove_of_get hget, if_neg (hold ▸ hne)]
    rw [Table.ownedBy_insert, if_neg (hnew.user_eq.trans hold ▸ hne), hremoved]
    intro x hx
    exact hfresh new.id hnew.minted x (Table.mem_remove.mp hx).1
  | closed id signal x hget =>
    have hx : x.user = owner := Table.Reserves.user_eq hc hget
    rw [Table.ownedBy_remove_of_get hget, if_neg (hx ▸ hne)]
  | closedAll id signal x hget =>
    have hx : x.user = owner := Table.Reserves.user_eq hc hget
    rw [Table.ownedBy_removeOwnedBy, if_neg (hx ▸ hne)]

/-! ### Records and their identifiers -/

namespace SerialRun

variable {S : Type} {met : S → List Event → Prop} {draws : S → TokenId} {run : List (ServedCall S)} {x : ServedCall S}

theorem mem_stored (h : SerialRun e met run) {z : Record} (hz : z ∈ (ServedCall.table run).records) :
    z ∈ ServedCall.stored run := by
  induction h with
  | nil => cases hz
  | snoc run x h hrun hmet ih =>
    rw [ServedCall.table_concat] at hz
    rw [ServedCall.stored_append, ServedCall.stored_singleton]
    rcases Script.Runs.mem_before hrun hz with hold | hnew
    · exact List.mem_append_left _ (ih hold)
    · exact List.mem_append_right _ hnew

theorem stored_sublist (h : SerialRun e met run) :
    ((ServedCall.stored run).map Record.id).Sublist (ServedCall.drawn run) := by
  induction h with
  | nil => exact List.nil_sublist _
  | snoc run x h hrun hmet ih =>
    rw [ServedCall.stored_append, ServedCall.drawn_append, List.map_append, ServedCall.stored_singleton,
      ServedCall.drawn_singleton]
    refine ih.append ?_
    rcases (Command.tidy_of_kept (Command.kept_of_runs hrun)).stored with hnone | ⟨r, hr, hdrawn, -⟩
    · rw [hnone]
      exact List.nil_sublist _
    · rw [hr, hdrawn]
      exact List.Sublist.refl _

theorem nodup_stored (h : SerialRun e met run) (hfresh : (ServedCall.drawn run).Nodup) :
    ((ServedCall.stored run).map Record.id).Nodup := hfresh.sublist h.stored_sublist

/-- Where it is settled beforehand what a call draws if it draws anything, the calls draw part of this. -/
theorem drawn_sublist (h : SerialRun e met run)
    (hdraws : ∀ given events id, met given events → ⟨.mint, id⟩ ∈ events → id = draws given) :
    (ServedCall.drawn run).Sublist (run.map fun x => draws x.given) := by
  induction h with
  | nil => exact List.nil_sublist _
  | snoc run x h hrun hmet ih =>
    rw [ServedCall.drawn_append, ServedCall.drawn_singleton, List.map_append, List.map_singleton]
    refine ih.append ?_
    have hone := Command.length_drawn_of_kept (Command.kept_of_runs hrun)
    cases hdrawn : x.events.filterMap Event.drawn? with
    | nil => exact List.nil_sublist _
    | cons id rest =>
      rw [hdrawn, List.length_cons] at hone
      obtain rfl : rest = [] := List.length_eq_zero_iff.mp (by omega)
      have hid : id ∈ x.events.filterMap Event.drawn? := hdrawn ▸ List.mem_cons_self
      obtain ⟨ev, hev, hdraw⟩ := List.mem_filterMap.mp hid
      obtain rfl := Event.drawn?_eq_some.mp hdraw
      rw [hdraws _ _ id hmet hev]

theorem fresh_of_mint (h : SerialRun e met (run ++ [x])) (hfresh : (ServedCall.drawn (run ++ [x])).Nodup)
    (id : TokenId) (hmint : ⟨.mint, id⟩ ∈ x.events) (z : Record) (hz : z ∈ (ServedCall.table run).records) :
    z.id ≠ id := by
  have hbefore := (concat_iff.mp h).1
  have hold : z.id ∈ ServedCall.drawn run :=
    hbefore.stored_sublist.subset (List.mem_map_of_mem (hbefore.mem_stored hz))
  rw [ServedCall.drawn_append, ServedCall.drawn_singleton, List.nodup_append] at hfresh
  exact hfresh.2.2 z.id hold id (List.mem_filterMap.mpr ⟨_, hmint, rfl⟩)

/-- The last call leaves the records of all users alone but those of the one for whom it acts. -/
theorem ownedBy_of_ne (h : SerialRun e met (run ++ [x])) (hfresh : (ServedCall.drawn (run ++ [x])).Nodup)
    {owner user : UserId} (hx : x.command.Confined owner (ServedCall.table run)) (hne : user ≠ owner) :
    x.after.ownedBy user = (ServedCall.table run).ownedBy user := by
  obtain ⟨-, hrun, -⟩ := concat_iff.mp h
  exact (stage_of_runs hrun).ownedBy_of_ne hx hne (h.fresh_of_mint hfresh)

end SerialRun

end SessionWarden
