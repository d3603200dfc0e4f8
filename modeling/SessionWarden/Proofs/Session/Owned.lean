import SessionWarden.Proofs.Session.Operations
/-!
# The records of a user

What the calls on the table do to the records of one user, and what a scan in the order of expiry gives when
no two records of the user expire at the same time: their list in the order of insertion.
-/

namespace SessionWarden

variable {t : Table}

/-! ### Calls on the table -/

namespace Table

theorem mem_ownedBy {user : UserId} {x : Record} : x ∈ t.ownedBy user ↔ x ∈ t.records ∧ x.user = user := by
  simp only [ownedBy, List.mem_filter, beq_iff_eq]

theorem ownedBy_removeAll (ids : List TokenId) (user : UserId) :
    (t.removeAll ids).ownedBy user = (t.ownedBy user).filter fun x => decide (x.id ∉ ids) := by
  simp only [ownedBy, records_removeAll, List.filter_filter, Bool.and_comm]

theorem records_removeAll_sublist (ids : List TokenId) : (t.removeAll ids).records.Sublist t.records := by
  rw [records_removeAll]
  exact List.filter_sublist

theorem ownedBy_remove (id : TokenId) (user : UserId) :
    (t.remove id).ownedBy user = (t.ownedBy user).filter fun x => x.id != id := by
  simp only [ownedBy, records_remove, List.filter_filter, Bool.and_comm]

theorem ownedBy_remove_of_get {id : TokenId} {x : Record} (h : t.get id = some x) (user : UserId) :
    (t.remove id).ownedBy user =
      if user = x.user then (t.ownedBy user).filter fun y => y.id != id else t.ownedBy user := by
  rw [ownedBy_remove]
  split
  · rfl
  · rename_i hne
    rw [List.filter_eq_self]
    intro y hy
    obtain ⟨hmem, huser⟩ := mem_ownedBy.mp hy
    rw [bne_iff_ne]
    intro hid
    have hget : t.get id = some y := get_eq_some_iff.mpr ⟨hmem, hid⟩
    rw [h] at hget
    exact hne (huser.symm.trans (congrArg Record.user (Option.some.inj hget).symm))

theorem ownedBy_removeOwnedBy (owner user : UserId) :
    (t.removeOwnedBy owner).ownedBy user = if user = owner then [] else t.ownedBy user := by
  simp only [ownedBy, records_removeOwnedBy, List.filter_filter]
  split
  · rename_i h
    subst h
    rw [List.filter_eq_nil_iff]
    intro x hx
    simp
  · rename_i h
    apply List.filter_congr
    intro x hx
    by_cases hxu : x.user = user
    · subst hxu
      simp [h]
    · simp [hxu]

/-- A record under an identifier that is not there goes to the end of its owner's records. -/
theorem ownedBy_insert {r : Record} (hfresh : ∀ x ∈ t.records, x.id ≠ r.id) (user : UserId) :
    (t.insert r).ownedBy user = if user = r.user then t.ownedBy user ++ [r] else t.ownedBy user := by
  have hkeep : t.records.filter (fun x => x.id != r.id) = t.records :=
    List.filter_eq_self.mpr fun x hx => by simp [hfresh x hx]
  simp only [ownedBy, records_insert, hkeep, List.filter_append]
  by_cases h : user = r.user
  · subst h
    simp
  · simp [h, Ne.symm h]

theorem nodup_ownedBy (user : UserId) : ((t.ownedBy user).map Record.id).Nodup :=
  t.nodup_ids.sublist (List.filter_sublist.map Record.id)

theorem ownedBy_removeAll_of_ne {owner user : UserId} (hne : user ≠ owner) {l : List Record}
    (hl : ∀ x ∈ l, x ∈ t.ownedBy owner) : (t.removeAll (l.map Record.id)).ownedBy user = t.ownedBy user := by
  rw [ownedBy_removeAll, List.filter_eq_self]
  intro x hx
  have hxuser := (mem_ownedBy.mp hx).2
  simp only [decide_eq_true_eq, List.mem_map, not_exists, not_and]
  intro y hy hid
  have hyowner := mem_ownedBy.mp (hl y hy)
  have hsame := eq_of_mem_of_id_eq hyowner.1 (mem_ownedBy.mp hx).1 hid
  exact hne (hxuser.symm.trans (hsame ▸ hyowner.2))

theorem filter_not_mem_take {l : List Record} (hnd : (l.map Record.id).Nodup) (n : Nat) :
    l.filter (fun x => decide (x.id ∉ (l.take n).map Record.id)) = l.drop n := by
  induction l generalizing n with
  | nil => simp
  | cons x xs ih =>
    rw [List.map_cons, List.nodup_cons] at hnd
    cases n with
    | zero => simp
    | succ n =>
      have htail : xs.filter (fun y => decide (y.id ∉ ((x :: xs).take (n + 1)).map Record.id)) =
          xs.filter fun y => decide (y.id ∉ (xs.take n).map Record.id) := by
        apply List.filter_congr
        intro y hy
        have hne : y.id ≠ x.id := fun hid => hnd.1 (List.mem_map.mpr ⟨y, hy, hid⟩)
        simp only [List.take_succ_cons, List.map_cons, List.mem_cons, hne, false_or]
      rw [List.filter_cons_of_neg (by simp), htail, ih hnd.2 n, List.drop_succ_cons]

theorem ownedBy_removeAll_take (user : UserId) (n : Nat) :
    (t.removeAll (((t.ownedBy user).take n).map Record.id)).ownedBy user = (t.ownedBy user).drop n := by
  rw [ownedBy_removeAll, filter_not_mem_take (nodup_ownedBy user)]

end Table

/-! ### Scans in the order of expiry -/

theorem eq_of_expires_eq {l : List Record} (hl : l.Pairwise fun x y => x.expires < y.expires) {x y : Record}
    (hx : x ∈ l) (hy : y ∈ l) (h : x.expires.nanos = y.expires.nanos) : x = y := by
  induction l with
  | nil => cases hx
  | cons z zs ih =>
    rw [List.pairwise_cons] at hl
    rcases List.mem_cons.mp hx with rfl | hxs
    · rcases List.mem_cons.mp hy with rfl | hys
      · rfl
      · have hlt : x.expires.nanos < y.expires.nanos := hl.1 y hys
        omega
    · rcases List.mem_cons.mp hy with rfl | hys
      · have hlt : y.expires.nanos < x.expires.nanos := hl.1 x hxs
        omega
      · exact ih hl.2 hxs hys

theorem trans_expires (a b c : Record) (hab : decide (a.expires ≤ b.expires)) (hbc : decide (b.expires ≤ c.expires)) :
    decide (a.expires ≤ c.expires) := by
  simp only [decide_eq_true_eq] at hab hbc ⊢
  exact Int.le_trans hab hbc

theorem total_expires (a b : Record) : decide (a.expires ≤ b.expires) || decide (b.expires ≤ a.expires) := by
  simp only [Bool.or_eq_true, decide_eq_true_eq]
  exact Int.le_total _ _

theorem pairwise_byExpiry (found : List Record) :
    (Repository.byExpiry found).Pairwise fun x y => x.expires.nanos ≤ y.expires.nanos :=
  (List.pairwise_mergeSort trans_expires total_expires found).imp fun hab => of_decide_eq_true hab

/-- A scan of records that expire one after the other gives them in that order, however they are listed. -/
theorem byExpiry_eq {l found : List Record} (hl : l.Pairwise fun x y => x.expires < y.expires)
    (hfound : found.Perm l) : Repository.byExpiry found = l := by
  have hperm : (Repository.byExpiry found).Perm l := (List.mergeSort_perm found _).trans hfound
  have hle : l.Pairwise fun x y => x.expires.nanos ≤ y.expires.nanos := hl.imp fun h => Int.le_of_lt h
  have hsame : ∀ x y, x ∈ Repository.byExpiry found → y ∈ l → x.expires.nanos ≤ y.expires.nanos →
      y.expires.nanos ≤ x.expires.nanos → x = y := by
    intro x y hx hy hxy hyx
    exact eq_of_expires_eq hl (hperm.mem_iff.mp hx) hy (Int.le_antisymm hxy hyx)
  exact List.Perm.eq_of_pairwise hsame (pairwise_byExpiry found) hle hperm

end SessionWarden
