import SessionWarden.Proofs.Session.FailedCreate
/-!
# The capacity of users

No user ever has more records than fit, whatever goes wrong in calls that run one after the other: the clock may go
back, identifiers may repeat, and every part of the world may fail at any time. A removal frees room, a rotation takes
one record out before it puts one in, and an opening stores only after it has made room.
-/

namespace SessionWarden

variable {e : Engine} {t mid : Table} {events : List Event}

/-! ### Counting the records of a user -/

/-- Whether no user has more records than fit. -/
def Table.Capped (t : Table) (cap : Nat) : Prop := ∀ user, (t.ownedBy user).length ≤ cap

namespace Table

theorem length_ownedBy_le_of_sublist {s : Table} (h : s.records.Sublist t.records) (user : UserId) :
    (s.ownedBy user).length ≤ (t.ownedBy user).length := (h.filter _).length_le

theorem Capped.of_sublist {s : Table} {cap : Nat} (ht : t.Capped cap) (h : s.records.Sublist t.records) :
    s.Capped cap := fun user => Nat.le_trans (length_ownedBy_le_of_sublist h user) (ht user)

/-- A record adds one at most to the records of its user, and none to those of others. -/
theorem length_ownedBy_insert_le (r : Record) (user : UserId) :
    ((t.insert r).ownedBy user).length ≤ (t.ownedBy user).length + if user = r.user then 1 else 0 := by
  have hold : ((t.remove r.id).ownedBy user).length ≤ (t.ownedBy user).length :=
    length_ownedBy_le_of_sublist List.filter_sublist user
  have hinsert : (t.insert r).ownedBy user =
      (t.remove r.id).ownedBy user ++ if user = r.user then [r] else [] := by
    simp only [ownedBy, records_insert, records_remove, List.filter_append, List.append_cancel_left_eq]
    by_cases h : user = r.user
    · simp [h]
    · simp [h, Ne.symm h]
  rw [hinsert, List.length_append]
  split
  · rw [List.length_singleton]
    omega
  · rw [List.length_nil]
    omega

theorem Capped.insert {cap : Nat} (ht : t.Capped cap) {r : Record} (hroom : (t.ownedBy r.user).length < cap) :
    (t.insert r).Capped cap := by
  intro user
  have hle := length_ownedBy_insert_le (t := t) r user
  have hcap := ht user
  split at hle
  · rename_i huser
    rw [huser] at hle ⊢
    omega
  · omega

theorem length_ownedBy_remove_lt {id : TokenId} {x : Record} (hget : t.get id = some x) :
    ((t.remove id).ownedBy x.user).length < (t.ownedBy x.user).length := by
  obtain ⟨hmem, hid⟩ := get_eq_some_iff.mp hget
  rw [ownedBy_remove, List.length_filter_lt_length_iff_exists]
  exact ⟨x, mem_ownedBy.mpr ⟨hmem, rfl⟩, by simp [hid]⟩

end Table

theorem Engine.length_ownedBy_evicted_lt {user : UserId} {found : List Record} (hcap : 0 < e.params.refreshCap)
    (hfound : found.Perm (t.ownedBy user)) :
    ((t.removeAll ((e.evicted found).map Record.id)).ownedBy user).length < e.params.refreshCap := by
  have hlength := hfound.length_eq
  by_cases hroom : found.length < e.params.refreshCap
  · have hle := Table.length_ownedBy_le_of_sublist
      (Table.records_removeAll_sublist (t := t) ((e.evicted found).map Record.id)) user
    omega
  · have hevicted : e.evicted found =
        (Repository.byExpiry found).take (Engine.excess e.params.refreshCap found.length) := if_neg hroom
    have hperm : (Repository.byExpiry found).Perm (t.ownedBy user) := (List.mergeSort_perm found _).trans hfound
    have hnodup : ((Repository.byExpiry found).map Record.id).Nodup :=
      (hperm.map Record.id).nodup_iff.mpr (Table.nodup_ownedBy user)
    rw [Table.ownedBy_removeAll, hevicted, ← (hperm.filter _).length_eq, Table.filter_not_mem_take hnodup,
      List.length_drop, Repository.length_byExpiry, Engine.excess]
    omega

/-! ### Runs -/

theorem Stage.capped {c : Command} (h : Stage e t events c mid) (hcap : 0 < e.params.refreshCap)
    (ht : t.Capped e.params.refreshCap) : mid.Capped e.params.refreshCap := by
  cases h with
  | same c => exact ht
  | evicting user signal persistent found n hfound => exact ht.of_sublist (Table.records_removeAll_sublist _)
  | opened user signal persistent found new hfound hnew =>
    have hleft : (t.removeAll ((e.evicted found).map Record.id)).Capped e.params.refreshCap :=
      ht.of_sublist (Table.records_removeAll_sublist _)
    refine hleft.insert ?_
    rw [hnew.user_eq]
    exact Engine.length_ownedBy_evicted_lt hcap hfound
  | taken id signal old hget => exact ht.of_sublist List.filter_sublist
  | renewed id signal old new hget hsignal hnew hlive =>
    have hleft : (t.remove id).Capped e.params.refreshCap := ht.of_sublist List.filter_sublist
    refine hleft.insert ?_
    rw [hnew.user_eq]
    exact Nat.lt_of_lt_of_le (Table.length_ownedBy_remove_lt hget) (ht old.user)
  | closed id signal x hget => exact ht.of_sublist List.filter_sublist
  | closedAll id signal x hget => exact ht.of_sublist List.filter_sublist

theorem SerialRun.capped_table {S : Type} {met : S → List Event → Prop} {run : List (ServedCall S)}
    (h : SerialRun e met run) (hcap : 0 < e.params.refreshCap) :
    (ServedCall.table run).Capped e.params.refreshCap := by
  induction h with
  | nil => exact fun user => Nat.zero_le _
  | snoc run x h hrun hmet ih =>
    rw [ServedCall.table_concat]
    exact (stage_of_runs hrun).capped hcap ih

theorem TokenParams.refreshCap_pos {now : Instant} {minutes days : Int} {cap : Nat} {p : TokenParams}
    (h : tryNew now minutes days cap = .ok p) : 0 < p.refreshCap := by
  obtain ⟨⟨-, -, hcap⟩, ⟨-, -, rfl⟩, -⟩ := tryNew_eq_ok_iff.mp h
  exact hcap

/-- With accepted parameters no user has more records than fit after any calls, and none in the midst of the next
call, whatever the calls met: however the clock was read, whatever identifiers were drawn and whichever parts failed. -/
theorem SerialRun.within_capacity {now : Instant} {minutes days : Int} {cap : Nat} {S : Type}
    {met : S → List Event → Prop} {run : List (ServedCall S)}
    (hparams : TokenParams.tryNew now minutes days cap = .ok e.params) (h : SerialRun e met run) :
    (ServedCall.table run).Capped e.params.refreshCap ∧
      ∀ c events mid, (e.serve c).Passes (ServedCall.table run) events mid → mid.Capped e.params.refreshCap := by
  have hcap := TokenParams.refreshCap_pos hparams
  have htable := h.capped_table hcap
  exact ⟨htable, fun c events mid hpass => (stage_of_passes hpass).capped hcap htable⟩

/-- The record that the small engine makes at a second after the epoch. -/
def Record.atSecond (n : Nat) : Record := (Engine.sample.entryOn (.atSecond n) default [] true).record default

def Table.atSeconds (numbers : List Nat) : Table := numbers.foldl (fun t n => t.insert (.atSecond n)) .empty

theorem Engine.sample_recordAt {n : Nat}
    (h : ((FaultFree.atSecond n).time.add? Engine.sample.params.refreshAge).isSome) :
    Engine.sample.recordAt? (FaultFree.atSecond n).time (FaultFree.atSecond n).id default [] true =
      some (Record.atSecond n) := by
  rw [recordAt?, Instant.add?_eq_some h]
  rfl

theorem Engine.sample_loses (t : Table) {n : Nat}
    (h : ((FaultFree.atSecond n).time.add? Engine.sample.params.refreshAge).isSome) :
    ∃ events found, (Engine.sample.serve (.create default [] true)).Runs t events (.error (.store "down"))
      ((t.removeAll ((Engine.sample.evicted found).map Record.id)).insert (.atSecond n)) ∧
      found.Perm (t.ownedBy default) := by
  obtain ⟨events, found, hrun, -, hfound⟩ :=
    exists_lossy_create Engine.sample t default "down" (Engine.sample_recordAt h)
  exact ⟨events, found, Action.runs_map.mpr ⟨_, hrun, rfl⟩, hfound⟩

/-- Three logins and a renewal for one user, all of which fail when the roles are looked up and leave a record behind:
the third login makes room for its record, and the renewal puts its own in the place of another. -/
theorem within_capacity_of_sample : TokenParams.tryNew ⟨0⟩ 15 1 2 = .ok Engine.sample.params ∧
    ∃ run : List (ServedCall Unit), SerialRun Engine.sample (fun _ _ => True) run ∧
      run.map (·.command) = [.create default [] true, .create default [] true, .create default [] true,
        .refresh (Record.atSecond 1).id []] ∧
      (∀ x ∈ run, x.result = .error (.store "down")) ∧
      run.map (·.after) = [.atSeconds [0], .atSeconds [0, 1], .atSeconds [1, 2], .atSeconds [2, 3]] ∧
      (ServedCall.table run).Capped 2 ∧ ((ServedCall.table run).ownedBy default).length = 2 := by
  have hparams : TokenParams.tryNew ⟨0⟩ 15 1 2 = .ok Engine.sample.params := by rfl
  obtain ⟨first, found, hfirst, hfound⟩ := Engine.sample_loses .empty (n := 0) (by decide)
  obtain rfl : found = [] := hfound.eq_nil
  obtain ⟨second, found, hsecond, hfound⟩ := Engine.sample_loses (.atSeconds [0]) (n := 1) (by decide)
  obtain rfl : found = [.atSecond 0] := List.perm_singleton.mp hfound
  obtain ⟨third, found, hthird, hfound⟩ := Engine.sample_loses (.atSeconds [0, 1]) (n := 2) (by decide)
  have hevicted : Engine.sample.evicted found = [.atSecond 0] := by
    have hfound : found.Perm [.atSecond 0, .atSecond 1] := hfound
    rw [Engine.evicted_eq_take, byExpiry_eq (List.pairwise_pair.mpr (by decide)) hfound, hfound.length_eq]
    rfl
  rw [hevicted] at hthird
  have hget : (Table.atSeconds [1, 2]).get (Record.atSecond 1).id = some (.atSecond 1) := rfl
  have hsignal : fingerprint (Record.atSecond 1).user [] = (Record.atSecond 1).fingerprint := by
    simp only [Record.atSecond, Engine.entryOn, Entry.record]
  have hlive : ¬ (Record.atSecond 1).expires < (FaultFree.atSecond 3).time := by decide
  obtain ⟨fourth, hfourth, -⟩ := exists_lossy_refresh Engine.sample "down" hget hsignal hlive
    (Engine.sample_recordAt (n := 3) (by decide))
  have hrun : SerialRun Engine.sample (fun (_ : Unit) _ => True)
      [⟨.create default [] true, (), first, .error (.store "down"), .atSeconds [0]⟩,
        ⟨.create default [] true, (), second, .error (.store "down"), .atSeconds [0, 1]⟩,
        ⟨.create default [] true, (), third, .error (.store "down"), .atSeconds [1, 2]⟩,
        ⟨.refresh (Record.atSecond 1).id [], (), fourth, .error (.store "down"), .atSeconds [2, 3]⟩] :=
    .snoc [_, _, _] _ (.snoc [_, _] _ (.snoc [_] _ (.snoc [] _ .nil hfirst trivial) hsecond trivial) hthird trivial)
      (Action.runs_map.mpr ⟨_, hfourth, rfl⟩) trivial
  exact ⟨hparams, _, hrun, rfl, by simp, rfl, (SerialRun.within_capacity hparams hrun).1, rfl⟩

end SessionWarden
