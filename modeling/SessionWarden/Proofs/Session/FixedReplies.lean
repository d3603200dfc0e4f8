import Mathlib.Data.Multiset.Basic
import SessionWarden.Proofs.Session.Ledger
import SessionWarden.Proofs.Session.Owned
/-!
# Fixed replies

What a call meets besides the table can be fixed beforehand: what every reading of the clock gives, which identifier
is drawn, which parts fail and when, which roles users have and how texts are signed. The order in which a scan lists
records is fixed only where it matters: those that expire at one time stand in an order that depends on them alone. A
call then has a run on every table.
-/

namespace SessionWarden

/-! ### Records that expire at one time -/

/-- Of some records those that expire at a time. -/
def tied (time : Instant) (l : List Record) : List Record := l.filter fun x => decide (x.expires = time)

theorem mem_tied {time : Instant} {l : List Record} {x : Record} : x ∈ tied time l ↔ x ∈ l ∧ x.expires = time := by
  simp only [tied, List.mem_filter, decide_eq_true_eq]

theorem tied_append (time : Instant) (l l' : List Record) : tied time (l ++ l') = tied time l ++ tied time l' :=
  List.filter_append _ _

theorem tied_eq_self {time : Instant} {l : List Record} (h : ∀ x ∈ l, x.expires = time) : tied time l = l :=
  List.filter_eq_self.mpr fun x hx => decide_eq_true (h x hx)

theorem tied_eq_nil {time : Instant} {l : List Record} (h : ∀ x ∈ l, x.expires ≠ time) : tied time l = [] :=
  List.filter_eq_nil_iff.mpr fun x hx => by simp [h x hx]

theorem tied_byExpiry (time : Instant) (l : List Record) : tied time (Repository.byExpiry l) = tied time l := by
  have hsorted : (tied time l).Pairwise fun a b => decide (a.expires ≤ b.expires) := by
    refine List.pairwise_of_forall_mem_list fun a ha b hb => ?_
    rw [(mem_tied.mp ha).2, (mem_tied.mp hb).2]
    exact decide_eq_true (Int.le_refl _)
  have hsublist : (tied time l).Sublist (Repository.byExpiry l) :=
    List.sublist_mergeSort trans_expires total_expires hsorted List.filter_sublist
  have htied : (tied time l).Sublist (tied time (Repository.byExpiry l)) := by
    have hself : tied time (tied time l) = tied time l := tied_eq_self fun x hx => (mem_tied.mp hx).2
    rw [← hself]
    exact hsublist.filter _
  have hlength : (tied time (Repository.byExpiry l)).length = (tied time l).length :=
    ((List.mergeSort_perm l _).filter _).length_eq
  exact (htied.eq_of_length hlength.symm).symm

theorem mem_iff_of_tied_eq {l l' : List Record} (h : ∀ time, tied time l = tied time l') (x : Record) :
    x ∈ l ↔ x ∈ l' := by
  have hx : x ∈ tied x.expires l ↔ x ∈ tied x.expires l' := by rw [h]
  simpa only [mem_tied, and_true] using hx

theorem eq_of_tied_eq {l l' : List Record} (hl : l.Pairwise fun x y => x.expires.nanos ≤ y.expires.nanos)
    (hl' : l'.Pairwise fun x y => x.expires.nanos ≤ y.expires.nanos) (h : ∀ time, tied time l = tied time l') :
    l = l' := by
  have hmem := mem_iff_of_tied_eq h
  induction l generalizing l' with
  | nil => exact (List.eq_nil_iff_forall_not_mem.mpr fun x hx => List.not_mem_nil ((hmem x).mpr hx)).symm
  | cons x xs ih =>
    cases l' with
    | nil => exact absurd ((hmem x).mp List.mem_cons_self) List.not_mem_nil
    | cons y ys =>
      -- neither head expires after the other, so both lists begin with the same record of that time
      rw [List.pairwise_cons] at hl hl'
      have hxy : x.expires.nanos ≤ y.expires.nanos := by
        rcases List.mem_cons.mp ((hmem y).mpr List.mem_cons_self) with rfl | hy
        · exact Int.le_refl _
        · exact hl.1 y hy
      have hyx : y.expires.nanos ≤ x.expires.nanos := by
        rcases List.mem_cons.mp ((hmem x).mp List.mem_cons_self) with rfl | hx
        · exact Int.le_refl _
        · exact hl'.1 x hx
      have hexpires : y.expires = x.expires := congrArg Instant.mk (Int.le_antisymm hyx hxy)
      have hhead := h x.expires
      simp only [tied, List.filter_cons, hexpires, decide_true, ite_true, List.cons.injEq] at hhead
      obtain ⟨rfl, -⟩ := hhead
      have htail : ∀ time, tied time xs = tied time ys := by
        intro time
        have hcons := h time
        by_cases htime : x.expires = time
        · simpa only [tied, List.filter_cons, htime, decide_true, ite_true, List.cons.injEq, true_and] using hcons
        · simpa only [tied, List.filter_cons, htime, decide_false, Bool.false_eq_true, ite_false] using hcons
      rw [ih hl.2 hl'.2 htail (mem_iff_of_tied_eq htail)]

/-- A rule that puts records in an order; it looks at nothing but these records. -/
structure TieRule where
  order : List Record → List Record
  perm : ∀ l, (order l).Perm l
  congr : ∀ {l l'}, l.Perm l' → order l = order l'

noncomputable instance : Inhabited TieRule where
  default :=
    { order := fun l => Multiset.toList l
      perm := fun _ => Multiset.coe_eq_coe.mp (Multiset.coe_toList _)
      congr := fun h => congrArg Multiset.toList (Multiset.coe_eq_coe.mpr h) }

namespace TieRule

variable {rule : TieRule}

/-- Whether a list has the records of each time in the order of the rule. -/
def Arranges (rule : TieRule) (found : List Record) : Prop := ∀ time, tied time found = rule.order (tied time found)

/-- A scan in the order of expiry comes to the same however the records are listed, if the rule arranges those of one
time. -/
theorem byExpiry_eq {found found' : List Record} (h : rule.Arranges found) (h' : rule.Arranges found')
    (hperm : found.Perm found') : Repository.byExpiry found = Repository.byExpiry found' := by
  refine eq_of_tied_eq (pairwise_byExpiry found) (pairwise_byExpiry found') fun time => ?_
  calc tied time (Repository.byExpiry found)
      = tied time found := tied_byExpiry time found
    _ = rule.order (tied time found) := h time
    _ = rule.order (tied time found') := rule.congr (hperm.filter _)
    _ = tied time found' := (h' time).symm
    _ = tied time (Repository.byExpiry found') := (tied_byExpiry time found').symm

theorem exists_arranged (rule : TieRule) (l : List Record) : ∃ found, found.Perm l ∧ rule.Arranges found := by
  induction hn : l.length using Nat.strongRecOn generalizing l with
  | ind n ih =>
    cases l with
    | nil => exact ⟨[], List.Perm.refl _, fun time => ((rule.perm []).eq_nil).symm⟩
    | cons x xs =>
      -- the records that expire with the first one stand first, then all others
      have hlt : (xs.filter fun y => !decide (y.expires = x.expires)).length < n := by
        have hle := List.length_filter_le (fun y => !decide (y.expires = x.expires)) xs
        rw [List.length_cons] at hn
        omega
      obtain ⟨rest, hrest, harranges⟩ := ih _ hlt _ rfl
      have hfirst := rule.perm (tied x.expires (x :: xs))
      have htied : ∀ y ∈ rule.order (tied x.expires (x :: xs)), y.expires = x.expires := fun y hy =>
        (mem_tied.mp (hfirst.mem_iff.mp hy)).2
      have hothers : ∀ y ∈ rest, y.expires ≠ x.expires := by
        intro y hy
        simpa using (List.mem_filter.mp (hrest.mem_iff.mp hy)).2
      refine ⟨rule.order (tied x.expires (x :: xs)) ++ rest, ?_, fun time => ?_⟩
      · have htail : (x :: xs).filter (fun y => !decide (y.expires = x.expires)) =
            xs.filter fun y => !decide (y.expires = x.expires) := by simp
        rw [← htail] at hrest
        exact (hfirst.append hrest).trans (List.filter_append_perm _ _)
      · rw [tied_append]
        by_cases htime : time = x.expires
        · rw [htime, tied_eq_self htied, tied_eq_nil hothers, List.append_nil]
          exact rule.congr hfirst.symm
        · rw [tied_eq_nil fun y hy => htied y hy ▸ Ne.symm htime, List.nil_append]
          exact harranges time

end TieRule

/-! ### What is fixed -/

/-- What a call meets besides the table: the identifier that it draws if it draws one, and the answer to each other
question that it may ask, by how many it has asked before. -/
structure FixedReplies where
  id : TokenId
  reply : Nat → (q : Query) → q.Reply
  signs : ∀ n signer text, ∃ b, reply n (.sign signer text) = Base64.urlBare.encode b

/-- Whether a question of a call was answered as fixed. -/
def Event.Within (rule : TieRule) (o : FixedReplies) (n : Nat) : Event → Prop
  | ⟨.table (.ownedBy _), found⟩ => rule.Arranges found
  | ⟨.table _, _⟩ => True
  | ⟨.mint, id⟩ => id = o.id
  | ⟨q, reply⟩ => reply = o.reply n q

/-- Whether all questions of a call were answered as fixed, when some had been asked before. -/
def FixedReplies.MetFrom (rule : TieRule) (o : FixedReplies) : Nat → List Event → Prop
  | _, [] => True
  | n, ev :: rest => ev.Within rule o n ∧ o.MetFrom rule (n + 1) rest

def FixedReplies.Met (rule : TieRule) (o : FixedReplies) (events : List Event) : Prop := o.MetFrom rule 0 events

variable {rule : TieRule} {o : FixedReplies}

theorem FixedReplies.MetFrom.of_mem {n : Nat} {events : List Event} (h : o.MetFrom rule n events) {ev : Event}
    (hev : ev ∈ events) : ∃ k, ev.Within rule o k := by
  induction events generalizing n with
  | nil => cases hev
  | cons first rest ih =>
    rcases List.mem_cons.mp hev with rfl | hrest
    · exact ⟨n, h.1⟩
    · exact ih h.2 hrest

theorem exists_answer_within (rule : TieRule) (o : FixedReplies) (n : Nat) (t : Table) (q : Query) :
    ∃ reply after, t.Answers q reply after ∧ Event.Within rule o n ⟨q, reply⟩ := by
  cases q with
  | table c =>
    cases c with
    | ownedBy user =>
      obtain ⟨found, hperm, harranges⟩ := rule.exists_arranged (t.ownedBy user)
      exact ⟨found, t, ⟨hperm, rfl⟩, harranges⟩
    | _ => exact ⟨_, _, ⟨rfl, rfl⟩, trivial⟩
  | mint => exact ⟨o.id, t, rfl, rfl⟩
  | sign signer text => exact ⟨o.reply n _, t, ⟨o.signs n signer text, rfl⟩, rfl⟩
  | _ => exact ⟨o.reply n _, t, rfl, rfl⟩

theorem Script.exists_run_within {α : Type} (s : Script α) (rule : TieRule) (o : FixedReplies) (n : Nat) (t : Table) :
    ∃ events a after, s.Runs t events a after ∧ o.MetFrom rule n events := by
  induction s generalizing n t with
  | done a => exact ⟨[], a, t, ⟨rfl, rfl, rfl⟩, trivial⟩
  | ask q next ih =>
    obtain ⟨reply, mid, hanswer, hwithin⟩ := exists_answer_within rule o n t q
    obtain ⟨rest, a, after, hrest, hfix⟩ := ih reply (n + 1) mid
    exact ⟨⟨q, reply⟩ :: rest, a, after, ⟨reply, mid, rest, rfl, hanswer, hrest⟩, hwithin, hfix⟩

/-! ### Replies without faults -/

def FaultFree.fixed (o : FaultFree) : FixedReplies where
  id := o.id
  reply _ q :=
    match q with
    | .now => o.time
    | .mint => o.id
    | .note _ => ()
    | .enter _ => .ok ()
    | .rotationTime _ asked => asked
    | .table c => (c.perform .empty).1
    | .roles user => o.roles user
    | .account _ => none
    | .sign _ text => Base64.urlBare.encode (o.sign text)
  signs _ _ text := ⟨o.sign text, rfl⟩

theorem Event.Within.fits {o : FaultFree} {n : Nat} {ev : Event} (h : ev.Within rule o.fixed n) : ev.Fits o := by
  obtain ⟨q, reply⟩ := ev
  cases q with
  | table c => trivial
  | note line => trivial
  | account name => trivial
  | _ => exact h

end SessionWarden
