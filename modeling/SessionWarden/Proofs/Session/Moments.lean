import Mathlib.Data.List.Chain
import SessionWarden.Proofs.Session.SingleUse
/-!
# The moment of an event

The history names every event of the calls in flight, so that the states around an event can be gone back to. What an
event tells of the table was true then, and an identifier that was gone by then was not consumed later.
-/

namespace SessionWarden

namespace Traffic

variable {e : Engine} {s : Traffic}

/-! ### Going back -/

/-- An event among those of a call has its place in the history, and the later ones of the call come after it. -/
theorem exists_split {history : List (Nat × Event)} {k : Nat} {ev : Event} {a b : List Event}
    (h : (history.filter fun x => x.1 == k).map Prod.snd = a ++ ev :: b) :
    ∃ before after, history = before ++ (k, ev) :: after ∧ (after.filter fun x => x.1 == k).map Prod.snd = b := by
  obtain ⟨first, rest, hfilter, -, hrest⟩ := List.map_eq_append_iff.mp h
  obtain ⟨⟨j, _⟩, tail, rfl, rfl, htail⟩ := List.map_eq_cons_iff.mp hrest
  obtain ⟨front, back, rfl, -, hback⟩ := List.filter_eq_append_iff.mp hfilter
  obtain ⟨skipped, after, rfl, -, hj, hafter⟩ := List.filter_eq_cons_iff.mp hback
  obtain rfl : j = k := by simpa using hj
  exact ⟨front ++ skipped, after, by rw [List.append_assoc], by rw [hafter, htail]⟩

theorem around {R : Traffic → Traffic → Prop} (hmove : ∀ s s', R s s' → Move e s s')
    (h : Relation.ReflTransGen R empty s) {before after : List (Nat × Event)} {k : Nat} {ev : Event}
    (hs : s.history = before ++ (k, ev) :: after) :
    ∃ s₁ s₂, Relation.ReflTransGen R empty s₁ ∧ s₁.history = before ∧ R s₁ s₂ ∧ s₂.history = before ++ [(k, ev)] ∧
      s₁.table.Answers ev.query ev.reply s₂.table ∧ Relation.ReflTransGen R s₂ s := by
  induction h generalizing after with
  | refl => exact absurd hs (by simp [empty])
  | @tail s s' hpath hstep ih =>
    have hmoved := hmove s s' hstep
    cases hmoved with
    | arrive c =>
      obtain ⟨s₁, s₂, h₁, hbefore, hevent, hlast, hanswer, hpath'⟩ := ih hs
      exact ⟨s₁, s₂, h₁, hbefore, hevent, hlast, hanswer, hpath'.tail hstep⟩
    | advance j c q next reply table hcall hanswer =>
      rcases List.eq_nil_or_concat after with rfl | ⟨rest, last, rfl⟩
      · obtain ⟨rfl, hlast⟩ := List.append_inj' hs rfl
        cases List.cons.inj hlast |>.1
        exact ⟨s, _, hpath, rfl, hstep, rfl, hanswer, .refl⟩
      · rw [List.concat_eq_append, ← List.cons_append, ← List.append_assoc] at hs
        have hprefix : s.history = before ++ (k, ev) :: rest := (List.append_inj' hs rfl).1
        obtain ⟨s₁, s₂, h₁, hbefore, hevent, hlast, hanswer', hpath'⟩ := ih hprefix
        exact ⟨s₁, s₂, h₁, hbefore, hevent, hlast, hanswer', hpath'.tail hstep⟩

theorem Reachable.around (h : Reachable e s) {before after : List (Nat × Event)} {k : Nat} {ev : Event}
    (hs : s.history = before ++ (k, ev) :: after) :
    ∃ s₁ s₂, Reachable e s₁ ∧ s₁.history = before ∧ Step e s₁ s₂ ∧ s₂.history = before ++ [(k, ev)] ∧
      s₁.table.Answers ev.query ev.reply s₂.table ∧ Path e s₂ s :=
  Traffic.around (fun _ _ => Step.move) h hs

/-! ### What events tell -/

theorem Path.stored_mono {s' : Traffic} (h : Path e s s') {x : Record} (hx : x ∈ s.stored) : x ∈ s'.stored := by
  obtain ⟨k, hk⟩ := mem_stored.mp hx
  exact mem_stored.mpr ⟨k, h.history_mono _ hk⟩

theorem Reachable.stored_eq (h : Reachable e s) {x y : Record} (hx : x ∈ s.stored) (hy : y ∈ s.stored)
    (hid : x.id = y.id) : x = y := by
  obtain ⟨j, hj⟩ := mem_stored.mp hx
  obtain ⟨k, hk⟩ := mem_stored.mp hy
  obtain ⟨-, -, hstored, hdrawn, -⟩ := h.of_stored hj
  obtain ⟨-, -, hstored', hdrawn', -⟩ := h.of_stored hk
  rw [hid] at hdrawn
  -- both calls drew the identifier, so they are one call, which stored one record
  obtain rfl := h.sound.drawn_once j k y.id hdrawn hdrawn'
  rw [hstored] at hstored'
  exact List.head_eq_of_cons_eq hstored'

theorem Reachable.of_read (h : Reachable e s) {k : Nat} {id : TokenId} {x : Record}
    (hx : (k, ⟨.table (.get id), some x⟩) ∈ s.history) : x ∈ s.stored ∧ x.id = id := by
  obtain ⟨before, after, hs⟩ := List.append_of_mem hx
  obtain ⟨s₁, s₂, h₁, -, hevent, -, hanswer, hpath⟩ := h.around hs
  have hget : some x = s₁.table.get id := hanswer.1
  obtain ⟨hmem, hid⟩ := Table.get_eq_some_iff.mp hget.symm
  exact ⟨Path.stored_mono (hpath.head hevent) (h₁.sound.of_table x hmem), hid⟩

theorem Path.not_consumed {s' : Traffic} (hs : Reachable e s) (h : Path e s s') {id : TokenId}
    (hid : ∃ x ∈ s.stored, x.id = id) (hgone : ∀ x ∈ s.table.records, x.id ≠ id) {k : Nat} {time : Instant}
    (hk : (k, ⟨.table (.removeLive id time), true⟩) ∈ s'.history) :
    (k, ⟨.table (.removeLive id time), true⟩) ∈ s.history := by
  induction h with
  | refl => exact hk
  | @tail mid _ hpath hstep ih =>
    have hgone' := Path.gone hs hpath hid hgone
    cases hstep with
    | arrive c => exact ih hk
    | advance j c q next reply after hcall hanswer hfresh =>
      rcases List.mem_append.mp hk with hold | hlast
      · exact ih hold
      · cases List.mem_singleton.mp hlast
        obtain ⟨⟨x, hx, hxid⟩, -⟩ := hanswer.removed
        exact absurd hxid (hgone' x hx)

/-! ### Rotations in one unit of work -/

/-- Whether an event that takes a record out is followed at once by the same call's storing of another. -/
def Renews (x y : Nat × Event) : Prop := x.2.consumed? ≠ none → y.1 = x.1 ∧ y.2.stored? ≠ none

/-- Whether every rotation stored at once what took the place of what it took out: nothing came between its two calls
on the table. -/
def Whole (s : Traffic) : Prop := s.history.IsChain Renews

theorem whole_of_append {before more : List (Nat × Event)} (hs : s.history = before ++ more)
    (hbefore : ∀ x ∈ before, x.2.consumed? = none) (hmore : more.IsChain Renews) : s.Whole := by
  rw [Whole, hs]
  refine List.IsChain.append (List.isChain_iff_forall_rel_of_append_cons_cons.mpr ?_) hmore ?_
  · rintro x y l₁ l₂ rfl hx
    exact absurd (hbefore x (by simp)) hx
  · intro x hx y _ hconsumed
    exact absurd (hbefore x (List.mem_of_mem_getLast? hx)) hconsumed

/-- Whether no rotation was halfway after some events: what it has stored by now it had stored then. -/
def Settled (s : Traffic) (before : List (Nat × Event)) : Prop :=
  ∀ k id time new, (k, ⟨.table (.removeLive id time), true⟩) ∈ before →
    (k, ⟨.table (.insert new), ()⟩) ∈ s.history → (k, ⟨.table (.insert new), ()⟩) ∈ before

theorem Whole.settled (h : Whole s) (hs : Reachable e s) {before after : List (Nat × Event)} {k : Nat} {ev : Event}
    (hsplit : s.history = before ++ (k, ev) :: after) (hev : ev.stored? = none) : s.Settled before := by
  intro j id time new hremoved hstored
  obtain ⟨first, rest, rfl⟩ := List.append_of_mem hremoved
  have hwhole := h
  rw [Whole, hsplit, List.append_assoc] at hwhole
  cases rest with
  | nil =>
    obtain ⟨-, hnext, -⟩ := List.isChain_append_cons_cons.mp hwhole
    exact absurd hev (hnext (by simp [Event.consumed?])).2
  | cons y rest =>
    obtain ⟨-, hnext, -⟩ := List.isChain_append_cons_cons.mp hwhole
    obtain ⟨hcall, hkind⟩ := hnext (by simp [Event.consumed?])
    obtain ⟨x, hx⟩ := Option.ne_none_iff_exists'.mp hkind
    obtain ⟨j', ev'⟩ := y
    obtain rfl : j' = j := hcall
    obtain rfl := Event.stored?_eq_some.mp hx
    -- what follows at once is what this call stored, and a call stores one record
    have hmem : (j', (⟨.table (.insert x), ()⟩ : Event)) ∈ s.history := by
      rw [hsplit]
      exact List.mem_append_left _ (List.mem_append_right _ (List.mem_cons_of_mem _ List.mem_cons_self))
    obtain ⟨-, -, hone, -⟩ := hs.of_stored hstored
    obtain ⟨-, -, hone', -⟩ := hs.of_stored hmem
    rw [hone] at hone'
    obtain rfl : new = x := List.head_eq_of_cons_eq hone'
    exact List.mem_append_right _ (List.mem_cons_of_mem _ List.mem_cons_self)

end Traffic

end SessionWarden
