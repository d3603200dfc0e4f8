import SessionWarden.Proofs.Session.Overtaking
/-!
# Closing a session while others are served

A closing reads the record of an identifier and removes it later. It removes what bears the identifier then: a renewal
that takes place in between has given the session another identifier, under which it goes on. Nothing else lets a
session go on that was closed.
-/

namespace SessionWarden

namespace Traffic

variable {e : Engine} {s : Traffic}

/-- After a closing has succeeded its identifier is not in the table. A record that took the place of the one it
closed is there, or a renewal of the identifier has succeeded, only if a renewal took that record out after the
closing had read it and before the closing removed it. -/
theorem Reachable.closed_or_overtaken (h : Reachable e s) {k : Nat} {id : TokenId} {signal : Bytes}
    (hk : s.calls[k]? = some ⟨.delete id signal, .done (.ok .done)⟩) :
    s.table.get id = none ∧ ∃ x before between after, x.id = id ∧
      s.history = before ++ (k, ⟨.table (.get id), some x⟩) :: (between ++ (k, ⟨.table (.remove id), ()⟩) :: after) ∧
      (∀ y ∈ s.table.records, s.InSession x y →
        ∃ j time, (j, ⟨.table (.removeLive id time), true⟩) ∈ between) ∧
      ∀ j signal' o, s.calls[j]? = some ⟨.refresh id signal', .done (.ok o)⟩ →
        ∃ time, (j, ⟨.table (.removeLive id time), true⟩) ∈ between := by
  obtain ⟨x, before, between, after, hhistory⟩ := h.closing_split hk rfl
  -- the moments of the reading and of the removal
  obtain ⟨s₁, s₂, h₁, hbefore, hread, -, ⟨hget, -⟩, -⟩ := h.around hhistory
  have hget : some x = s₁.table.get id := hget
  obtain ⟨hmem, hid⟩ := Table.get_eq_some_iff.mp hget.symm
  have hremoval : s.history = (before ++ (k, ⟨.table (.get id), some x⟩) :: between) ++
      (k, ⟨.table (.remove id), ()⟩) :: after := by
    rw [hhistory, List.append_assoc, List.cons_append]
  obtain ⟨s₃, s₄, h₃, -, hremove, hlast, ⟨-, htable⟩, hpath⟩ := h.around hremoval
  have h₄ : Reachable e s₄ := h₃.tail hremove
  have hstored : ∃ y ∈ s₄.stored, y.id = id := by
    obtain ⟨j, hj⟩ := mem_stored.mp (h₁.sound.of_table x hmem)
    refine ⟨x, mem_stored.mpr ⟨j, ?_⟩, hid⟩
    rw [hlast, ← hbefore]
    exact List.mem_append_left _ (List.mem_append_left _ hj)
  have hgone : ∀ y ∈ s₄.table.records, y.id ≠ id := by
    intro y hy
    rw [htable] at hy
    exact (Table.mem_remove.mp hy).2
  have hnow : ∀ y ∈ s.table.records, y.id ≠ id := Path.gone h₄ hpath hstored hgone
  -- before the reading the identifier had not been consumed, and after the removal it is not consumed any more
  have hbetween : ∀ j time, (j, ⟨.table (.removeLive id time), true⟩) ∈ s.history →
      (j, ⟨.table (.removeLive id time), true⟩) ∈ between := by
    intro j time hj
    have hj := Path.not_consumed h₄ hpath hstored hgone hj
    rw [hlast] at hj
    rcases List.mem_append.mp hj with hj | hremoved
    · rcases List.mem_append.mp hj with hearly | hj
      · rw [← hbefore] at hearly
        exact absurd hid ((h₁.sound.of_consumed id (mem_consumed.mpr ⟨j, time, hearly⟩)).2 x hmem)
      · rcases List.mem_cons.mp hj with hsame | hj
        · cases hsame
        · exact hj
    · cases List.mem_singleton.mp hremoved
  refine ⟨Table.get_eq_none_iff.mpr hnow, x, before, between, after, hid, hhistory, ?_, ?_⟩
  · intro y hy hsession
    rcases hsession.cases_head with rfl | ⟨z, ⟨j, time, hj, -⟩, -⟩
    · exact absurd hid (hnow x hy)
    · rw [hid] at hj
      exact ⟨j, time, hbetween j time hj⟩
  · intro j signal' o hj
    obtain ⟨ev, hev, hconsumed⟩ := h.consumed_of_done hj
    obtain ⟨time, rfl⟩ := Event.consumed?_eq_some.mp hconsumed
    exact ⟨time, hbetween j time hev⟩

/-- A session can go on after its closing has succeeded, and the closing and a renewal of one identifier can both
succeed, though every rotation is one unit of work. -/
theorem closed_not_ended : ¬ ∀ (e : Engine) (s : Traffic), Reachable e s → s.Whole →
    (∀ c ∈ s.calls, ∀ id signal, c.command ≠ .deleteAll id signal) →
    ∀ (k : Nat) (id : TokenId) (signal : Bytes), s.calls[k]? = some ⟨.delete id signal, .done (.ok .done)⟩ →
      s.table.get id = none ∧
      (∀ x ∈ s.stored, x.id = id → ∀ y ∈ s.table.records, ¬ s.InSession x y) ∧
      ∀ (j : Nat) (signal' : Bytes) (o : Outcome), s.calls[j]? ≠ some ⟨.refresh id signal', .done (.ok o)⟩ := by
  intro hall
  obtain ⟨s, t, opened, o, new, hs, hwhole, hcalls, hstored, hnew, hid, htable⟩ := exists_overtaken_sample
    (c := .delete default []) rfl (fun t => t.remove default) fun t => ⟨rfl, rfl⟩
  have hcommands : ∀ c ∈ s.calls, ∀ id signal, c.command ≠ .deleteAll id signal := by
    intro c hc id signal
    simp only [hcalls, List.mem_cons, List.not_mem_nil, or_false] at hc
    rcases hc with rfl | rfl | rfl <;> simp
  have hmem : new ∈ s.table.records := by
    rw [htable]
    refine Table.mem_remove.mpr ⟨Table.mem_insert.mpr (Or.inl rfl), ?_⟩
    rw [hid]
    decide
  obtain ⟨-, hended, -⟩ := hall _ s hs hwhole hcommands 1 default [] (congrArg (·[1]?) hcalls)
  exact hended Record.sample hstored rfl new hmem (.single hnew)

theorem closed_or_overtaken_of_sample : ∃ s : Traffic, Reachable Engine.sample s ∧
    s.calls[1]? = some ⟨.delete default [], .done (.ok .done)⟩ ∧ s.table.get default = none ∧
    ∃ (between : List (Nat × Event)) (time : Instant), (∀ x ∈ between, x ∈ s.history) ∧
      (2, ⟨.table (.removeLive default time), true⟩) ∈ between := by
  obtain ⟨s, t, opened, o, new, hs, -, hcalls, -⟩ := exists_overtaken_sample
    (c := .delete default []) rfl (fun t => t.remove default) fun t => ⟨rfl, rfl⟩
  have hclosed : s.calls[1]? = some ⟨.delete default [], .done (.ok .done)⟩ := congrArg (·[1]?) hcalls
  obtain ⟨hget, x, before, between, after, -, hhistory, -, hrefresh⟩ := Reachable.closed_or_overtaken hs hclosed
  obtain ⟨time, hmem⟩ := hrefresh 2 [] o (congrArg (·[2]?) hcalls)
  refine ⟨s, hs, hclosed, hget, between, time, ?_, hmem⟩
  intro x hx
  rw [hhistory]
  exact List.mem_append_right _ (List.mem_cons_of_mem _ (List.mem_append_left _ hx))

end Traffic

end SessionWarden
