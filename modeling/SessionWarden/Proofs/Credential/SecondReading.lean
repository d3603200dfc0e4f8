import Mathlib.Data.List.Forall2
import SessionWarden.Credential.Claims
/-!
# The second reading of a payload

A payload is read twice, for its claims and for the registered claims alone. What the second reading makes of a
payload that holds claims is settled here: in an object it finds the same values, unless the claims that it passes
over stand in its way; in an array it looks for the expiry in the place of the issuer.
-/

namespace SessionWarden

variable {members : List (Option String × Json)} {items : List Json} {j : Json} {c : Claims}

/-! ### How far a reading comes -/

namespace Json

theorem Reach.within_eq_whole_iff {r : Reach} {isLast : Bool} :
    r.within isLast = .whole ↔ isLast = true ∧ r = .whole := by
  cases isLast <;> simp [within]

mutual

/-- A value is read to its end if it is readable and not nested deeper than there is room. -/
theorem reach_eq_whole_iff (room : Nat) :
    ∀ j : Json, j.reach room = .whole ↔ j.isReadable = true ∧ j.depth ≤ room
  | null => by simp [reach, isReadable, depth]
  | bool b => by simp [reach, isReadable, depth]
  | string s => by simp [reach, isReadable, depth]
  | unreadable closed => by cases closed <;> simp [reach, isReadable]
  | number n => by
    simp only [reach, isReadable, depth, Nat.zero_le, and_true]
    cases n.isFinite <;> cases n.isCutShort <;> simp
  | array items => by
    cases room with
    | zero => simp [reach, depth]
    | succ room => simp only [reach, isReadable, depth, itemsReach_eq_whole_iff room items, Nat.add_le_add_iff_right]
  | object members => by
    cases room with
    | zero => simp [reach, depth]
    | succ room =>
      simp only [reach, isReadable, depth, membersReach_eq_whole_iff room members, Nat.add_le_add_iff_right]

theorem itemsReach_eq_whole_iff (room : Nat) :
    ∀ items : List Json, itemsReach room items = .whole ↔ areReadable items = true ∧ itemsDepth items ≤ room
  | [] => by simp [itemsReach, areReadable, itemsDepth]
  | j :: js => by
    have hsplit : itemsReach room (j :: js) = .whole ↔ j.reach room = .whole ∧ itemsReach room js = .whole := by
      rw [itemsReach]
      cases j.reach room <;> simp [Reach.within_eq_whole_iff]
    rw [hsplit, reach_eq_whole_iff room j, itemsReach_eq_whole_iff room js, areReadable, itemsDepth, Bool.and_eq_true,
      Nat.max_le]
    exact and_and_and_comm

theorem membersReach_eq_whole_iff (room : Nat) :
    ∀ members : List (Option String × Json),
      membersReach room members = .whole ↔ membersReadable members = true ∧ membersDepth members ≤ room
  | [] => by simp [membersReach, membersReadable, membersDepth]
  | (none, _) :: ms => by simp [membersReach, membersReadable]
  | (some key, j) :: ms => by
    have hsplit : membersReach room ((some key, j) :: ms) = .whole ↔
        j.reach room = .whole ∧ membersReach room ms = .whole := by
      rw [membersReach]
      cases j.reach room <;> simp [Reach.within_eq_whole_iff]
    rw [hsplit, reach_eq_whole_iff room j, membersReach_eq_whole_iff room ms, membersReadable, membersDepth,
      Option.isSome_some, Bool.true_and, Bool.and_eq_true, Nat.max_le]
    exact and_and_and_comm

end

end Json

theorem RegisteredClaims.isAudiencePlace_of_isReadable (hread : j.isReadable = true)
    (hdepth : j.depth ≤ greatestAudienceDepth) : isAudiencePlace j = true := by
  have hwhole := (Json.reach_eq_whole_iff greatestAudienceDepth j).mpr ⟨hread, hdepth⟩
  simp only [isAudiencePlace, hwhole, ne_eq, reduceCtorEq, not_false_eq_true, decide_true]

/-! ### The claims that are passed over -/

/-- Whether members name the start of validity and the audience at most once and hold there what a reader can
pass over. -/
structure RegisteredClaims.PassedOver (members : List (Option String × Json)) : Prop where
  start : ∃ value, Json.member? "nbf" members = some value ∧ value.all Json.isSkippable = true
  audience : ∃ value, Json.member? "aud" members = some value ∧ value.all isAudiencePlace = true

theorem Json.members_of_fields? {names : List String} {least : Nat} {values : List (Option Json)}
    (h : (object members).fields? names least = some values) : (members.all fun m => m.1.isSome) = true ∧
      List.Forall₂ (fun name value => member? name members = some value) names values := by
  rw [fields?] at h
  split at h
  case isFalse => cases h
  case isTrue hkeys =>
  refine ⟨hkeys, ?_⟩
  induction names generalizing values with
  | nil =>
    obtain rfl := Option.some.inj h
    exact .nil
  | cons name names ih =>
    rw [List.mapM_cons] at h
    obtain ⟨value, hvalue, h⟩ := Option.bind_eq_some_iff.mp h
    obtain ⟨rest, hrest, h⟩ := Option.bind_eq_some_iff.mp h
    obtain rfl := Option.some.inj h
    exact .cons hvalue (ih hrest)

theorem Json.eq_string_of_text? {s : String} (h : j.text? = some s) : j = .string s := by
  cases j with
  | string t => exact congrArg Json.string (Option.some.inj h)
  | null => cases h
  | bool b => cases h
  | number n => cases h
  | unreadable closed => cases h
  | array items => cases h
  | object members => cases h

theorem Claims.fields?_of_ofJson? (h : ofJson? j = some c) : ∃ iss sub exp iat fingerprint roles,
    j.fields? ["iss", "sub", "exp", "iat", "fingerprint", "roles"] 5 =
        some [some iss, some sub, some exp, some iat, some fingerprint, roles] ∧
      iss.text? = some c.issuer ∧ sub.text? = some c.subject ∧ exp.int64? = some c.expiry ∧
      fingerprint.text? = some c.fingerprint := by
  obtain ⟨fields, hfields, h⟩ := Option.bind_eq_some_iff.mp h
  split at h
  case h_2 => cases h
  rename_i iss sub exp iat fingerprint roles
  have hsome : ∃ titles, (do return ⟨← iss.text?, ← sub.text?, ← exp.int64?, ← iat.int64?, ← fingerprint.text?,
      titles⟩ : Option Claims) = some c := by
    cases roles with
    | none => exact ⟨[], h⟩
    | some list =>
      obtain ⟨titles, -, h⟩ := Option.bind_eq_some_iff.mp h
      exact ⟨titles, h⟩
  obtain ⟨titles, h⟩ := hsome
  obtain ⟨issuer, hissuer, h⟩ := Option.bind_eq_some_iff.mp h
  obtain ⟨subject, hsubject, h⟩ := Option.bind_eq_some_iff.mp h
  obtain ⟨expiry, hexpiry, h⟩ := Option.bind_eq_some_iff.mp h
  obtain ⟨issuedAt, -, h⟩ := Option.bind_eq_some_iff.mp h
  obtain ⟨digest, hdigest, h⟩ := Option.bind_eq_some_iff.mp h
  obtain rfl := Option.some.inj h
  exact ⟨iss, sub, exp, iat, fingerprint, roles, hfields, hissuer, hsubject, hexpiry, hdigest⟩

theorem Claims.form_of_ofJson? (h : ofJson? j = some c) :
    (∃ members, j = .object members) ∨ ∃ items, j = .array items ∧ (items.length = 5 ∨ items.length = 6) := by
  obtain ⟨iss, sub, exp, iat, fingerprint, roles, hfields, -⟩ := Claims.fields?_of_ofJson? h
  cases j with
  | object members => exact Or.inl ⟨members, rfl⟩
  | array items =>
    rw [Json.fields?] at hfields
    split at hfields
    case isTrue hlength =>
      have hmost : items.length ≤ 6 := hlength.2
      have hleast := hlength.1
      exact Or.inr ⟨items, rfl, by omega⟩
    case isFalse => cases hfields
  | null => cases hfields
  | bool b => cases hfields
  | number n => cases hfields
  | string s => cases hfields
  | unreadable closed => cases hfields

theorem RegisteredClaims.ofJson?_eq_bind (h : Claims.ofJson? (.object members) = some c) :
    ofJson? (.object members) =
      (Json.member? "nbf" members).bind fun nbf => (Json.member? "aud" members).bind fun aud =>
        if nbf.all Json.isSkippable && aud.all isAudiencePlace then
          some ⟨(some c.expiry).filter (0 ≤ ·), some c.subject, some c.issuer⟩
        else none := by
  obtain ⟨iss, sub, exp, iat, fingerprint, roles, hfields, hissuer, hsubject, hexpiry, -⟩ :=
    Claims.fields?_of_ofJson? h
  obtain ⟨hkeys, _ | ⟨hiss, _ | ⟨hsub, _ | ⟨hexp, -⟩⟩⟩⟩ := Json.members_of_fields? hfields
  cases hnbf : Json.member? "nbf" members with
  | none =>
    simp only [ofJson?, Json.fields?, if_pos hkeys, List.mapM_cons, hexp, hnbf, Option.bind_eq_bind,
      Option.bind_some, Option.bind_none]
  | some nbf =>
    cases haud : Json.member? "aud" members with
    | none =>
      simp only [ofJson?, Json.fields?, if_pos hkeys, List.mapM_cons, hexp, hnbf, hsub, hiss, haud,
        Option.bind_eq_bind, Option.bind_some, Option.bind_none]
    | some aud =>
      simp only [ofJson?, Json.fields?, if_pos hkeys, List.mapM_cons, List.mapM_nil, hexp, hnbf, hsub, hiss, haud,
        Option.bind_eq_bind, Option.bind_some, Option.pure_def, hissuer, hsubject, hexpiry]
      cases nbf.all Json.isSkippable && aud.all isAudiencePlace <;> rfl

/-- In an object, the second reading finds what the first has found, unless the claims that it passes over stand in
its way. -/
theorem RegisteredClaims.ofJson?_object (h : Claims.ofJson? (.object members) = some c) :
    PassedOver members ∧
        ofJson? (.object members) = some ⟨(some c.expiry).filter (0 ≤ ·), some c.subject, some c.issuer⟩ ∨
      ¬ PassedOver members ∧ ofJson? (.object members) = none := by
  rw [ofJson?_eq_bind h]
  by_cases hpassed : PassedOver members
  · obtain ⟨⟨nbf, hnbf, hstart⟩, aud, haud, haudience⟩ := hpassed
    refine Or.inl ⟨⟨⟨nbf, hnbf, hstart⟩, aud, haud, haudience⟩, ?_⟩
    rw [hnbf, haud, Option.bind_some, Option.bind_some, hstart, haudience]
    rfl
  · refine Or.inr ⟨hpassed, ?_⟩
    cases hnbf : Json.member? "nbf" members with
    | none => rfl
    | some nbf =>
      cases haud : Json.member? "aud" members with
      | none => rfl
      | some aud =>
        refine if_neg fun hboth => hpassed ?_
        rw [Bool.and_eq_true] at hboth
        exact ⟨⟨nbf, hnbf, hboth.1⟩, aud, haud, hboth.2⟩

theorem RegisteredClaims.ofJson?_array (h : Claims.ofJson? (.array items) = some c) :
    items.length = 5 ∧ (∃ r, ofJson? (.array items) = some r ∧ r.expiry = none) ∨
      items.length = 6 ∧ ofJson? (.array items) = none := by
  obtain ⟨iss, sub, exp, iat, fingerprint, roles, hfields, hissuer, hsubject, -, hdigest⟩ :=
    Claims.fields?_of_ofJson? h
  obtain rfl := Json.eq_string_of_text? hissuer
  obtain rfl := Json.eq_string_of_text? hsubject
  obtain rfl := Json.eq_string_of_text? hdigest
  rw [Json.fields?] at hfields
  split at hfields
  case isFalse => cases hfields
  case isTrue hlength =>
  have hmost : items.length ≤ 6 := hlength.2
  have hfive : items.length = 5 ∨ items.length = 6 := by
    have hleast := hlength.1
    omega
  rcases hfive with hfive | hsix
  · refine Or.inl ⟨hfive, ?_⟩
    match items, hfive with
    | [x₁, x₂, x₃, x₄, x₅], _ =>
      have hitems := Option.some.inj hfields
      simp only [List.map_cons, List.map_nil, List.cons_append, List.cons.injEq, Option.some.injEq] at hitems
      obtain ⟨rfl, rfl, rfl, rfl, rfl, -⟩ := hitems
      exact ⟨_, rfl, rfl⟩
  · refine Or.inr ⟨hsix, ?_⟩
    have hmany : ¬ (5 ≤ items.length ∧ items.length ≤ ["exp", "nbf", "sub", "iss", "aud"].length) := by
      rw [hsix]
      decide
    rw [ofJson?, Json.fields?, if_neg hmany]
    rfl

end SessionWarden
