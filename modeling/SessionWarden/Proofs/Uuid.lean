import Mathlib.Data.String.Basic
import SessionWarden.Uuid
/-!
# Identifiers as text

The text of an identifier is read as the identifier. It is in the form of five groups, so none of the other
forms is tried on it.
-/

namespace SessionWarden

/-! ### Digits -/

def Hex.IsDigit (c : Char) : Prop := ∃ n : Fin 16, c = digit n.val

theorem Hex.isDigit_of_mem {c : Char} {b : Bytes} (h : c ∈ encodeChars b) : IsDigit c := by
  obtain ⟨x, -, hc⟩ := List.mem_flatMap.mp h
  have hx := x.toNat_lt
  simp only [byteDigits, List.mem_cons, List.not_mem_nil, or_false] at hc
  rcases hc with rfl | rfl
  · exact ⟨⟨x.toNat / 16, by omega⟩, rfl⟩
  · exact ⟨⟨x.toNat % 16, by omega⟩, rfl⟩

theorem Hex.IsDigit.elim {c : Char} {P : Char → Prop} (h : IsDigit c) (hall : ∀ n : Fin 16, P (digit n.val)) : P c := by
  obtain ⟨n, rfl⟩ := h
  exact hall n

theorem Hex.decodeChars_encodeChars (b : Bytes) : decodeChars (encodeChars b) = some b := by
  have h := decode_encode b
  simp only [decode, encode, String.toList_ofList] at h
  exact h

namespace Uuid

/-! ### Groups -/

def groups (u : Uuid) : List (List Char) :=
  let d := Hex.encodeChars u.bytes
  [d.take 8, (d.drop 8).take 4, (d.drop 12).take 4, (d.drop 16).take 4, d.drop 20]

theorem toList_toText (u : Uuid) : u.toText.toList = ['-'].intercalate u.groups := by
  simp only [toText, groups, String.toList_ofList, List.intercalate_cons_cons, List.intercalate_singleton,
    List.append_assoc, List.cons_append, List.nil_append]

theorem length_digits (u : Uuid) : (Hex.encodeChars u.bytes).length = 32 := by
  rw [Hex.length_encodeChars, u.length_bytes]

theorem map_length_groups (u : Uuid) : u.groups.map List.length = groupLengths := by
  simp only [groups, List.map_cons, List.map_nil, List.length_take, List.length_drop, length_digits]
  rfl

theorem flatten_groups (u : Uuid) : u.groups.flatten = Hex.encodeChars u.bytes := by
  have htwo : ∀ (l : List Char) (a b : Nat), l.drop a = (l.drop a).take b ++ l.drop (a + b) := by
    intro l a b
    rw [← List.drop_drop, List.take_append_drop]
  simp only [groups, List.flatten_cons, List.flatten_nil, List.append_nil]
  rw [← htwo _ 16 4, ← htwo _ 12 4, ← htwo _ 8 4, List.take_append_drop]

theorem isDigit_of_mem_groups {u : Uuid} {g : List Char} (hg : g ∈ u.groups) {c : Char} (hc : c ∈ g) :
    Hex.IsDigit c := by
  have hflat : c ∈ u.groups.flatten := List.mem_flatten.mpr ⟨g, hg, hc⟩
  rw [flatten_groups] at hflat
  exact Hex.isDigit_of_mem hflat

theorem splitOn_toText (u : Uuid) : u.toText.toList.splitOn '-' = u.groups := by
  rw [toList_toText]
  refine List.splitOn_intercalate '-' ?_ (List.cons_ne_nil _ _)
  intro g hg hdash
  exact absurd rfl ((isDigit_of_mem_groups hg hdash).elim (P := (· ≠ '-')) (by decide))

/-! ### The whole text -/

theorem mem_toText {u : Uuid} {c : Char} (h : c ∈ u.toText.toList) : c = '-' ∨ Hex.IsDigit c := by
  rw [toList_toText] at h
  simp only [groups, List.intercalate_cons_cons, List.intercalate_singleton, List.mem_append,
    List.mem_singleton] at h
  have hmem : ∀ g ∈ u.groups, c ∈ g → Hex.IsDigit c := fun g hg hc => isDigit_of_mem_groups hg hc
  simp only [groups, List.mem_cons, List.not_mem_nil, or_false, forall_eq_or_imp, forall_eq] at hmem
  tauto

theorem length_toText (u : Uuid) : u.toText.toList.length = 36 := by
  have hsum : (['-'].intercalate u.groups).length = (u.groups.map List.length).sum + 4 := by
    simp only [groups, List.intercalate_cons_cons, List.intercalate_singleton, List.length_append, List.map_cons,
      List.map_nil, List.sum_cons, List.sum_nil, List.length_singleton]
    omega
  rw [toList_toText, hsum, map_length_groups]
  rfl

theorem utf8ByteSize_ofList {l : List Char} (h : ∀ c ∈ l, c.utf8Size = 1) :
    (String.ofList l).utf8ByteSize = l.length := by
  rw [String.utf8ByteSize_ofList]
  induction l with
  | nil => rfl
  | cons c l ih =>
    have htail := ih fun d hd => h d (List.mem_cons_of_mem _ hd)
    rw [String.utf8Len_cons, htail, h c List.mem_cons_self, List.length_cons]

theorem utf8ByteSize_toText (u : Uuid) : u.toText.utf8ByteSize = 36 := by
  have hall : ∀ c ∈ u.toText.toList, c.utf8Size = 1 := by
    intro c hc
    rcases mem_toText hc with rfl | hc
    · rfl
    · exact hc.elim (P := fun c => c.utf8Size = 1) (by decide)
  have hlength := utf8ByteSize_ofList hall
  rw [String.ofList_toList, length_toText] at hlength
  exact hlength

theorem unwrap_cons {c : Char} {cs : List Char} (h : Hex.IsDigit c) : unwrap (c :: cs) = (c :: cs, 0) := by
  have hbrace : c ≠ '\x7b' := h.elim (P := (· ≠ '\x7b')) (by decide)
  have hurn : c.toLower ≠ 'u' := h.elim (P := fun c => c.toLower ≠ 'u') (by decide)
  have hnobrace : ¬((c :: cs).head? = some '\x7b' ∧ (c :: cs).getLast? = some '\x7d' ∧ 2 ≤ (c :: cs).length) := by
    rintro ⟨heq, -⟩
    exact hbrace (Option.some.inj heq)
  have hnourn : ¬(((c :: cs).take 9).map Char.toLower = "urn:uuid:".toList) := by
    intro heq
    exact hurn (List.cons.inj heq).1
  rw [unwrap, if_neg hnobrace, if_neg hnourn]

theorem unwrap_toText (u : Uuid) : unwrap u.toText.toList = (u.toText.toList, 0) := by
  obtain ⟨c, cs, hcs⟩ : ∃ c cs, (Hex.encodeChars u.bytes).take 8 = c :: cs := by
    refine List.exists_cons_of_length_pos ?_
    rw [List.length_take, length_digits]
    decide
  have hc : Hex.IsDigit c := by
    refine Hex.isDigit_of_mem (b := u.bytes) (List.mem_of_mem_take (i := 8) ?_)
    rw [hcs]
    exact List.mem_cons_self
  have hlist : ∃ more, u.toText.toList = c :: more := by
    rw [toList_toText]
    simp only [groups, hcs, List.intercalate_cons_cons, List.cons_append]
    exact ⟨_, rfl⟩
  obtain ⟨more, hmore⟩ := hlist
  rw [hmore, unwrap_cons hc]

theorem parse_toText (u : Uuid) : parse u.toText = .ok u := by
  have hbytes : ofBytes? u.bytes = some u := dif_pos u.length_bytes
  simp only [parse, utf8ByteSize_toText, unwrap_toText, splitOn_toText, map_length_groups, flatten_groups, if_true,
    Option.bind_some, Hex.decodeChars_encodeChars, hbytes]
  rfl

end Uuid

end SessionWarden
