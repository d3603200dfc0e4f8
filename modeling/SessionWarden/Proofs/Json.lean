import Mathlib.Tactic.Ring
import SessionWarden.Json
/-!
# Reading what was written

A value that was written is read back as it was, whatever the value: numbers keep their form, strings their
bytes, and arrays and objects their members in order. A reader goes on from the first byte that cannot belong to
a number, so a written value may stand before anything that does not start like one.
-/

namespace SessionWarden

theorem Bytes.toString?_ofString (s : String) : Bytes.toString? (Bytes.ofString s) = some s := by
  have hbytes : (⟨(Bytes.ofString s).toArray⟩ : ByteArray) = s.toUTF8 := by
    simp only [Bytes.ofString, Array.toArray_toList]
  rw [Bytes.toString?, hbytes, String.fromUTF8?, String.toUTF8_eq_toByteArray, dif_pos s.isValidUTF8]
  rfl

theorem Bytes.ofString_ofList {cs : List Char} (h : ∀ c ∈ cs, c.toNat < 128) :
    ofString (String.ofList cs) = cs.map fun c => c.val.toUInt8 := by
  have hsingle : cs.flatMap String.utf8EncodeChar = cs.map fun c => c.val.toUInt8 := by
    have heach : cs.map String.utf8EncodeChar = cs.map fun c => [c.val.toUInt8] := by
      refine List.map_congr_left fun c hc => String.utf8EncodeChar_eq_singleton (Char.utf8Size_eq_one_iff.mpr ?_)
      exact UInt32.le_iff_toNat_le.mpr (Nat.le_of_lt_succ (h c hc))
    rw [List.flatMap_def, heach, ← List.flatMap_def, ← List.map_eq_flatMap]
  rw [ofString, String.toUTF8_eq_toByteArray, String.toByteArray_ofList, List.utf8Encode, List.data_toByteArray,
    hsingle]

namespace Json

open JsonNumber (writeNat writePlaces)

/-! ### Digits -/

theorem isDigit_ofNat {n : Nat} (h : 48 ≤ n) (hn : n ≤ 57) : isDigit (UInt8.ofNat n) = true := by
  have hall : ∀ m : Fin 10, isDigit (UInt8.ofNat (48 + m.val)) = true := by decide
  have hm := hall ⟨n - 48, by omega⟩
  have heq : 48 + (n - 48) = n := by omega
  simp only [heq] at hm
  exact hm

theorem digit_bounds {c : Char} {n : Nat} (hc : c ∈ Nat.toDigits 10 n) : 48 ≤ c.toNat ∧ c.toNat ≤ 57 := by
  have h := Nat.isDigit_of_mem_toDigits (by decide) (by decide) hc
  simp only [Char.isDigit, Bool.and_eq_true, decide_eq_true_eq] at h
  exact ⟨h.1, h.2⟩

theorem isDigit_of_mem_writeNat {b : UInt8} {n : Nat} (hb : b ∈ writeNat n) : isDigit b = true := by
  obtain ⟨c, hc, rfl⟩ := List.mem_map.mp hb
  obtain ⟨hlow, hhigh⟩ := digit_bounds hc
  exact isDigit_ofNat hlow hhigh

theorem writeNat_ne_nil (n : Nat) : writeNat n ≠ [] := by
  simp only [writeNat, ne_eq, List.map_eq_nil_iff]
  exact Nat.toDigits_ne_nil

theorem isDigit_of_mem_writePlaces {b : UInt8} {places n : Nat} (hb : b ∈ writePlaces places n) :
    isDigit b = true := by
  induction places generalizing n with
  | zero => cases hb
  | succ places ih =>
    rcases List.mem_append.mp hb with hb | hb
    · exact ih hb
    · obtain rfl := List.mem_singleton.mp hb
      have hlt := Nat.mod_lt n (show 0 < 10 by decide)
      exact isDigit_ofNat (by omega) (by omega)

theorem length_writePlaces (places n : Nat) : (writePlaces places n).length = places := by
  induction places generalizing n with
  | zero => rfl
  | succ places ih => rw [writePlaces, List.length_append, ih, List.length_singleton]

theorem digitsValue_append (a b : Bytes) : digitsValue (a ++ b) = digitsValue a * 10 ^ b.length + digitsValue b := by
  have hfold : ∀ (b : Bytes) (acc : Nat), b.foldl (fun acc x => acc * 10 + (x.toNat - 48)) acc =
      acc * 10 ^ b.length + digitsValue b := by
    intro b
    induction b with
    | nil => intro acc; simp [digitsValue]
    | cons d ds ih =>
      intro acc
      rw [digitsValue, List.foldl_cons, List.foldl_cons, ih, ih (0 * 10 + (d.toNat - 48)), List.length_cons, pow_succ]
      ring
  rw [digitsValue, List.foldl_append]
  exact hfold b _

theorem digitsValue_writePlaces (places n : Nat) : digitsValue (writePlaces places n) = n % 10 ^ places := by
  induction places generalizing n with
  | zero => rw [pow_zero, Nat.mod_one]; rfl
  | succ places ih =>
    have hlt := Nat.mod_lt n (show 0 < 10 by decide)
    have hbyte : (UInt8.ofNat (48 + n % 10)).toNat = 48 + n % 10 := by
      rw [UInt8.toNat_ofNat', Nat.mod_eq_of_lt (by omega)]
    have hdigit : digitsValue [UInt8.ofNat (48 + n % 10)] = n % 10 := by
      show 0 * 10 + ((UInt8.ofNat (48 + n % 10)).toNat - 48) = n % 10
      omega
    rw [writePlaces, digitsValue_append, ih, hdigit, List.length_singleton, pow_one, pow_succ', Nat.mod_mul]
    omega

theorem digitsValue_writeNat (n : Nat) : digitsValue (writeNat n) = n := by
  have hfold : ∀ (l : List Char) (acc : Nat), (∀ c ∈ l, 48 ≤ c.toNat ∧ c.toNat ≤ 57) →
      (l.map fun c => UInt8.ofNat c.toNat).foldl (fun acc x => acc * 10 + (x.toNat - 48)) acc =
        Nat.ofDigitChars 10 l acc := by
    intro l
    induction l with
    | nil =>
      intro acc h
      simp only [List.map_nil, List.foldl_nil, Nat.ofDigitChars_nil]
    | cons c cs ih =>
      intro acc h
      obtain ⟨hlow, hhigh⟩ := h c List.mem_cons_self
      have hbyte : (UInt8.ofNat c.toNat).toNat = c.toNat := by
        rw [UInt8.toNat_ofNat', Nat.mod_eq_of_lt (by omega)]
      rw [List.map_cons, List.foldl_cons, ih _ fun d hd => h d (List.mem_cons_of_mem _ hd),
        Nat.ofDigitChars_cons, hbyte, Nat.mul_comm]
      rfl
  rw [digitsValue, writeNat, hfold _ _ fun c hc => digit_bounds hc]
  exact Nat.ofDigitChars_ten_toDigits

theorem length_le_of_head?_writeNat {n : Nat} (h : (writeNat n).head? = some 0x30) : (writeNat n).length ≤ 1 := by
  have hhead : ∀ n, 0 < n → (Nat.toDigits 10 n).head? ≠ some '0' := by
    intro n
    induction n using Nat.strongRecOn with
    | ind n ih =>
      intro hpos
      rw [Nat.toDigits_eq_if (by decide)]
      split
      · rename_i hlt
        have hall : ∀ m : Fin 10, 0 < m.val → [Nat.digitChar m.val].head? ≠ some '0' := by decide
        exact hall ⟨n, hlt⟩ hpos
      · rename_i hge
        rw [List.head?_append]
        have hrec := ih (n / 10) (by omega) (by omega)
        cases hd : (Nat.toDigits 10 (n / 10)).head? with
        | none => exact absurd (List.head?_eq_none_iff.mp hd) Nat.toDigits_ne_nil
        | some c =>
          rw [hd] at hrec
          exact hrec
  rcases Nat.eq_zero_or_pos n with rfl | hpos
  · decide
  · exfalso
    simp only [writeNat, List.head?_map, Option.map_eq_some_iff] at h
    obtain ⟨c, hc, hbyte⟩ := h
    obtain ⟨hlow, hhigh⟩ := digit_bounds (List.mem_of_head? hc)
    have hnat : (UInt8.ofNat c.toNat).toNat = 48 := by rw [hbyte]; rfl
    rw [UInt8.toNat_ofNat', Nat.mod_eq_of_lt (by omega)] at hnat
    have hzero : c = '0' := Char.toNat_inj.mp hnat
    exact hhead n hpos (hzero ▸ hc)

/-! ### Numbers -/

/-- Whether what follows a number cannot belong to it. -/
def Stops (rest : Bytes) : Prop :=
  ∀ c ∈ rest.head?, isDigit c = false ∧ c ≠ 0x2e ∧ c ≠ 0x65 ∧ c ≠ 0x45

theorem stops_nil : Stops [] := by
  intro c hc
  cases hc

theorem stops_cons {c : UInt8} {rest : Bytes} (h : isDigit c = false ∧ c ≠ 0x2e ∧ c ≠ 0x65 ∧ c ≠ 0x45) :
    Stops (c :: rest) := by
  intro d hd
  obtain rfl := Option.some.inj hd
  exact h

theorem readDigits?_append {digits rest : Bytes} (hdigits : ∀ b ∈ digits, isDigit b = true) (hne : digits ≠ [])
    (h : ∀ c ∈ rest.head?, isDigit c = false) : readDigits? (digits ++ rest) = some (digits, rest) := by
  have htake : rest.takeWhile isDigit = [] ∧ rest.dropWhile isDigit = rest := by
    cases rest with
    | nil => exact ⟨rfl, rfl⟩
    | cons c cs =>
      have hc := h c rfl
      exact ⟨List.takeWhile_cons_of_neg (by simp [hc]), List.dropWhile_cons_of_neg (by simp [hc])⟩
  simp only [readDigits?, List.takeWhile_append_of_pos hdigits, List.dropWhile_append_of_pos hdigits, htake.1,
    htake.2, List.append_nil, hne, if_false]

theorem readDigits?_writeNat (n : Nat) {rest : Bytes} (h : ∀ c ∈ rest.head?, isDigit c = false) :
    readDigits? (writeNat n ++ rest) = some (writeNat n, rest) :=
  readDigits?_append (fun _ hb => isDigit_of_mem_writeNat hb) (writeNat_ne_nil n) h

theorem readFraction?_of_head? {rest : Bytes} (h : ∀ c ∈ rest.head?, c ≠ 0x2e) :
    readFraction? rest = some ([], rest) := by
  unfold readFraction?
  split
  · exact absurd rfl (h 0x2e rfl)
  · rfl

theorem readFraction?_writeFraction {digits rest : Bytes} (hdigits : ∀ b ∈ digits, isDigit b = true)
    (h : ∀ c ∈ rest.head?, isDigit c = false ∧ c ≠ 0x2e) :
    readFraction? (writeFraction digits ++ rest) = some (digits, rest) := by
  by_cases hnil : digits = []
  · rw [writeFraction, if_pos hnil, List.nil_append, hnil]
    exact readFraction?_of_head? fun c hc => (h c hc).2
  · rw [writeFraction, if_neg hnil, List.cons_append]
    exact readDigits?_append hdigits hnil fun c hc => (h c hc).1

theorem readExponent?_writeExponent (e : Option Int) {rest : Bytes} (h : Stops rest) :
    readExponent? (writeExponent e ++ rest) = some (e, rest) := by
  have hdigit : ∀ c ∈ rest.head?, isDigit c = false := fun c hc => (h c hc).1
  cases e with
  | none =>
    rw [writeExponent, List.nil_append]
    cases rest with
    | nil => rfl
    | cons c cs =>
      obtain ⟨-, -, hlower, hupper⟩ := h c rfl
      simp only [readExponent?, hlower, hupper, or_self, if_false]
  | some e =>
    by_cases he : e < 0
    · have hwrite : writeExponent (some e) ++ rest = 0x65 :: 0x2d :: (writeNat e.natAbs ++ rest) := by
        simp only [writeExponent, writeSign, he, decide_true, if_true, List.cons_append, List.nil_append]
      have hvalue : -(e.natAbs : Int) = e := by omega
      simp only [readExponent?, hwrite, true_or, if_true, readDigits?_writeNat _ hdigit, digitsValue_writeNat,
        Option.bind_eq_bind, Option.bind_some, hvalue]
      rfl
    · have hwrite : writeExponent (some e) ++ rest = 0x65 :: (writeNat e.natAbs ++ rest) := by
        simp only [writeExponent, writeSign, he, decide_false, Bool.false_eq_true, if_false, List.cons_append,
          List.nil_append]
      have hvalue : (e.natAbs : Int) = e := by omega
      -- the first digit is no sign
      obtain ⟨d, ds, hd⟩ := List.exists_cons_of_ne_nil (writeNat_ne_nil e.natAbs)
      have hfirst : isDigit d = true := isDigit_of_mem_writeNat (n := e.natAbs) (hd ▸ List.mem_cons_self)
      have hread := readDigits?_writeNat e.natAbs hdigit
      have hval := digitsValue_writeNat e.natAbs
      rw [hd, List.cons_append] at hread
      rw [hd] at hval
      have hminus : ∀ more, d :: (ds ++ rest) ≠ 0x2d :: more := by
        rintro more heq
        injection heq with heq
        exact absurd (heq ▸ hfirst) (by decide)
      have hplus : ∀ more, d :: (ds ++ rest) ≠ 0x2b :: more := by
        rintro more heq
        injection heq with heq
        exact absurd (heq ▸ hfirst) (by decide)
      rw [hwrite, hd, List.cons_append]
      simp only [readExponent?, true_or, if_true, hread, hval, hvalue, Option.bind_eq_bind,
        Option.bind_some, Bool.false_eq_true, if_false]
      rfl

theorem Stops.head?_writeExponent {rest : Bytes} (h : Stops rest) (e : Option Int) :
    ∀ c ∈ (writeExponent e ++ rest).head?, isDigit c = false ∧ c ≠ 0x2e := by
  intro c hc
  cases e with
  | none => exact ⟨(h c hc).1, (h c hc).2.1⟩
  | some e =>
    obtain rfl := Option.some.inj hc
    decide

theorem Stops.head?_writeFraction {rest : Bytes} (h : Stops rest) (digits : Bytes) (e : Option Int) :
    ∀ c ∈ (writeFraction digits ++ (writeExponent e ++ rest)).head?, isDigit c = false := by
  intro c hc
  by_cases hnil : digits = []
  · rw [writeFraction, if_pos hnil] at hc
    exact (h.head?_writeExponent e c hc).1
  · rw [writeFraction, if_neg hnil] at hc
    obtain rfl := Option.some.inj hc
    decide

theorem digitsValue_whole_append_fraction (n : JsonNumber) : digitsValue (n.whole ++ n.fraction) = n.digits := by
  rw [digitsValue_append, JsonNumber.whole, JsonNumber.fraction, digitsValue_writeNat, digitsValue_writePlaces,
    length_writePlaces, Nat.mul_comm]
  exact Nat.div_add_mod n.digits (10 ^ n.places)

theorem readUnsigned?_writeUnsigned (n : JsonNumber) {rest : Bytes} (h : Stops rest) :
    readUnsigned? n.negative (writeUnsigned n ++ rest) = some (n, rest) := by
  have hzero : ¬(n.whole.head? = some 0x30 ∧ 1 < n.whole.length) := by
    rintro ⟨hhead, hlength⟩
    have hshort := length_le_of_head?_writeNat hhead
    exact absurd hlength (Nat.not_lt.mpr hshort)
  have hwhole : readDigits? (n.whole ++ (writeFraction n.fraction ++ (writeExponent n.exponent ++ rest))) =
      some (n.whole, writeFraction n.fraction ++ (writeExponent n.exponent ++ rest)) :=
    readDigits?_writeNat _ (h.head?_writeFraction _ _)
  have hfraction : readFraction? (writeFraction n.fraction ++ (writeExponent n.exponent ++ rest)) =
      some (n.fraction, writeExponent n.exponent ++ rest) :=
    readFraction?_writeFraction (fun _ hb => isDigit_of_mem_writePlaces hb) (h.head?_writeExponent _)
  have hplaces : n.fraction.length = n.places := length_writePlaces _ _
  simp only [readUnsigned?, writeUnsigned, List.append_assoc, hwhole, hzero, hfraction,
    readExponent?_writeExponent _ h, Option.bind_eq_bind, Option.bind_some, if_false,
    digitsValue_whole_append_fraction, hplaces]
  rfl

/-! ### Strings -/

/-- The bytes that the writer escapes by a letter, with the letter. -/
def letters : List (UInt8 × UInt8) :=
  [(0x22, 0x22), (0x5c, 0x5c), (0x08, 0x62), (0x0c, 0x66), (0x0a, 0x6e), (0x0d, 0x72), (0x09, 0x74)]

theorem escapeByte_cases (b : UInt8) :
    (∃ letter, (b, letter) ∈ letters ∧ escapeByte b = [0x5c, letter]) ∨
      (b < 0x20 ∧ escapeByte b = [0x5c, 0x75, 0x30, 0x30, hexDigit (b.toNat / 16), hexDigit (b.toNat % 16)]) ∨
      (¬ b < 0x20 ∧ b ≠ 0x22 ∧ b ≠ 0x5c ∧ escapeByte b = [b]) := by
  unfold escapeByte
  split
  · exact Or.inl ⟨0x22, by decide, rfl⟩
  · exact Or.inl ⟨0x5c, by decide, rfl⟩
  · exact Or.inl ⟨0x62, by decide, rfl⟩
  · exact Or.inl ⟨0x66, by decide, rfl⟩
  · exact Or.inl ⟨0x6e, by decide, rfl⟩
  · exact Or.inl ⟨0x72, by decide, rfl⟩
  · exact Or.inl ⟨0x74, by decide, rfl⟩
  · rename_i hquote hslash _ _ _ _ _
    by_cases hb : b < 0x20
    · exact Or.inr (Or.inl ⟨hb, if_pos hb⟩)
    · exact Or.inr (Or.inr ⟨hb, hquote, hslash, if_neg hb⟩)

theorem hexFour?_control : ∀ n : Fin 32,
    hexFour? [0x30, 0x30, hexDigit (n.val / 16), hexDigit (n.val % 16)] = some n.val := by decide

theorem characterBytes_control : ∀ n : Fin 32, characterBytes n.val = [UInt8.ofNat n.val] := by decide

theorem readPiece?_escapeByte (b : UInt8) (rest : Bytes) :
    readPiece? (escapeByte b ++ rest) = some (.bytes [b], rest) := by
  rcases escapeByte_cases b with ⟨letter, hletter, heq⟩ | ⟨hlow, heq⟩ | ⟨hhigh, hquote, hslash, heq⟩
  · rw [heq]
    simp only [letters, List.mem_cons, List.not_mem_nil, or_false, Prod.mk.injEq] at hletter
    rcases hletter with ⟨rfl, rfl⟩ | ⟨rfl, rfl⟩ | ⟨rfl, rfl⟩ | ⟨rfl, rfl⟩ | ⟨rfl, rfl⟩ | ⟨rfl, rfl⟩ |
      ⟨rfl, rfl⟩ <;> rfl
  · rw [heq]
    have hlt : b.toNat < 32 := hlow
    have hfour := hexFour?_control ⟨b.toNat, hlt⟩
    have hbytes := characterBytes_control ⟨b.toNat, hlt⟩
    have hpiece : numberPiece b.toNat rest = (.bytes [b], 0) := by
      rw [numberPiece, if_neg (by omega), if_neg (by omega), hbytes, UInt8.ofNat_toNat]
    simp only [readPiece?, List.cons_append, List.nil_append, List.take_succ_cons, List.take_zero,
      List.drop_succ_cons, List.drop_zero, hfour, Option.bind_eq_bind, Option.bind_some, hpiece]
    rfl
  · rw [heq, List.singleton_append]
    unfold readPiece?
    split
    · rename_i he
      injection he with he
      exact absurd he hslash
    · rename_i he
      injection he with he
      exact absurd he hslash
    · rename_i c tail _ _ he
      obtain ⟨rfl, rfl⟩ := List.cons.inj he
      rw [if_neg (not_or.mpr ⟨hhigh, hslash⟩)]
    · rename_i he
      cases he

theorem head?_escapeByte (b : UInt8) (rest : Bytes) : (escapeByte b ++ rest).head? ≠ some 0x22 := by
  rcases escapeByte_cases b with ⟨letter, -, heq⟩ | ⟨-, heq⟩ | ⟨-, hquote, -, heq⟩
  · rw [heq]
    exact fun he => absurd he (by simp)
  · rw [heq]
    exact fun he => absurd he (by simp)
  · rw [heq]
    exact fun he => hquote (Option.some.inj he)

theorem readString?_piece {fuel : Nat} {acc b piece rest : Bytes} {fault : Option Bool}
    (hquote : b.head? ≠ some 0x22) (hpiece : readPiece? b = some (.bytes piece, rest)) :
    readString? (fuel + 1) acc fault b = readString? fuel (piece.reverse ++ acc) fault rest := by
  have hne : ∀ more, b = 0x22 :: more → False := by
    rintro more rfl
    exact hquote rfl
  simp only [readString?, hpiece]

theorem readString?_write (text : Bytes) : ∀ {fuel : Nat} (acc rest : Bytes) (fault : Option Bool),
    text.length < fuel → readString? fuel acc fault (text.flatMap escapeByte ++ 0x22 :: rest) =
      some (ofStringBytes (acc.reverse ++ text) fault, rest) := by
  induction text with
  | nil =>
    intro fuel acc rest fault hfuel
    obtain ⟨fuel, rfl⟩ := Nat.exists_eq_add_one_of_ne_zero (Nat.ne_of_gt hfuel)
    rw [List.append_nil]
    rfl
  | cons b text ih =>
    intro fuel acc rest fault hfuel
    rw [List.length_cons] at hfuel
    obtain ⟨fuel, rfl⟩ := Nat.exists_eq_add_one_of_ne_zero (Nat.ne_of_gt (Nat.zero_lt_of_lt hfuel))
    rw [List.flatMap_cons, List.append_assoc,
      readString?_piece (head?_escapeByte b _) (readPiece?_escapeByte b _), ih _ _ _ (by omega)]
    simp only [List.reverse_cons, List.reverse_nil, List.nil_append, List.singleton_append, List.reverse_cons,
      List.append_assoc]

theorem length_le_length_flatMap_escapeByte (text : Bytes) : text.length ≤ (text.flatMap escapeByte).length := by
  induction text with
  | nil => exact Nat.le_refl _
  | cons b text ih =>
    have hpos : 1 ≤ (escapeByte b).length := by
      rcases escapeByte_cases b with ⟨letter, -, heq⟩ | ⟨-, heq⟩ | ⟨-, -, -, heq⟩ <;> rw [heq] <;> simp
    rw [List.flatMap_cons, List.length_append, List.length_cons]
    omega

theorem readString?_text (s : String) (rest : Bytes) :
    readString? (((Bytes.ofString s).flatMap escapeByte ++ 0x22 :: rest).length + 1) [] none
      ((Bytes.ofString s).flatMap escapeByte ++ 0x22 :: rest) = some (string s, rest) := by
  have hfuel := length_le_length_flatMap_escapeByte (Bytes.ofString s)
  rw [readString?_write _ _ _ _ (by rw [List.length_append]; omega)]
  simp only [List.reverse_nil, List.nil_append, ofStringBytes, Bytes.toString?_ofString]

theorem readString?_half (closed : Bool) (rest : Bytes) :
    readString? (((writeUnreadable closed).tail ++ rest).length + 1) [] none
      ((writeUnreadable closed).tail ++ rest) = some (unreadable closed, rest) := by
  cases closed with
  | true =>
    have htail : (writeUnreadable true).tail = [0x5c, 0x75, 0x64, 0x38, 0x30, 0x30, 0x22] := by decide
    rw [htail]
    rfl
  | false =>
    have htail : (writeUnreadable false).tail = [0x5c, 0x75, 0x64, 0x63, 0x30, 0x30, 0x22] := by decide
    rw [htail]
    rfl

theorem skipBlanks_cons {c : UInt8} {rest : Bytes} (h : isBlank c = false) : skipBlanks (c :: rest) = c :: rest :=
  List.dropWhile_cons_of_neg (by rw [h]; exact Bool.false_ne_true)

theorem readKey?_writeKey (key : Option String) (rest : Bytes) :
    readKey? (writeKey key ++ rest) = some (key, rest) := by
  cases key with
  | some s =>
    have hwrite : writeKey (some s) ++ rest = 0x22 :: ((Bytes.ofString s).flatMap escapeByte ++ 0x22 :: rest) := by
      simp only [writeKey, writeText, List.cons_append, List.append_assoc, List.nil_append]
    simp only [readKey?, hwrite, skipBlanks_cons (show isBlank 0x22 = false by decide), readString?_text]
  | none =>
    have hwrite : writeKey none ++ rest = 0x22 :: ((writeUnreadable true).tail ++ rest) := rfl
    simp only [readKey?, hwrite, skipBlanks_cons (show isBlank 0x22 = false by decide), readString?_half]

/-! ### Values -/

theorem readValue?_text (fuel : Nat) (s : String) (rest : Bytes) :
    readValue? (fuel + 1) (writeText s ++ rest) = some (string s, rest) := by
  have hwrite : writeText s ++ rest = 0x22 :: ((Bytes.ofString s).flatMap escapeByte ++ 0x22 :: rest) := by
    simp only [writeText, List.cons_append, List.append_assoc, List.nil_append]
  simp only [readValue?, hwrite, skipBlanks_cons (show isBlank 0x22 = false by decide), readString?_text, if_true]

theorem readValue?_half (fuel : Nat) (closed : Bool) (rest : Bytes) :
    readValue? (fuel + 1) (writeUnreadable closed ++ rest) = some (unreadable closed, rest) := by
  have hwrite : writeUnreadable closed ++ rest = 0x22 :: ((writeUnreadable closed).tail ++ rest) := by
    cases closed <;> rfl
  simp only [readValue?, hwrite, skipBlanks_cons (show isBlank 0x22 = false by decide), readString?_half, if_true]

theorem exists_cons_writeUnsigned (n : JsonNumber) : ∃ d ds, writeUnsigned n = d :: ds ∧ isDigit d = true := by
  obtain ⟨d, ds, hd⟩ := List.exists_cons_of_ne_nil (writeNat_ne_nil (n.digits / Nat.pow 10 n.places))
  have hdigit : isDigit d = true := isDigit_of_mem_writeNat (hd ▸ List.mem_cons_self)
  refine ⟨d, ds ++ writeFraction n.fraction ++ writeExponent n.exponent, ?_, hdigit⟩
  rw [writeUnsigned, JsonNumber.whole, hd]
  rfl

theorem ne_of_isDigit {c : UInt8} (h : isDigit c = true) :
    isBlank c = false ∧ c ≠ 0x22 ∧ c ≠ 0x5b ∧ c ≠ 0x7b ∧ c ≠ 0x2d ∧ c ≠ 0x5d := by
  have hbounds : 48 ≤ c.toNat ∧ c.toNat ≤ 57 := by
    simp only [isDigit, Bool.and_eq_true, decide_eq_true_eq] at h
    exact ⟨h.1, h.2⟩
  have hne : ∀ d : UInt8, d.toNat < 48 ∨ 57 < d.toNat → c ≠ d := by
    rintro d hd rfl
    omega
  refine ⟨?_, hne _ (by decide), hne _ (by decide), hne _ (by decide), hne _ (by decide), hne _ (by decide)⟩
  simp only [isBlank, Bool.or_eq_false_iff, beq_eq_false_iff_ne]
  exact ⟨⟨⟨hne _ (by decide), hne _ (by decide)⟩, hne _ (by decide)⟩, hne _ (by decide)⟩

theorem readValue?_number (fuel : Nat) (n : JsonNumber) {rest : Bytes} (h : Stops rest) :
    readValue? (fuel + 1) (writeNumber n ++ rest) = some (number n, rest) := by
  have hread := readUnsigned?_writeUnsigned n h
  rw [writeNumber]
  cases hn : n.negative with
  | true =>
    rw [hn] at hread
    simp only [writeSign, if_true, List.cons_append, List.nil_append, readValue?,
      skipBlanks_cons (show isBlank 0x2d = false by decide), hread, Option.map_some]
    rfl
  | false =>
    rw [hn] at hread
    obtain ⟨d, ds, hd, hdigit⟩ := exists_cons_writeUnsigned n
    rw [hd, List.cons_append] at hread
    obtain ⟨hblank, hquote, hlist, hmembers, hsign, -⟩ := ne_of_isDigit hdigit
    simp only [writeSign, Bool.false_eq_true, if_false, List.nil_append, hd, List.cons_append, readValue?,
      skipBlanks_cons hblank, hquote, hlist, hmembers, hsign, hdigit, if_true, hread, Option.map_some]

theorem readWord?_append (word : String) (j : Json) (rest : Bytes) :
    readWord? word j (Bytes.ofString word ++ rest) = some (j, rest) := by
  have hpre : (Bytes.ofString word).isPrefixOf (Bytes.ofString word ++ rest) = true :=
    List.isPrefixOf_iff_prefix.mpr (List.prefix_append _ _)
  simp only [readWord?, hpre, if_true, List.drop_left]

/-- A written value begins with a byte that is neither a blank nor the end of an array. -/
theorem exists_cons_write (j : Json) : ∃ c cs, write j = c :: cs ∧ isBlank c = false ∧ c ≠ 0x5d := by
  cases j with
  | null => exact ⟨0x6e, _, rfl, by decide, by decide⟩
  | bool b =>
    cases b with
    | true => exact ⟨0x74, _, rfl, by decide, by decide⟩
    | false => exact ⟨0x66, _, rfl, by decide, by decide⟩
  | number n =>
    obtain ⟨d, ds, hd, hdigit⟩ := exists_cons_writeUnsigned n
    obtain ⟨hblank, -, -, -, -, hend⟩ := ne_of_isDigit hdigit
    rw [write, writeNumber, hd]
    cases n.negative with
    | true => exact ⟨0x2d, _, rfl, by decide, by decide⟩
    | false => exact ⟨d, ds, rfl, hblank, hend⟩
  | string s => exact ⟨0x22, _, rfl, by decide, by decide⟩
  | unreadable closed =>
    cases closed with
    | true => exact ⟨0x22, _, rfl, by decide, by decide⟩
    | false => exact ⟨0x22, _, rfl, by decide, by decide⟩
  | array items => exact ⟨0x5b, _, rfl, by decide, by decide⟩
  | object members => exact ⟨0x7b, _, rfl, by decide, by decide⟩

theorem exists_cons_writeItems (j : Json) (js : List Json) :
    ∃ c cs, writeItems (j :: js) = c :: cs ∧ isBlank c = false ∧ c ≠ 0x5d := by
  obtain ⟨c, cs, hcs, hblank, hend⟩ := exists_cons_write j
  cases js with
  | nil => exact ⟨c, cs, hcs, hblank, hend⟩
  | cons j' js =>
    refine ⟨c, cs ++ 0x2c :: writeItems (j' :: js), ?_, hblank, hend⟩
    show write j ++ 0x2c :: writeItems (j' :: js) = _
    rw [hcs, List.cons_append]

theorem exists_cons_writeMembers (m : Option String × Json) (ms : List (Option String × Json)) :
    ∃ cs, writeMembers (m :: ms) = 0x22 :: cs := by
  obtain ⟨key, j⟩ := m
  obtain ⟨cs, hcs⟩ : ∃ cs, writeKey key = 0x22 :: cs := by
    cases key with
    | none => exact ⟨_, rfl⟩
    | some s => exact ⟨_, rfl⟩
  cases ms with
  | nil => exact ⟨cs ++ 0x3a :: write j, by rw [writeMembers, hcs, List.cons_append]⟩
  | cons m ms =>
    refine ⟨cs ++ 0x3a :: (write j ++ 0x2c :: writeMembers (m :: ms)), ?_⟩
    show writeKey key ++ 0x3a :: (write j ++ 0x2c :: writeMembers (m :: ms)) = _
    rw [hcs, List.cons_append]

theorem readValue?_array (fuel : Nat) {c : UInt8} {b : Bytes} (hblank : isBlank c = false) (hend : c ≠ 0x5d) :
    readValue? (fuel + 1) (0x5b :: c :: b) =
      (readItems? fuel (c :: b)).map fun (items, rest) => (array items, rest) := by
  have hquote : (0x5b : UInt8) ≠ 0x22 := by decide
  have hne : ∀ more, c :: b = 0x5d :: more → False := by
    intro more heq
    exact hend (List.cons.inj heq).1
  simp only [readValue?, skipBlanks_cons (show isBlank 0x5b = false by decide), skipBlanks_cons hblank, hquote,
    if_false, if_true]

theorem readValue?_object (fuel : Nat) (b : Bytes) :
    readValue? (fuel + 1) (0x7b :: 0x22 :: b) =
      (readMembers? fuel (0x22 :: b)).map fun (members, rest) => (object members, rest) := by
  have hquote : (0x7b : UInt8) ≠ 0x22 := by decide
  have hlist : (0x7b : UInt8) ≠ 0x5b := by decide
  simp only [readValue?, skipBlanks_cons (show isBlank 0x7b = false by decide),
    skipBlanks_cons (show isBlank 0x22 = false by decide), hquote, hlist, if_false, if_true]
  rfl

mutual

/-- A written value is read back, whatever stands behind it. A value takes one unit of fuel more than it has
bytes, and the inside of a list two more. -/
theorem readValue?_write : ∀ (j : Json) (fuel : Nat) (rest : Bytes), (write j).length < fuel → Stops rest →
    readValue? fuel (write j ++ rest) = some (j, rest)
  | .null, fuel + 1, rest, hfuel, hrest => readWord?_append "null" null rest
  | .bool true, fuel + 1, rest, hfuel, hrest => readWord?_append "true" (bool true) rest
  | .bool false, fuel + 1, rest, hfuel, hrest => readWord?_append "false" (bool false) rest
  | .number n, fuel + 1, rest, hfuel, hrest => readValue?_number fuel n hrest
  | .string s, fuel + 1, rest, hfuel, hrest => readValue?_text fuel s rest
  | .unreadable closed, fuel + 1, rest, hfuel, hrest => readValue?_half fuel closed rest
  | .array [], fuel + 1, rest, hfuel, hrest => rfl
  | .array (j :: js), fuel + 1, rest, hfuel, hrest => by
    have hlength : (writeItems (j :: js)).length + 1 < fuel := by
      simp only [write, List.length_cons, List.length_append, List.length_nil] at hfuel
      omega
    have hread := readItems?_writeItems j js fuel rest hlength
    obtain ⟨c, cs, hcs, hblank, hend⟩ := exists_cons_writeItems j js
    rw [hcs, List.cons_append] at hread
    have hwrite : write (.array (j :: js)) ++ rest = 0x5b :: (c :: (cs ++ 0x5d :: rest)) := by
      simp only [write, hcs, List.cons_append, List.append_assoc, List.nil_append]
    rw [hwrite, readValue?_array fuel hblank hend, hread, Option.map_some]
  | .object [], fuel + 1, rest, hfuel, hrest => rfl
  | .object (m :: ms), fuel + 1, rest, hfuel, hrest => by
    have hlength : (writeMembers (m :: ms)).length + 1 < fuel := by
      simp only [write, List.length_cons, List.length_append, List.length_nil] at hfuel
      omega
    have hread := readMembers?_writeMembers m ms fuel rest hlength
    obtain ⟨cs, hcs⟩ := exists_cons_writeMembers m ms
    rw [hcs, List.cons_append] at hread
    have hwrite : write (.object (m :: ms)) ++ rest = 0x7b :: (0x22 :: (cs ++ 0x7d :: rest)) := by
      simp only [write, hcs, List.cons_append, List.append_assoc, List.nil_append]
    rw [hwrite, readValue?_object, hread, Option.map_some]

theorem readItems?_writeItems : ∀ (j : Json) (js : List Json) (fuel : Nat) (rest : Bytes),
    (writeItems (j :: js)).length + 1 < fuel →
    readItems? fuel (writeItems (j :: js) ++ 0x5d :: rest) = some (j :: js, rest)
  | j, [], fuel + 1, rest, hfuel => by
    have hlength : (write j).length + 1 < fuel + 1 := hfuel
    have hread := readValue?_write j fuel (0x5d :: rest) (Nat.lt_of_succ_lt_succ hlength)
      (stops_cons (by decide))
    simp only [writeItems, readItems?, hread, skipBlanks_cons (show isBlank 0x5d = false by decide)]
  | j, j' :: js, fuel + 1, rest, hfuel => by
    have hwrite : writeItems (j :: j' :: js) = write j ++ 0x2c :: writeItems (j' :: js) := rfl
    rw [hwrite, List.length_append, List.length_cons] at hfuel
    have hread := readValue?_write j fuel (0x2c :: (writeItems (j' :: js) ++ 0x5d :: rest))
      (by omega) (stops_cons (by decide))
    have hitems := readItems?_writeItems j' js fuel rest (by omega)
    simp only [hwrite, List.append_assoc, List.cons_append, readItems?, hread,
      skipBlanks_cons (show isBlank 0x2c = false by decide), hitems, Option.map_some]

theorem readMembers?_writeMembers : ∀ (m : Option String × Json) (ms : List (Option String × Json)) (fuel : Nat)
    (rest : Bytes), (writeMembers (m :: ms)).length + 1 < fuel →
    readMembers? fuel (writeMembers (m :: ms) ++ 0x7d :: rest) = some (m :: ms, rest)
  | (key, j), [], fuel + 1, rest, hfuel => by
    have hwrite : writeMembers [(key, j)] = writeKey key ++ 0x3a :: write j := rfl
    rw [hwrite, List.length_append, List.length_cons] at hfuel
    have hkey := readKey?_writeKey key (0x3a :: (write j ++ 0x7d :: rest))
    have hread := readValue?_write j fuel (0x7d :: rest) (by omega) (stops_cons (by decide))
    simp only [hwrite, List.append_assoc, List.cons_append, readMembers?, hkey, hread,
      skipBlanks_cons (show isBlank 0x3a = false by decide), skipBlanks_cons (show isBlank 0x7d = false by decide)]
  | (key, j), m :: ms, fuel + 1, rest, hfuel => by
    have hwrite : writeMembers ((key, j) :: m :: ms) =
        writeKey key ++ 0x3a :: (write j ++ 0x2c :: writeMembers (m :: ms)) := rfl
    simp only [hwrite, List.length_append, List.length_cons] at hfuel
    have hkey := readKey?_writeKey key (0x3a :: (write j ++ 0x2c :: (writeMembers (m :: ms) ++ 0x7d :: rest)))
    have hread := readValue?_write j fuel (0x2c :: (writeMembers (m :: ms) ++ 0x7d :: rest))
      (by omega) (stops_cons (by decide))
    have hmembers := readMembers?_writeMembers m ms fuel rest (by omega)
    simp only [hwrite, List.append_assoc, List.cons_append, readMembers?, hkey, hread, hmembers,
      skipBlanks_cons (show isBlank 0x3a = false by decide), skipBlanks_cons (show isBlank 0x2c = false by decide),
      Option.map_some]

end

theorem read?_write (j : Json) : read? (write j) = some j := by
  have hread := readValue?_write j _ [] (Nat.lt_succ_self _) stops_nil
  rw [List.append_nil] at hread
  simp only [read?, hread]
  rfl

end Json

end SessionWarden
