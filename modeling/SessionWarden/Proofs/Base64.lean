import SessionWarden.Base64
/-!
# Base 64 without fill

The bytes of a written text are read back, and only what would have been written is read. A text that is safe in
a URL has no dot in it, so that a credential can be cut at its dots.
-/

namespace SessionWarden.Base64

/-! ### Characters -/

variable {v : Variant}

/-- Whether the characters of a variant tell the six-bit values apart. -/
def Variant.Distinct (v : Variant) : Prop := ∀ n : Fin 64, v.value? (v.char n.val) = some n.val

theorem urlBare_distinct : urlBare.Distinct := by
  unfold Variant.Distinct
  decide

theorem urlBare_char_ne_dot : ∀ n : Fin 64, urlBare.char n.val ≠ '.' := by decide

theorem char_of_value? {c : Char} {n : Nat} (h : v.value? c = some n) : n < 64 ∧ v.char n = c := by
  have hofNat : ∀ k, k = c.toNat → Char.ofNat k = c := by
    rintro k rfl
    exact Char.ofNat_toNat c
  -- one range of the alphabet after the other
  rw [Variant.value?] at h
  split at h
  case isTrue hupper =>
    have hlow : 65 ≤ c.toNat := hupper.1
    have hhigh : c.toNat ≤ 90 := hupper.2
    obtain rfl := Option.some.inj h
    refine ⟨by omega, ?_⟩
    rw [Variant.char, if_pos (by omega)]
    exact hofNat _ (by omega)
  split at h
  case isTrue hlower =>
    have hlow : 97 ≤ c.toNat := hlower.1
    have hhigh : c.toNat ≤ 122 := hlower.2
    obtain rfl := Option.some.inj h
    refine ⟨by omega, ?_⟩
    rw [Variant.char, if_neg (by omega), if_pos (by omega)]
    exact hofNat _ (by omega)
  split at h
  case isTrue hdigit =>
    have hlow : 48 ≤ c.toNat := hdigit.1
    have hhigh : c.toNat ≤ 57 := hdigit.2
    obtain rfl := Option.some.inj h
    refine ⟨by omega, ?_⟩
    rw [Variant.char, if_neg (by omega), if_neg (by omega), if_pos (by omega)]
    exact hofNat _ (by omega)
  split at h
  case isTrue h62 =>
    obtain rfl := Option.some.inj h
    exact ⟨by decide, h62.symm⟩
  split at h
  case isTrue h63 =>
    obtain rfl := Option.some.inj h
    exact ⟨by decide, h63.symm⟩
  cases h

/-! ### Sixes -/

/-- The six-bit values of a byte string, three bytes to four of them. -/
def sixes : Bytes → List Nat
  | a :: b :: c :: rest =>
    let n := (a.toNat * 256 + b.toNat) * 256 + c.toNat
    n / 262144 :: n / 4096 % 64 :: n / 64 % 64 :: n % 64 :: sixes rest
  | [a, b] =>
    let n := (a.toNat * 256 + b.toNat) * 4
    [n / 4096, n / 64 % 64, n % 64]
  | [a] =>
    let n := a.toNat * 16
    [n / 64, n % 64]
  | [] => []

theorem encodeChars_eq (hbare : v.padded = false) (b : Bytes) : v.encodeChars b = (sixes b).map v.char := by
  have hfill : ∀ n, v.fill n = [] := fun n => by rw [Variant.fill, hbare, if_neg Bool.false_ne_true]
  induction b using sixes.induct with
  | case1 a b c rest ih => simp only [Variant.encodeChars, sixes, ih, List.map_cons]
  | case2 a b => simp only [Variant.encodeChars, sixes, hfill, List.map_cons, List.map_nil]
  | case3 a => simp only [Variant.encodeChars, sixes, hfill, List.map_cons, List.map_nil]
  | case4 => rfl

theorem lt_of_mem_sixes (b : Bytes) : ∀ n ∈ sixes b, n < 64 := by
  induction b using sixes.induct with
  | case1 a b c rest ih =>
    intro n hn
    have ha := a.toNat_lt
    have hb := b.toNat_lt
    have hc := c.toNat_lt
    simp only [sixes, List.mem_cons] at hn
    rcases hn with rfl | rfl | rfl | rfl | hn
    · omega
    · omega
    · omega
    · omega
    · exact ih n hn
  | case2 a b =>
    intro n hn
    have ha := a.toNat_lt
    have hb := b.toNat_lt
    simp only [sixes, List.mem_cons, List.not_mem_nil, or_false] at hn
    omega
  | case3 a =>
    intro n hn
    have ha := a.toNat_lt
    simp only [sixes, List.mem_cons, List.not_mem_nil, or_false] at hn
    omega
  | case4 =>
    intro n hn
    cases hn

theorem ofNat_eq_of_mod {n : Nat} {a : UInt8} (h : n % 256 = a.toNat) : UInt8.ofNat n = a := by
  apply UInt8.toNat_inj.mp
  rw [UInt8.toNat_ofNat', h]

theorem ofSixes_sixes (b : Bytes) : ofSixes (sixes b) = some b := by
  induction b using sixes.induct with
  | case1 a b c rest ih =>
    have ha := a.toNat_lt
    have hb := b.toNat_lt
    have hc := c.toNat_lt
    -- four sixes put together are the number of three bytes, of which each byte is a remainder
    have hn : ∀ n, n < 16777216 →
        ((n / 262144 * 64 + n / 4096 % 64) * 64 + n / 64 % 64) * 64 + n % 64 = n := by
      intro n hn
      omega
    simp only [sixes, ofSixes, ih, Option.bind_eq_bind, Option.bind_some]
    rw [hn _ (by omega), ofNat_eq_of_mod (a := a) (by omega), ofNat_eq_of_mod (a := b) (by omega),
      ofNat_eq_of_mod (a := c) (by omega)]
    rfl
  | case2 a b =>
    have ha := a.toNat_lt
    have hb := b.toNat_lt
    have hn : ∀ n, n < 262144 → (n / 4096 * 64 + n / 64 % 64) * 64 + n % 64 = n := by
      intro n hn
      omega
    simp only [sixes, ofSixes]
    rw [hn _ (by omega), if_pos (by omega), ofNat_eq_of_mod (a := a) (by omega),
      ofNat_eq_of_mod (a := b) (by omega)]
  | case3 a =>
    have ha := a.toNat_lt
    have hn : ∀ n, n / 64 * 64 + n % 64 = n := by
      intro n
      omega
    simp only [sixes, ofSixes]
    rw [hn, if_pos (by omega), ofNat_eq_of_mod (a := a) (by omega)]
  | case4 => rfl

theorem sixes_of_ofSixes {l : List Nat} {b : Bytes} (hlt : ∀ n ∈ l, n < 64) (h : ofSixes l = some b) :
    sixes b = l := by
  induction l using ofSixes.induct generalizing b with
  | case1 x y z t rest ih =>
    obtain ⟨tail, htail, h⟩ := Option.bind_eq_some_iff.mp h
    obtain rfl := Option.some.inj h
    have hx := hlt x (by simp)
    have hy := hlt y (by simp)
    have hz := hlt z (by simp)
    have ht := hlt t (by simp)
    have hrest := ih (fun n hn => hlt n (by simp [hn])) htail
    simp only [sixes, hrest, UInt8.toNat_ofNat', List.cons.injEq, and_true]
    omega
  | case2 x y z n =>
    rename_i hn
    have hx := hlt x (by simp)
    have hy := hlt y (by simp)
    have hz := hlt z (by simp)
    have hbytes : some [UInt8.ofNat (n / 1024), UInt8.ofNat (n / 4)] = some b := (if_pos hn).symm.trans h
    obtain rfl := Option.some.inj hbytes
    simp only [sixes, UInt8.toNat_ofNat', List.cons.injEq, and_true]
    omega
  | case3 x y z n =>
    rename_i hn
    cases (if_neg hn).symm.trans h
  | case4 x y n =>
    rename_i hn
    have hx := hlt x (by simp)
    have hy := hlt y (by simp)
    have hbytes : some [UInt8.ofNat (n / 16)] = some b := (if_pos hn).symm.trans h
    obtain rfl := Option.some.inj hbytes
    simp only [sixes, UInt8.toNat_ofNat', List.cons.injEq, and_true]
    omega
  | case5 x y n =>
    rename_i hn
    cases (if_neg hn).symm.trans h
  | case6 x => cases h
  | case7 =>
    obtain rfl := Option.some.inj h
    rfl

/-! ### Texts -/

theorem mapM_value?_char (hv : v.Distinct) {l : List Nat} (h : ∀ n ∈ l, n < 64) :
    (l.map v.char).mapM v.value? = some l := by
  induction l with
  | nil => rfl
  | cons n l ih =>
    have hhead : v.value? (v.char n) = some n := hv ⟨n, h n List.mem_cons_self⟩
    have htail := ih fun m hm => h m (List.mem_cons_of_mem _ hm)
    rw [List.map_cons, List.mapM_cons, hhead, htail]
    rfl

theorem map_char_of_mapM_value? {cs : List Char} {l : List Nat} (h : cs.mapM v.value? = some l) :
    (∀ n ∈ l, n < 64) ∧ l.map v.char = cs := by
  induction cs generalizing l with
  | nil =>
    obtain rfl := Option.some.inj h
    exact ⟨fun n hn => (by cases hn), rfl⟩
  | cons c cs ih =>
    rw [List.mapM_cons] at h
    obtain ⟨n, hn, h⟩ := Option.bind_eq_some_iff.mp h
    obtain ⟨m, hm, h⟩ := Option.bind_eq_some_iff.mp h
    obtain rfl := Option.some.inj h
    obtain ⟨hlt, hchar⟩ := char_of_value? hn
    obtain ⟨htail, hmap⟩ := ih hm
    exact ⟨List.forall_mem_cons.mpr ⟨hlt, htail⟩, by rw [List.map_cons, hchar, hmap]⟩

theorem decodeChars_eq_some_iff (hbare : v.padded = false) (hv : v.Distinct) {cs : List Char} {b : Bytes} :
    v.decodeChars cs = some b ↔ cs = v.encodeChars b := by
  have hunfill : v.unfill? cs = some cs := by rw [Variant.unfill?, hbare, if_neg Bool.false_ne_true]
  rw [Variant.decodeChars, hunfill, Option.bind_eq_bind, Option.bind_some]
  constructor
  · intro h
    obtain ⟨l, hl, h⟩ := Option.bind_eq_some_iff.mp h
    obtain ⟨hlt, hmap⟩ := map_char_of_mapM_value? hl
    rw [encodeChars_eq hbare, sixes_of_ofSixes hlt h, hmap]
  · rintro rfl
    simp only [encodeChars_eq hbare, mapM_value?_char hv (lt_of_mem_sixes b), Option.bind_eq_bind,
      Option.bind_some, ofSixes_sixes]

theorem urlBare_decodeChars_eq_some_iff {cs : List Char} {b : Bytes} :
    urlBare.decodeChars cs = some b ↔ cs = urlBare.encodeChars b :=
  decodeChars_eq_some_iff rfl urlBare_distinct

theorem urlBare_decodeChars_encodeChars (b : Bytes) : urlBare.decodeChars (urlBare.encodeChars b) = some b :=
  urlBare_decodeChars_eq_some_iff.mpr rfl

theorem urlBare_encode_injective {a b : Bytes} (h : urlBare.encode a = urlBare.encode b) : a = b := by
  have hchars := congrArg urlBare.decodeChars (String.ofList_injective h)
  rw [urlBare_decodeChars_encodeChars, urlBare_decodeChars_encodeChars] at hchars
  exact Option.some.inj hchars

theorem forall_mem_encodeChars {v : Variant} (hbare : v.padded = false) {P : Char → Prop}
    (hP : ∀ n : Fin 64, P (v.char n.val)) (b : Bytes) : ∀ c ∈ v.encodeChars b, P c := by
  intro c hc
  rw [encodeChars_eq hbare] at hc
  obtain ⟨n, hn, rfl⟩ := List.mem_map.mp hc
  exact hP ⟨n, lt_of_mem_sixes b n hn⟩

theorem dot_not_mem_encodeChars (b : Bytes) : '.' ∉ urlBare.encodeChars b := fun hdot =>
  forall_mem_encodeChars rfl (P := (· ≠ '.')) urlBare_char_ne_dot b '.' hdot rfl

end SessionWarden.Base64
