import SessionWarden.Proofs.Session.Verification
/-!
# The halves of a key

Whether a text is read as a private key or as a public one. On elliptic curves the half is looked at, and no text is
read as both. For RSA it is not looked at: what is read as one half is read as the other. No such text is of use as
both, since the content of a private key has another number of elements than that of a public one.
-/

namespace SessionWarden

/-! ### Elements -/

namespace Der

theorem readAll?_unique {fuel fuel' : Nat} {b : Bytes} {es es' : List Element} (h : readAll? fuel b = some es)
    (h' : readAll? fuel' b = some es') : es = es' := by
  induction fuel generalizing fuel' b es es' with
  | zero =>
    cases b with
    | nil =>
      simp only [readAll?, Option.some.injEq] at h h'
      rw [← h, ← h']
    | cons x xs => simp [readAll?] at h
  | succ fuel ih =>
    cases b with
    | nil =>
      simp only [readAll?, Option.some.injEq] at h h'
      rw [← h, ← h']
    | cons x xs =>
      cases fuel' with
      | zero => simp [readAll?] at h'
      | succ fuel' =>
        simp only [readAll?, Option.bind_eq_bind, Option.bind_eq_some_iff] at h h'
        obtain ⟨⟨element, rest⟩, hread, tail, htail, hes⟩ := h
        obtain ⟨⟨element', rest'⟩, hread', tail', htail', hes'⟩ := h'
        obtain ⟨rfl, rfl⟩ := Prod.mk.inj (Option.some.inj (hread.symm.trans hread'))
        obtain rfl := ih htail htail'
        exact Option.some.inj (hes.symm.trans hes')

theorem elements?_of_read? {b rest : Bytes} {element : Element} {es all : List Element}
    (hread : read? b = some (element, rest)) (hrest : elements? rest = some es) (hall : elements? b = some all) :
    all = element :: es := by
  cases b with
  | nil => simp [read?] at hread
  | cons x xs =>
    simp only [elements?, List.length_cons, readAll?, hread, Option.bind_eq_bind, Option.bind_some,
      Option.bind_eq_some_iff] at hall
    obtain ⟨tail, htail, hes⟩ := hall
    rw [readAll?_unique hrest htail]
    exact (Option.some.inj hes).symm

theorem length_of_mapM_natural? {es : List Element} {numbers : List Nat} (h : es.mapM natural? = some numbers) :
    numbers.length = es.length := by
  induction es generalizing numbers with
  | nil =>
    obtain rfl := Option.some.inj h
    rfl
  | cons e es ih =>
    rw [List.mapM_cons] at h
    obtain ⟨n, -, h⟩ := Option.bind_eq_some_iff.mp h
    obtain ⟨tail, htail, h⟩ := Option.bind_eq_some_iff.mp h
    obtain rfl := Option.some.inj h
    rw [List.length_cons, List.length_cons, ih htail]

end Der

/-! ### Contents of RSA keys -/

namespace Rsa

theorem elements_of_privateKey {content : Bytes} {key : PrivateKey} (h : privateKey content = .ok key) :
    ∃ sequence version rest es, Der.read? content = some (sequence, []) ∧
      Der.read? sequence.content = some (version, rest) ∧ Der.elements? rest = some es ∧ es.length = 8 := by
  unfold privateKey at h
  dsimp only at h
  split at h
  · rename_i sequence after houter
    split at h
    · rename_i version rest hversion
      split at h
      · obtain ⟨-, -, h⟩ := Except.bind_eq_ok_iff.mp h
        obtain ⟨-, -, h⟩ := Except.bind_eq_ok_iff.mp h
        split at h
        · rename_i n e d p q dp dq qInverse hnumbers
          obtain ⟨es, hes, hmap⟩ := Option.bind_eq_some_iff.mp hnumbers
          obtain ⟨hread, hwhole⟩ := Option.filter_eq_some_iff.mp houter
          simp only [Bool.and_eq_true, List.isEmpty_iff] at hwhole
          obtain ⟨-, rfl⟩ := hwhole
          exact ⟨sequence, version, rest, es, hread, hversion, hes, (Der.length_of_mapM_natural? hmap).symm⟩
        · cases h
      · cases h
    · cases h
  · cases h

theorem publicKey?_of_privateKey {content : Bytes} {key : PrivateKey} (h : privateKey content = .ok key) :
    publicKey? content = none := by
  obtain ⟨sequence, version, rest, es, hcontent, hversion, hrest, hlength⟩ := elements_of_privateKey h
  unfold publicKey?
  split
  · rename_i n e hnumbers
    obtain ⟨all, hall, hmap⟩ := Option.bind_eq_some_iff.mp hnumbers
    simp only [Der.sequence?, hcontent, Option.bind_eq_bind, Option.bind_some] at hall
    split at hall
    · -- nine elements in the one reading would have to be two in the other
      have hcount := Der.length_of_mapM_natural? hmap
      rw [Der.elements?_of_read? hversion hrest hall] at hcount
      simp only [List.length_cons, List.length_nil] at hcount
      omega
    · cases hall
  · rfl

end Rsa

/-! ### Texts that are read as both halves -/

theorem Except.map_eq_ok_iff {ε α β : Type} {x : Except ε α} {f : α → β} {b : β} :
    x.map f = .ok b ↔ ∃ a, x = .ok a ∧ b = f a := by
  cases x <;> simp [Except.map, eq_comm]

namespace KeyText

/-- A text in which the private half of a family is found does not hold the public half of it. -/
theorem publicContent_of_privateContent {family family' : KeyFamily} {key : Option KeyText} {content : Bytes}
    (h : privateContent family key = .ok content) : publicContent family' key = .error .format := by
  unfold privateContent at h
  split at h
  · rfl
  · cases h

end KeyText

namespace Algorithm

/-- Whether a text is read as a key to sign with and as a key to verify with. -/
def ReadsBoth (a : Algorithm) (text : Bytes) : Prop :=
  (∃ key, a.signingKey text = .ok key) ∧ ∃ key, a.verifyingKey text = .ok key

theorem signingKey_eq_ok_iff {a : Algorithm} {text : Bytes} {key : SigningKey} :
    a.signingKey text = .ok key ↔ a.readSigningKey text = .ok key := Except.mapError_eq_ok_iff

theorem verifyingKey_eq_ok_iff {a : Algorithm} {text : Bytes} {key : VerifyingKey} :
    a.verifyingKey text = .ok key ↔ a.readVerifyingKey text = .ok key := Except.mapError_eq_ok_iff

section Reading

variable {text : Bytes}

theorem readSigningKey_rsa_eq_ok_iff {padding : Rsa.Padding} {size : Digest.HashSize} {key : SigningKey} :
    readSigningKey (.rsa padding size) text = .ok key ↔
      ∃ content, KeyText.rsaContent (KeyText.find? text) = .ok content ∧ key = .encoded content := Except.map_eq_ok_iff

theorem readVerifyingKey_rsa_eq_ok_iff {padding : Rsa.Padding} {size : Digest.HashSize} {key : VerifyingKey} :
    readVerifyingKey (.rsa padding size) text = .ok key ↔
      ∃ content, KeyText.rsaContent (KeyText.find? text) = .ok content ∧ key = .encoded content := Except.map_eq_ok_iff

theorem not_readsBoth_ecdsa (c : CurveName) : ¬ ReadsBoth (.ecdsa c) text := by
  rintro ⟨⟨key, hkey⟩, key', hkey'⟩
  obtain ⟨-, -, hprivate⟩ := Except.bind_eq_ok_iff.mp (signingKey_eq_ok_iff.mp hkey)
  obtain ⟨-, -, hpublic⟩ := Except.bind_eq_ok_iff.mp (verifyingKey_eq_ok_iff.mp hkey')
  obtain ⟨content, hcontent, -⟩ := Except.map_eq_ok_iff.mp hprivate
  rw [KeyText.publicContent_of_privateContent hcontent] at hpublic
  cases hpublic

theorem not_readsBoth_ed25519 : ¬ ReadsBoth .ed25519 text := by
  rintro ⟨⟨key, hkey⟩, key', hkey'⟩
  have hpublic := verifyingKey_eq_ok_iff.mp hkey'
  obtain ⟨content, hcontent, -⟩ := Except.map_eq_ok_iff.mp (signingKey_eq_ok_iff.mp hkey)
  unfold readVerifyingKey at hpublic
  dsimp only at hpublic
  rw [KeyText.publicContent_of_privateContent hcontent] at hpublic
  cases hpublic

theorem readsBoth_rsa_iff {padding : Rsa.Padding} {size : Digest.HashSize} :
    ReadsBoth (.rsa padding size) text ↔ ∃ content, KeyText.rsaContent (KeyText.find? text) = .ok content := by
  constructor
  · rintro ⟨⟨key, hkey⟩, -⟩
    obtain ⟨content, hcontent, -⟩ := readSigningKey_rsa_eq_ok_iff.mp (signingKey_eq_ok_iff.mp hkey)
    exact ⟨content, hcontent⟩
  · rintro ⟨content, hcontent⟩
    exact ⟨⟨.encoded content, signingKey_eq_ok_iff.mpr (readSigningKey_rsa_eq_ok_iff.mpr ⟨content, hcontent, rfl⟩)⟩,
      .encoded content, verifyingKey_eq_ok_iff.mpr (readVerifyingKey_rsa_eq_ok_iff.mpr ⟨content, hcontent, rfl⟩)⟩

theorem unusable_of_signs {a : Algorithm} {key : SigningKey} {key' : VerifyingKey} {signer : Signer}
    (ha : ∀ size, a ≠ .hmac size) (hkey : a.signingKey text = .ok key) (hkey' : a.verifyingKey text = .ok key')
    (hsigner : Signer.ofKey a key = .ok signer) : Verifier.ofKey a key' = .unusable := by
  cases a with
  | hmac size => exact absurd rfl (ha size)
  | rsa padding size =>
    obtain ⟨content, hcontent, rfl⟩ := readSigningKey_rsa_eq_ok_iff.mp (signingKey_eq_ok_iff.mp hkey)
    obtain ⟨content', hcontent', rfl⟩ := readVerifyingKey_rsa_eq_ok_iff.mp (verifyingKey_eq_ok_iff.mp hkey')
    obtain rfl := Except.ok.inj (hcontent.symm.trans hcontent')
    unfold Signer.ofKey at hsigner
    obtain ⟨privateKey, hprivate, -⟩ := Except.map_eq_ok_iff.mp (Except.mapError_eq_ok_iff.mp hsigner)
    unfold Verifier.ofKey
    dsimp only
    rw [Rsa.publicKey?_of_privateKey hprivate]
  | ecdsa c => exact absurd ⟨⟨key, hkey⟩, key', hkey'⟩ (not_readsBoth_ecdsa c)
  | ed25519 => exact absurd ⟨⟨key, hkey⟩, key', hkey'⟩ not_readsBoth_ed25519

end Reading

end Algorithm

theorem Inspector.inspect_ne_ok_of_unusable {i : Inspector} (h : i.verifier = .unusable) (now : Instant) (x : String)
    (claims : Claims) : i.inspect now x ≠ .ok claims := by
  intro haccepted
  obtain ⟨p, -, -, -, -, hsignature, -⟩ := inspect_eq_ok_iff.mp haccepted
  unfold checkSignature at hsignature
  rw [h] at hsignature
  dsimp only at hsignature
  split at hsignature
  · cases hsignature
  · simp [Verifier.verify] at hsignature

/-! ### Blocks of text -/

namespace Pem

/-- A text is cut at the first part that begins with a byte that is not met before. -/
theorem cut?_append {b : UInt8} {part before rest : Bytes} (hbefore : b ∉ before) :
    cut? (b :: part) (before ++ (b :: part ++ rest)) = some (before, rest) := by
  induction before with
  | nil => simp [cut?]
  | cons x xs ih =>
    obtain ⟨hx, hxs⟩ := List.ne_and_not_mem_of_not_mem_cons hbefore
    have hrest := ih hxs
    rw [List.cons_append] at hrest
    simp [cut?, hx, hrest]

theorem cutText?_append {boundary : String} {part before rest : Bytes}
    (hboundary : Bytes.ofString boundary = 0x2d :: part) (hbefore : 0x2d ∉ before) :
    cutText? boundary (before ++ (Bytes.ofString boundary ++ rest)) = some (before, rest) := by
  unfold cutText?
  rw [hboundary]
  exact cut?_append hbefore

/-- The text of a block: its boundaries with a label, and its data on lines between them. -/
def blockText (label data : String) : Bytes :=
  Bytes.ofString "-----BEGIN " ++ (Bytes.ofString label ++ (Bytes.ofString "-----" ++ (0x0a :: Bytes.ofString data ++
    (Bytes.ofString "-----END " ++ (Bytes.ofString label ++ (Bytes.ofString "-----" ++ [0x0a]))))))

/-- The tolerant reader finds the block of a text in which the only dashes are those of the boundaries. -/
theorem find?_blockText {label data : String} {b : UInt8} {rest content : Bytes} (hlabel : Bytes.ofString label ≠ [])
    (hlabelDash : 0x2d ∉ Bytes.ofString label) (hdataDash : 0x2d ∉ Bytes.ofString data)
    (hdata : Bytes.ofString data = b :: rest) (hb : 0x20 < b)
    (hheaders : splitHeaders (Bytes.ofString data) = ([], Bytes.ofString data))
    (hcontent : Base64.standard.decodeChars (data.toList.filter fun c => !isBlank c) = some content) :
    find? (blockText label data) = some ⟨label, content⟩ := by
  have hbegin : Bytes.ofString "-----BEGIN " = 0x2d :: (Bytes.ofString "-----BEGIN ").tail := by decide +kernel
  have hend : Bytes.ofString "-----END " = 0x2d :: (Bytes.ofString "-----END ").tail := by decide +kernel
  have hdashes : Bytes.ofString "-----" = 0x2d :: (Bytes.ofString "-----").tail := by decide +kernel
  have hvalid : headersValid [] = true := by decide +kernel
  have hfront : ∀ tail : Bytes, List.dropWhile (fun b => b == 0x20 || b == 0x09 || b == 0x0a || b == 0x0d)
      (0x0a :: Bytes.ofString data ++ tail) = Bytes.ofString data ++ tail := by
    intro tail
    have hne : b ≠ 0x20 ∧ b ≠ 0x09 ∧ b ≠ 0x0a ∧ b ≠ 0x0d := by
      refine ⟨?_, ?_, ?_, ?_⟩ <;> rintro rfl <;> exact absurd hb (by decide)
    rw [hdata]
    simp [hne]
  have hopened : ∀ tail, cutText? "-----BEGIN " (Bytes.ofString "-----BEGIN " ++ tail) = some ([], tail) :=
    fun tail => cutText?_append hbegin List.not_mem_nil
  simp only [find?, blockText, hopened, cutText?_append hdashes hlabelDash, hfront,
    cutText?_append hend hdataDash, Bytes.toString?_ofString, hheaders, hcontent, hvalid, Option.bind_eq_bind,
    Option.bind_some, hlabel, if_true, if_false, ne_eq, not_true_eq_false, or_self]

end Pem

/-! ### A key that is read as both halves -/

namespace Rsa

/-- The content of a private key of 2048 bits: the factors of its modulus are one and three less than a power of two.
They need not be primes to be taken for a key. -/
def sampleContent : Bytes :=
  [0x30, 0x82, 0x03, 0x22, 0x02, 0x01, 0x00] ++
    ([0x02, 0x82, 0x01, 0x01, 0x00] ++ List.replicate 127 0xff ++ [0xfc] ++ List.replicate 127 0x00 ++ [0x03]) ++
    [0x02, 0x03, 0x01, 0x00, 0x01] ++ ([0x02, 0x81, 0x81, 0x02] ++ List.replicate 127 0x00 ++ [0x01]) ++
    ([0x02, 0x81, 0x81, 0x00] ++ List.replicate 128 0xff) ++
    ([0x02, 0x81, 0x81, 0x00] ++ List.replicate 127 0xff ++ [0xfd]) ++
    [0x02, 0x01, 0x01] ++ [0x02, 0x01, 0x01] ++ ([0x02, 0x81, 0x80, 0x7f] ++ List.replicate 127 0xff)

def sampleChars : List Char := Base64.standard.encodeChars sampleContent ++ ['\n']

def sampleText : Bytes := Pem.blockText "RSA PRIVATE KEY" (String.ofList sampleChars)

theorem find?_sampleText : KeyText.find? sampleText = some (.bareRsa sampleContent) := by
  have hall : (sampleChars.all fun c => c.toNat < 128 && c.val.toUInt8 != 0x2d) = true := by decide +kernel
  have hchars : ∀ c ∈ sampleChars, c.toNat < 128 ∧ c.val.toUInt8 ≠ 0x2d := by simpa using hall
  have hbytes : Bytes.ofString (String.ofList sampleChars) = sampleChars.map fun c => c.val.toUInt8 :=
    Bytes.ofString_ofList fun c hc => (hchars c hc).1
  have hfront : Bytes.ofString (String.ofList sampleChars) =
      0x4d :: sampleChars.tail.map fun c => c.val.toUInt8 := by
    rw [hbytes]
    rfl
  have hblock : Pem.find? sampleText = some ⟨"RSA PRIVATE KEY", sampleContent⟩ := by
    refine Pem.find?_blockText ?_ ?_ ?_ hfront ?_ ?_ ?_
    · decide +kernel
    · decide +kernel
    · rw [hbytes]
      intro hdash
      obtain ⟨c, hc, heq⟩ := List.mem_map.mp hdash
      exact (hchars c hc).2 heq
    · decide
    · rw [hbytes]
      decide +kernel
    · rw [String.toList_ofList]
      decide +kernel
  have htrees : (Tree.parse? sampleContent).isSome = true := by decide +kernel
  obtain ⟨trees, htrees⟩ := Option.isSome_iff_exists.mp htrees
  simp [KeyText.find?, hblock, htrees]

theorem exists_privateKey_sampleContent : ∃ key, privateKey sampleContent = .ok key := by
  have hread : (privateKey sampleContent).toOption.isSome = true := by decide +kernel
  cases h : privateKey sampleContent with
  | error fault =>
    rw [h] at hread
    cases hread
  | ok key => exact ⟨key, rfl⟩

theorem rsaContent_sampleText : KeyText.rsaContent (KeyText.find? sampleText) = .ok sampleContent := by
  rw [find?_sampleText, KeyText.rsaContent]

end Rsa

/-! ### Halves -/

/-- No text is read as both halves of a key of an elliptic curve. A text that is read as one half of an RSA key is read
as the other, with the same content, but an issuer that is set up from it is trusted by no inspector that is. -/
theorem halves_told_apart (a : Algorithm) (ha : ∀ size, a ≠ .hmac size) (text : Bytes) :
    (a.ReadsBoth text ↔ (∃ padding size, a = .rsa padding size) ∧
      ∃ content, KeyText.rsaContent (KeyText.find? text) = .ok content) ∧
    (∀ padding size content, a = .rsa padding size →
      (a.signingKey text = .ok (.encoded content) ↔ a.verifyingKey text = .ok (.encoded content))) ∧
    ∀ (name issuer issuer' : String) (now : Instant) (i : Issuer) (v : Inspector), Algorithm.ofName name = .ok a →
      Issuer.tryNew issuer name text now = .ok i → Inspector.tryNew issuer' name text = .ok v →
      ∀ (time : Instant) (x : String) (claims : Claims), v.inspect time x ≠ .ok claims := by
  refine ⟨?_, ?_, ?_⟩
  · cases a with
    | hmac size => exact absurd rfl (ha size)
    | rsa padding size =>
      rw [Algorithm.readsBoth_rsa_iff]
      exact ⟨fun h => ⟨⟨padding, size, rfl⟩, h⟩, fun h => h.2⟩
    | ecdsa c =>
      constructor
      · exact fun h => absurd h (Algorithm.not_readsBoth_ecdsa c)
      · rintro ⟨⟨_, _, ⟨⟩⟩, -⟩
    | ed25519 =>
      constructor
      · exact fun h => absurd h Algorithm.not_readsBoth_ed25519
      · rintro ⟨⟨_, _, ⟨⟩⟩, -⟩
  · rintro padding size content rfl
    simp [Algorithm.signingKey_eq_ok_iff, Algorithm.verifyingKey_eq_ok_iff, Algorithm.readSigningKey_rsa_eq_ok_iff,
      Algorithm.readVerifyingKey_rsa_eq_ok_iff]
  · intro name issuer issuer' now i v hname hissuer hinspector
    obtain ⟨b, key, signer, hb, hkey, hsigner, -, -⟩ := Issuer.tryNew_eq_ok_iff.mp hissuer
    obtain ⟨b', key', hb', hkey', rfl⟩ := Inspector.tryNew_eq_ok_iff.mp hinspector
    obtain rfl := Except.ok.inj (hname.symm.trans hb)
    obtain rfl := Except.ok.inj (hname.symm.trans hb')
    exact Inspector.inspect_ne_ok_of_unusable (Algorithm.unusable_of_signs ha hkey hkey' hsigner)

/-- The halves of a key are not told apart by reading: a private key is read as a key to verify with. -/
theorem halves_mixed_up : ¬ ∀ (a : Algorithm) (text : Bytes), (∀ size, a ≠ .hmac size) → ¬ a.ReadsBoth text := by
  intro h
  refine h (.rsa .fixed .bits256) Rsa.sampleText (by simp) ?_
  exact Algorithm.readsBoth_rsa_iff.mpr ⟨Rsa.sampleContent, Rsa.rsaContent_sampleText⟩

theorem halves_told_apart_of_sample : (∀ size, Algorithm.rsa .fixed .bits256 ≠ .hmac size) ∧
    Algorithm.ReadsBoth (.rsa .fixed .bits256) Rsa.sampleText ∧ ∃ i v,
      Issuer.tryNew "warden" "RS256" Rsa.sampleText ⟨0⟩ = .ok i ∧
      Inspector.tryNew "warden" "RS256" Rsa.sampleText = .ok v ∧
      ∀ (time : Instant) (x : String) (claims : Claims), v.inspect time x ≠ .ok claims := by
  have ha : ∀ size, Algorithm.rsa .fixed .bits256 ≠ .hmac size := by simp
  have hname : Algorithm.ofName "RS256" = .ok (.rsa .fixed .bits256) := by decide +kernel
  obtain ⟨hboth, hsame, hapart⟩ := halves_told_apart (.rsa .fixed .bits256) ha Rsa.sampleText
  have hsigning : Algorithm.signingKey (.rsa .fixed .bits256) Rsa.sampleText = .ok (.encoded Rsa.sampleContent) :=
    Algorithm.signingKey_eq_ok_iff.mpr
      (Algorithm.readSigningKey_rsa_eq_ok_iff.mpr ⟨Rsa.sampleContent, Rsa.rsaContent_sampleText, rfl⟩)
  have hverifying := (hsame .fixed .bits256 Rsa.sampleContent rfl).mp hsigning
  obtain ⟨key, hkey⟩ := Rsa.exists_privateKey_sampleContent
  have hsigner : Signer.ofKey (.rsa .fixed .bits256) (.encoded Rsa.sampleContent) = .ok (.rsa .fixed .bits256 key) := by
    simp [Signer.ofKey, hkey, Except.map, Except.mapError]
  have hissuer : Issuer.tryNew "warden" "RS256" Rsa.sampleText ⟨0⟩ = .ok _ :=
    Issuer.tryNew_eq_ok_iff.mpr ⟨_, _, _, hname, hsigning, hsigner, by decide, rfl⟩
  have hinspector : Inspector.tryNew "warden" "RS256" Rsa.sampleText = .ok _ :=
    Inspector.tryNew_eq_ok_iff.mpr ⟨_, _, hname, hverifying, rfl⟩
  exact ⟨ha, hboth.mpr ⟨⟨.fixed, .bits256, rfl⟩, _, Rsa.rsaContent_sampleText⟩, _, _, hissuer, hinspector,
    hapart "RS256" "warden" "warden" ⟨0⟩ _ _ hname hissuer hinspector⟩

end SessionWarden
