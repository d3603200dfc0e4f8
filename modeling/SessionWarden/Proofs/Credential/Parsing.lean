import SessionWarden.Proofs.Credential.Acceptance
/-!
# Parsing a credential

The claims of a credential are handed out exactly if it is accepted. Whatever else is wrong with it, the answer is
that it is invalid, and the first check that it fails is the reason in the log.
-/

namespace SessionWarden

namespace Inspector

variable {i : Inspector} {x : String} {c : Claims}

theorem runAction_parse_fst_eq_ok_iff {w : World} : (w.runAction (i.parse x)).1 = .ok c ↔ i.Accepts w.clock x c := by
  constructor
  · intro h
    rcases i.inspect_spec w.clock x with ⟨d, hd, haccepts⟩ | ⟨reason, hreason, -⟩
    · rw [runAction_parse_of_ok hd] at h
      obtain rfl := Except.ok.inj h
      exact haccepts
    · rw [runAction_parse_of_error hreason] at h
      cases h
  · intro h
    rw [runAction_parse_of_ok h.inspect]

/-- An inspector that was set up hands out exactly the claims of accepted credentials. To every other text it answers
that the credential is invalid, with the reason of the first check that fails in the log; a credential that names
another algorithm is refused for that, whatever its signature. -/
theorem parse_iff_accepts {issuer name : String} {key : Bytes} (h : tryNew issuer name key = .ok i) (w : World)
    (x : String) :
    (i.issuer = issuer ∧ Algorithm.ofName name = .ok i.algorithm ∧
      ∃ k, i.algorithm.verifyingKey key = .ok k ∧ i.verifier = Verifier.ofKey i.algorithm k) ∧
    (∀ c, (w.runAction (i.parse x)).1 = .ok c ↔ i.Accepts w.clock x c) ∧
    (∀ reason, i.Faults w.clock x reason → w.runAction (i.parse x) =
      (.error .credentialInvalid, { w with journal := w.journal ++ [.credentialRejected reason.word] })) ∧
    ((∃ c, i.Accepts w.clock x c) ∨ ∃ reason, i.Faults w.clock x reason) ∧
    ∀ (p : CredentialParts) (a : Algorithm), p.Makes x → p.algorithm? = some a → a ≠ i.algorithm →
      w.runAction (i.parse x) =
        (.error .credentialInvalid, { w with journal := w.journal ++ [.credentialRejected "algorithm"] }) := by
  refine ⟨?_, fun c => runAction_parse_fst_eq_ok_iff, fun reason hfaults => ?_, ?_, fun p a hmakes ha hother => ?_⟩
  · obtain ⟨a, ha, h⟩ := Except.bind_eq_ok_iff.mp h
    obtain ⟨k, hk, h⟩ := Except.bind_eq_ok_iff.mp h
    obtain rfl := Except.ok.inj h
    exact ⟨rfl, ha, k, hk, rfl⟩
  · exact runAction_parse_of_error hfaults.inspect
  · rcases i.inspect_spec w.clock x with ⟨c, -, haccepts⟩ | ⟨reason, -, hfaults⟩
    · exact Or.inl ⟨c, haccepts⟩
    · exact Or.inr ⟨reason, hfaults⟩
  · have hnot : p.algorithm? ≠ some i.algorithm := fun hsame => hother (Option.some.inj (ha.symm.trans hsame))
    have hfaults : i.Faults w.clock x .algorithm :=
      ⟨.algorithm, not_holds_algorithm hmakes hnot,
        List.forall_mem_cons.mpr ⟨⟨p, hmakes⟩, List.forall_mem_singleton.mpr ⟨p, a, hmakes, ha⟩⟩, .algorithm⟩
    exact runAction_parse_of_error hfaults.inspect

theorem exists_signed (hkeyed : i.verifier.IsKeyed) (payload : Json) : ∃ (x : String) (p : CredentialParts),
    p.Makes x ∧ p.algorithm? = some i.algorithm ∧ i.Signed p ∧ decodePart? p.payload = some payload := by
  obtain ⟨size, secret, hverifier⟩ := hkeyed
  let header := Issuer.partChars (Header.ofAlgorithm i.algorithm)
  let message := CredentialParts.message ⟨header, Issuer.partChars payload, []⟩
  let p : CredentialParts :=
    ⟨header, Issuer.partChars payload, Base64.urlBare.encodeChars (size.toHash.hmac secret message)⟩
  have hmakes : p.Makes (String.ofList ((p.header ++ '.' :: p.payload) ++ '.' :: p.signature)) :=
    ⟨String.toList_ofList, Issuer.dot_not_mem_partChars _, Issuer.dot_not_mem_partChars _,
      Base64.dot_not_mem_encodeChars _⟩
  have halgorithm : p.algorithm? = some i.algorithm := by
    rw [CredentialParts.algorithm?, Issuer.decodePart?_partChars, Option.bind_some, Header.algorithm?_ofAlgorithm]
  have hsigned : i.Signed p := by
    refine ⟨_, Base64.urlBare_decodeChars_encodeChars _, ?_⟩
    rw [hverifier]
    exact beq_self_eq_true (size.toHash.hmac secret message)
  exact ⟨_, p, hmakes, halgorithm, hsigned, Issuer.decodePart?_partChars payload⟩

/-! ### Credentials under the empty secret -/

def sample : Inspector := ⟨"warden", .hmac .bits256, .hmac .bits256 []⟩

theorem sample_keyed : sample.verifier.IsKeyed := ⟨.bits256, [], rfl⟩

theorem sample_of_tryNew : tryNew "warden" "HS256" [] = .ok sample := by
  have halgorithm : Algorithm.ofName "HS256" = .ok (.hmac .bits256) := by decide +kernel
  rw [tryNew, halgorithm]
  rfl

/-- The members of claims that are good for fifteen minutes from the epoch on. -/
def sampleMembers : List (Option String × Json) :=
  [(some "iss", .string "warden"), (some "sub", .string "u"), (some "exp", .int 900), (some "iat", .int 0),
    (some "fingerprint", .string "")]

def sampleClaims : Claims := ⟨"warden", "u", 900, 0, "", []⟩

theorem parse_iff_accepts_of_sample : ∃ x, tryNew "warden" "HS256" [] = .ok sample ∧
    ((World.empty ⟨0⟩ fun _ => default).runAction (sample.parse x)).1 = .ok sampleClaims := by
  have hclaims : Claims.ofJson? (.object sampleMembers) = some sampleClaims := by decide +kernel
  obtain ⟨x, p, hmakes, halgorithm, hsigned, hpayload⟩ := exists_signed sample_keyed (.object sampleMembers)
  have hread : p.claims? = some sampleClaims := by
    rw [CredentialParts.claims?, hpayload]
    exact hclaims
  have haccepts : sample.Accepts ⟨0⟩ x sampleClaims :=
    ⟨p, sampleMembers, hmakes, ⟨halgorithm, hsigned, hread, by decide, by decide, rfl⟩, hpayload,
      ⟨none, rfl, rfl⟩, none, rfl, rfl⟩
  exact ⟨x, sample_of_tryNew,
    ((parse_iff_accepts sample_of_tryNew (World.empty ⟨0⟩ fun _ => default) x).2.1 _).mpr haccepts⟩

theorem parse_not_iff_admits : ¬ ∀ (issuer name : String) (key : Bytes) (i : Inspector),
    tryNew issuer name key = .ok i → ∀ (w : World) (x : String) (c : Claims),
      (w.runAction (i.parse x)).1 = .ok c ↔ ∃ p : CredentialParts, p.Makes x ∧ i.Admits w.clock p c := by
  intro hall
  let members := sampleMembers ++ [(some "nbf", .int 1), (some "nbf", .int 2)]
  have hclaims : Claims.ofJson? (.object members) = some sampleClaims := by decide +kernel
  obtain ⟨x, p, hmakes, halgorithm, hsigned, hpayload⟩ := exists_signed sample_keyed (.object members)
  have hread : p.claims? = some sampleClaims := by
    rw [CredentialParts.claims?, hpayload]
    exact hclaims
  have hparsed := (hall _ _ _ _ sample_of_tryNew (World.empty ⟨0⟩ fun _ => default) x sampleClaims).mpr
    ⟨p, hmakes, halgorithm, hsigned, hread, by decide, by decide, rfl⟩
  obtain ⟨q, others, hq, -, hothers, ⟨value, hvalue, -⟩, -⟩ := runAction_parse_fst_eq_ok_iff.mp hparsed
  obtain rfl := hmakes.unique hq
  obtain rfl : members = others := Json.object.inj (Option.some.inj (hpayload.symm.trans hothers))
  cases hvalue

end Inspector

end SessionWarden
