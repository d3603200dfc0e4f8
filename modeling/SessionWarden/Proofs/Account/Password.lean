import SessionWarden.Account.Password
import SessionWarden.Proofs.Base64
import SessionWarden.Proofs.Uuid
/-!
# Passwords and their hashes

A password is accepted with the hash that was made of it and written down. What has to be shown is that the written
hash is read as it was meant: its fields are told apart by dollar signs, which stand in none of them, the costs are
read as they are, and salt and digest have lengths that a reader takes.
-/

namespace SessionWarden

/-! ### Lengths of digests -/

namespace Digest.Blake2b

theorem length_compress {chain : List UInt64} (h : chain.length = 8) (block : Bytes) (count : Nat) (isLast : Bool) :
    (compress chain block count isLast).length = 8 := by
  simp only [compress, List.length_zipWith, h, List.length_append, Row.toList, List.length_cons, List.length_nil]
  rfl

theorem length_absorb (fuel : Nat) {chain : List UInt64} (h : chain.length = 8) (count : Nat) (message : Bytes) :
    (absorb fuel chain count message).length = 8 := by
  induction fuel generalizing chain count message with
  | zero => exact h
  | succ fuel ih =>
    rw [absorb]
    split
    · exact length_compress h _ _ _
    · exact ih (length_compress h _ _ _) _ _

theorem length_words (words : List UInt64) :
    (words.flatMap fun w => Bytes.ofNatLE 8 w.toNat).length = 8 * words.length := by
  induction words with
  | nil => rfl
  | cons w words ih =>
    rw [List.flatMap_cons, List.length_append, Bytes.length_ofNatLE, ih, List.length_cons]
    omega

theorem length_hash {length : Nat} (h : length ≤ 64) (message : Bytes) : (hash length message).length = length := by
  have hchain : ((initial.headD 0 ^^^ 0x01010000 ^^^ UInt64.ofNat length) :: initial.tail).length = 8 := rfl
  have hwords := length_absorb (message.length + 1) hchain 0 message
  have hhash : hash length message = ((absorb (message.length + 1)
      ((initial.headD 0 ^^^ 0x01010000 ^^^ UInt64.ofNat length) :: initial.tail) 0 message).flatMap
        fun w => Bytes.ofNatLE 8 w.toNat).take length := rfl
  rw [hhash, List.length_take, length_words, hwords]
  omega

end Digest.Blake2b

theorem Digest.Argon2.length_hash (l : Layout) {length : Nat} (h : length ≤ 64) (password salt associated : Bytes) :
    (hash l length password salt associated).length = length := by
  rw [hash, longHash, expand, if_pos h]
  exact Blake2b.length_hash h _

/-! ### Lengths of base 64 texts -/

namespace Base64

theorem standardBare_distinct : standardBare.Distinct := by
  unfold Variant.Distinct
  decide

theorem length_sixes (b : Bytes) : (sixes b).length = (4 * b.length + 2) / 3 := by
  induction b using sixes.induct with
  | case1 a b c rest ih =>
    simp only [sixes, List.length_cons, ih]
    omega
  | case2 a b => simp only [sixes, List.length_cons, List.length_nil]
  | case3 a => simp only [sixes, List.length_cons, List.length_nil]
  | case4 => rfl

theorem length_standardBare (b : Bytes) : (standardBare.encodeChars b).length = (4 * b.length + 2) / 3 := by
  rw [encodeChars_eq rfl, List.length_map, length_sixes]

theorem utf8ByteSize_standardBare (b : Bytes) :
    (String.ofList (standardBare.encodeChars b)).utf8ByteSize = (4 * b.length + 2) / 3 := by
  have hsize := forall_mem_encodeChars (v := standardBare) rfl (P := fun c => c.utf8Size = 1) (by decide) b
  rw [Uuid.utf8ByteSize_ofList hsize, length_standardBare]

end Base64

/-! ### Reading a written hash -/

namespace PasswordHash

open Base64 (standardBare)

theorem ok_bind {ε α β : Type} (a : α) (f : α → Except ε β) : (Except.ok a >>= f) = f a := rfl

theorem readEncoded_encodeChars {most : Nat} {b : Bytes} (h : b.length ≤ most) :
    readEncoded most (standardBare.encodeChars b) = .ok b := by
  have hsize := Base64.utf8ByteSize_standardBare b
  have hread : standardBare.decodeChars (standardBare.encodeChars b) = some b :=
    (Base64.decodeChars_eq_some_iff rfl Base64.standardBare_distinct).mpr rfl
  rw [readEncoded, hsize, if_neg (by omega), hread]

theorem readSalt_encodeChars {b : Bytes} (hleast : 3 ≤ b.length) (hmost : b.length ≤ 48) :
    readSalt (standardBare.encodeChars b) = .ok (standardBare.encode b) := by
  have hsize := Base64.utf8ByteSize_standardBare b
  have hvalue : ((standardBare.encodeChars b).find? fun c => !isValueChar c) = none := by
    rw [List.find?_eq_none]
    intro c hc
    have hchar := Base64.forall_mem_encodeChars (v := standardBare) rfl (P := fun c => isValueChar c = true) (by decide)
      b c hc
    rw [hchar]
    decide
  rw [readSalt, hsize, if_neg (by omega), if_neg (by omega), readValue, hsize, if_neg (by omega), hvalue]
  rfl

theorem readHash_encodeChars {b : Bytes} (hleast : 10 ≤ b.length) (hmost : b.length ≤ 64) :
    readHash (standardBare.encodeChars b) = .ok b := by
  rw [readHash, readEncoded_encodeChars hmost]
  show (if b.length < leastHashLength then _ else _) = _
  rw [if_neg (by simp only [leastHashLength]; omega)]
  rfl

end PasswordHash

/-! ### A new hash -/

namespace Password

open PasswordHash (ok_bind)

variable {salt : Bytes} {password : String}

def digest (salt : Bytes) (password : String) : Bytes :=
  Digest.Argon2.hash layout 32 (Bytes.ofString password) salt []

theorem toList_toText_hash (salt : Bytes) (password : String) : (hash salt password).toText.toList =
    ['$'].intercalate [[], "argon2id".toList, "v=19".toList, "m=19456,t=2,p=1".toList,
      Base64.standardBare.encodeChars salt, Base64.standardBare.encodeChars (digest salt password)] := by
  have hparameters : ",".intercalate
      ["m" ++ "=" ++ toString 19456, "t" ++ "=" ++ toString 2, "p" ++ "=" ++ toString 1] = "m=19456,t=2,p=1" := by
    decide +kernel
  have hversion : "v=" ++ toString layout.version.number = "v=19" := by decide +kernel
  have hfields : (hash salt password).toText = String.join ["$argon2id", "$v=19", "$m=19456,t=2,p=1",
      "$" ++ Base64.standardBare.encode salt, "$" ++ Base64.standardBare.encode (digest salt password)] := by
    show String.join ["$argon2id", "$" ++ ("v=" ++ toString layout.version.number), "$" ++ ",".intercalate
      ["m" ++ "=" ++ toString 19456, "t" ++ "=" ++ toString 2, "p" ++ "=" ++ toString 1], _, _] = _
    rw [hversion, hparameters]
    rfl
  rw [hfields]
  simp [String.join, Base64.Variant.encode]

theorem splitOn_toText_hash (salt : Bytes) (password : String) : (hash salt password).toText.toList.splitOn '$' =
    [[], "argon2id".toList, "v=19".toList, "m=19456,t=2,p=1".toList,
      Base64.standardBare.encodeChars salt, Base64.standardBare.encodeChars (digest salt password)] := by
  rw [toList_toText_hash]
  have hencoded : ∀ b, '$' ∉ Base64.standardBare.encodeChars b := fun b hmem =>
    Base64.forall_mem_encodeChars (v := Base64.standardBare) rfl (P := (· ≠ '$')) (by decide) b '$' hmem rfl
  refine List.splitOn_intercalate '$' ?_ (List.cons_ne_nil _ _)
  simp only [List.forall_mem_cons, hencoded, not_false_eq_true, List.not_mem_nil, false_imp_iff, implies_true, and_true]
  decide

theorem takeVersion_v19 (rest : List (List Char)) :
    PasswordHash.takeVersion ("v=19".toList :: rest) = .ok (some 19, rest) := by
  have hvalue : PasswordHash.readValue ['1', '9'] = .ok "19" := by decide +kernel
  have hnumber : PasswordHash.readDecimal "19" = .ok 19 := by decide +kernel
  have hdigits : "v=19".toList = ['v', '=', '1', '9'] := by decide +kernel
  rw [hdigits, PasswordHash.takeVersion, if_neg (by decide), hvalue, Except.mapError, ok_bind, hnumber, ok_bind]
  rfl

theorem takeParameters_layout (rest : List (List Char)) :
    PasswordHash.takeParameters ("m=19456,t=2,p=1".toList :: rest) =
      .ok ([("m", "19456"), ("t", "2"), ("p", "1")], rest) := by
  have hread : PasswordHash.readParameters "m=19456,t=2,p=1".toList =
      .ok [("m", "19456"), ("t", "2"), ("p", "1")] := by decide +kernel
  rw [PasswordHash.takeParameters, if_pos (by decide), hread]
  rfl

theorem hash_eq (salt : Bytes) (password : String) : hash salt password =
    ⟨"argon2id", some 19, [("m", "19456"), ("t", "2"), ("p", "1")], some (Base64.standardBare.encode salt),
      some (digest salt password)⟩ := by
  have hparameters : [("m", toString layout.costs.memory), ("t", toString layout.costs.passes),
      ("p", toString layout.costs.lanes)] = [("m", "19456"), ("t", "2"), ("p", "1")] := by decide +kernel
  rw [hash, hparameters]
  rfl

theorem parse_toText_hash (hleast : 3 ≤ salt.length) (hmost : salt.length ≤ 48) :
    PasswordHash.parse (hash salt password).toText = .ok (hash salt password) := by
  have hdigest : (digest salt password).length = 32 := Digest.Argon2.length_hash layout (by decide) _ _ _
  have hname : PasswordHash.readName "argon2id".toList = .ok "argon2id" := by decide +kernel
  have hsalt := PasswordHash.readSalt_encodeChars hleast hmost
  have hhash : PasswordHash.readHash (Base64.standardBare.encodeChars (digest salt password)) = _ :=
    PasswordHash.readHash_encodeChars (by omega) (by omega)
  rw [PasswordHash.parse, splitOn_toText_hash, hash_eq]
  dsimp only
  rw [hname, ok_bind, takeVersion_v19, ok_bind, takeParameters_layout, ok_bind]
  dsimp only
  rw [hsalt, ok_bind, hhash, ok_bind]
  rfl

theorem isOf_hash (hleast : 8 ≤ salt.length) (hmost : salt.length ≤ 48) :
    isOf (hash salt password) (Bytes.ofString password) = .ok true := by
  have hdigest : (digest salt password).length = 32 := Digest.Argon2.length_hash layout (by decide) _ _ _
  have husage : [("m", "19456"), ("t", "2"), ("p", "1")].foldlM Usage.set defaultUsage = .ok defaultUsage := by
    rfl
  have hcosts : defaultUsage.costs = .ok ⟨19456, 2, 1⟩ := by rfl
  have hsalt : PasswordHash.readEncoded 64 (Base64.standardBare.encode salt).toList = .ok salt := by
    rw [Base64.Variant.encode, String.toList_ofList]
    exact PasswordHash.readEncoded_encodeChars (by omega)
  have hrehash : rehash (hash salt password) (Base64.standardBare.encode salt) 32 (Bytes.ofString password) =
      .ok (digest salt password) := by
    have hvariant : variant "argon2id" = .ok .id := rfl
    have hversion : version (some 19) = .ok .v19 := rfl
    rw [hash_eq, rehash, husage, ok_bind, hcosts, ok_bind, hvariant, ok_bind, hversion, ok_bind, hsalt, ok_bind,
      if_neg (by omega)]
    rfl
  rw [hash_eq] at hrehash ⊢
  rw [isOf]
  dsimp only
  rw [hdigest, hrehash, ok_bind, beq_self_eq_true]
  rfl

theorem verify_hash (hleast : 8 ≤ salt.length) (hmost : salt.length ≤ 48) :
    verify password (hash salt password).toText = .ok true := by
  rw [verify, parse_toText_hash (by omega) hmost]
  dsimp only
  rw [isOf_hash hleast hmost]

end Password

end SessionWarden
