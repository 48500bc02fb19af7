import Zngtcp2.Token.Seal

namespace Zngtcp2.Token

open Pkt (Bytes)
open Lib.Seal (Suite)

variable {Prk Okm Ctx : Type}

/-- Retry tokens are verified by those for whom they have been generated, until they expire. -/
structure RetryBinds (made : Set Bytes)
    (generate : Bytes → UInt32 → Sockaddr → Cid → Cid → UInt64 → Vector UInt8 16 → Option Bytes)
    (verify : Bytes → Bytes → UInt32 → Sockaddr → Cid → UInt64 → UInt64 → Except Err Cid) : Prop where
  generates : ∀ secret version addr scid odcid t₀ rand, ∃ token,
    generate secret version addr scid odcid t₀ rand = some token
  verifies : ∀ {secret version addr scid odcid t₀ rand token},
    generate secret version addr scid odcid t₀ rand = some token → ciphertext token ∈ made →
    ∀ {secret' version' addr' dcid timeout t out}, verify token secret' version' addr' dcid timeout t = .ok out ↔
      out = odcid ∧ secret' = secret ∧ version' = version ∧ addr' = addr ∧ dcid = scid ∧
        ¬ (timeout ≤ t ∧ t₀ ≤ t - timeout)

/-- The same for regular tokens with some data, which are bound to the address without the port. -/
structure RegularBinds (made : Set Bytes) (s : Suite UInt8 Prk Okm Ctx) (data : Bytes)
    (generate : Bytes → Sockaddr → UInt64 → Vector UInt8 16 → Option Bytes) : Prop where
  generates : ∀ secret addr t₀ rand, ∃ token, generate secret addr t₀ rand = some token
  verifies : ∀ {secret addr t₀ rand token}, generate secret addr t₀ rand = some token → ciphertext token ∈ made →
    ∀ {secret' addr' timeout t out}, verifyRegularToken s token secret' addr' timeout t = .ok out ↔
      secret' = secret ∧ addr'.ip = addr.ip ∧ ¬ (timeout ≤ t ∧ t₀ ≤ t - timeout)
  verifies2 : ∀ {secret addr t₀ rand token}, generate secret addr t₀ rand = some token → ciphertext token ∈ made →
    ∀ {maxDatalen secret' addr' timeout t out},
      verifyRegularToken2 s maxDatalen token secret' addr' timeout t = .ok out ↔
        out = (if data.length ≤ maxDatalen then data else []) ∧ secret' = secret ∧ addr'.ip = addr.ip ∧
          ¬ (timeout ≤ t ∧ t₀ ≤ t - timeout)

def RejectedByRetry (verify : Bytes → Bytes → UInt32 → Sockaddr → Cid → UInt64 → UInt64 → Except Err Cid)
    (token : Bytes) : Prop :=
  ∀ secret version addr dcid timeout t out, verify token secret version addr dcid timeout t ≠ .ok out

def RejectedByRegular (s : Suite UInt8 Prk Okm Ctx) (token : Bytes) : Prop :=
  (∀ secret addr timeout t out, verifyRegularToken s token secret addr timeout t ≠ .ok out) ∧
    ∀ maxDatalen secret addr timeout t out, verifyRegularToken2 s maxDatalen token secret addr timeout t ≠ .ok out

/-- The verifiers accept the tokens of their kind, from those for whom they are, and no tokens of another kind. -/
structure TokensBind (made : Set Bytes) (af : Families) (s : Suite UInt8 Prk Okm Ctx) : Prop where
  retry : RetryBinds made (generateRetryToken af s) (verifyRetryToken af s)
  retry2 : RetryBinds made (generateRetryToken2 af s) (verifyRetryToken2 af s)
  regular : RegularBinds made s [] (generateRegularToken s)
  regular2 : ∀ {data}, data.length ≤ maxRegularTokenDatalen →
    RegularBinds made s data fun secret addr t₀ rand => generateRegularToken2 s secret addr data t₀ rand
  retry_apart : ∀ {secret version addr scid odcid t₀ rand token},
    generateRetryToken af s secret version addr scid odcid t₀ rand = some token →
      RejectedByRetry (verifyRetryToken2 af s) token ∧ RejectedByRegular s token
  retry2_apart : ∀ {secret version addr scid odcid t₀ rand token},
    generateRetryToken2 af s secret version addr scid odcid t₀ rand = some token →
      RejectedByRetry (verifyRetryToken af s) token ∧ RejectedByRegular s token
  regular_apart : ∀ {secret addr t₀ rand token}, generateRegularToken s secret addr t₀ rand = some token →
    RejectedByRetry (verifyRetryToken af s) token ∧ RejectedByRetry (verifyRetryToken2 af s) token
  regular2_apart : ∀ {secret addr data t₀ rand token}, generateRegularToken2 s secret addr data t₀ rand = some token →
    RejectedByRetry (verifyRetryToken af s) token ∧ RejectedByRetry (verifyRetryToken2 af s) token

theorem tokenExpired_eq_false {t₀ timeout t : UInt64} :
    tokenExpired t₀ timeout t = false ↔ ¬ (timeout ≤ t ∧ t₀ ≤ t - timeout) :=
  decide_eq_false_iff_not

section Apart

variable {af : Families} {s : Suite UInt8 Prk Okm Ctx} {token : Bytes}

theorem rejectedByRetry (h : token.getD 0 0 ≠ tokenMagicRetry) : RejectedByRetry (verifyRetryToken af s) token := by
  intro secret version addr dcid timeout t out hok
  rw [verifyRetryToken, if_pos (Or.inr h)] at hok
  cases hok

theorem rejectedByRetry2 (h : token.getD 0 0 ≠ tokenMagicRetry2) :
    RejectedByRetry (verifyRetryToken2 af s) token := by
  intro secret version addr dcid timeout t out hok
  rw [verifyRetryToken2, if_pos (Or.inr h)] at hok
  cases hok

theorem rejectedByRegular (h : token.getD 0 0 ≠ tokenMagicRegular) : RejectedByRegular s token := by
  constructor
  · intro secret addr timeout t out hok
    rw [verifyRegularToken, cryptoVerifyRegularToken, if_pos (Or.inr h)] at hok
    cases hok
  · intro maxDatalen secret addr timeout t out hok
    rw [verifyRegularToken2, cryptoVerifyRegularToken, if_pos (Or.inr h)] at hok
    cases hok

end Apart

section Binding

variable {af : Families} {s : Suite UInt8 Prk Okm Ctx} {made : Set Bytes} (ideal : s.Ideal aeadOverhead made)

include ideal

theorem retryBinds (af : Families) : RetryBinds made (generateRetryToken af s) (verifyRetryToken af s) where
  generates := fun secret version addr scid odcid t₀ rand => sealToken_total ideal _ _ _ _ _ _
  verifies := by
    intro secret version addr scid odcid t₀ rand token hgenerate hmade secret' version' addr' dcid timeout t out
    obtain ⟨hlen, hmagic, -⟩ := sealToken_length ideal hgenerate
    have hplaintext : (putCid odcid ++ putTstamp t₀).length = 1 + maxCidlen + 8 := by
      rw [List.length_append, putCid_length, putTstamp, Pkt.putUintbe_length]
    have hshape : ¬ (token.length ≠ maxRetryTokenlen ∨ token.getD 0 0 ≠ tokenMagicRetry) := by
      rw [hlen, hplaintext, hmagic]
      exact fun h => h.elim (fun hne => hne rfl) (fun hne => hne rfl)
    have hopen := fun plaintext => @unsealToken_sealed _ _ _ s made ideal tokenMagicRetry retryTokenInfo secret secret'
      (retryTokenAad af version addr scid) (retryTokenAad af version' addr' dcid) _ plaintext token rand hgenerate hmade
    rw [verifyRetryToken, if_neg hshape, ← tokenExpired_eq_false]
    cases hunseal : unsealToken s retryTokenInfo secret' (retryTokenAad af version' addr' dcid) token with
    | error e =>
        constructor
        · intro h
          cases h
        · rintro ⟨-, rfl, rfl, rfl, rfl, -⟩
          have hok := (hopen _).mpr ⟨rfl, rfl, rfl⟩
          rw [hunseal] at hok
          cases hok
    | ok plaintext =>
        obtain ⟨rfl, haad, rfl⟩ := (hopen plaintext).mp hunseal
        obtain ⟨rfl, rfl, rfl⟩ := retryTokenAad_inj.mp haad
        dsimp only
        rw [readRetryPlaintext_eq_ok]
        exact ⟨fun h => ⟨h.1, rfl, rfl, rfl, rfl, h.2⟩, fun h => ⟨h.1, h.2.2.2.2.2⟩⟩

theorem retryBinds2 (af : Families) : RetryBinds made (generateRetryToken2 af s) (verifyRetryToken2 af s) where
  generates := fun secret version addr scid odcid t₀ rand => sealToken_total ideal _ _ _ _ _ _
  verifies := by
    intro secret version addr scid odcid t₀ rand token hgenerate hmade secret' version' addr' dcid timeout t out
    obtain ⟨hlen, hmagic, -⟩ := sealToken_length ideal hgenerate
    have hle := Sockaddr.length_bytes_le af addr
    -- the address and the zeros behind it fill the union
    have hunion : (addr.bytes af ++ List.replicate (sockaddrUnionSize - (addr.bytes af).length) 0).length =
        sockaddrUnionSize := by
      rw [List.length_append, List.length_replicate, Nat.add_sub_cancel' hle]
    have hplaintext : (addr.bytes af ++ List.replicate (sockaddrUnionSize - (addr.bytes af).length) 0 ++ putCid odcid ++
        putTstamp t₀).length = sockaddrUnionSize + (1 + maxCidlen) + 8 := by
      rw [List.length_append, List.length_append, hunion, putCid_length, putTstamp, Pkt.putUintbe_length]
    have hshape : ¬ (token.length ≠ maxRetryTokenlen2 ∨ token.getD 0 0 ≠ tokenMagicRetry2) := by
      rw [hlen, hplaintext, hmagic]
      exact fun h => h.elim (fun hne => hne rfl) (fun hne => hne rfl)
    have hopen := fun plaintext => @unsealToken_sealed _ _ _ s made ideal tokenMagicRetry2 retryTokenInfo2 secret
      secret' (retryTokenAad2 version scid) (retryTokenAad2 version' dcid) _ plaintext token rand hgenerate hmade
    rw [verifyRetryToken2, if_neg hshape, ← tokenExpired_eq_false]
    cases hunseal : unsealToken s retryTokenInfo2 secret' (retryTokenAad2 version' dcid) token with
    | error e =>
        constructor
        · intro h
          cases h
        · rintro ⟨-, rfl, rfl, -, rfl, -⟩
          have hok := (hopen _).mpr ⟨rfl, rfl, rfl⟩
          rw [hunseal] at hok
          cases hok
    | ok plaintext =>
        obtain ⟨rfl, haad, rfl⟩ := (hopen plaintext).mp hunseal
        obtain ⟨rfl, rfl⟩ := retryTokenAad2_inj.mp haad
        dsimp only
        rw [List.append_assoc _ (putCid odcid), List.take_left' hunion, List.drop_left' hunion, addrlen_bytes]
        dsimp only
        rw [List.take_left]
        by_cases haddr : addr' = addr
        · subst haddr
          rw [if_neg (fun h => h.elim (fun hne => hne rfl) (fun hne => hne rfl)), readRetryPlaintext_eq_ok]
          exact ⟨fun h => ⟨h.1, rfl, rfl, rfl, rfl, h.2⟩, fun h => ⟨h.1, h.2.2.2.2.2⟩⟩
        · have hne : addr.bytes af ≠ addr'.bytes af := by
            intro heq
            have hnil : addr.bytes af ++ [] = addr'.bytes af ++ [] := by rw [heq]
            exact haddr (Sockaddr.bytes_append_inj hnil).1.symm
          rw [if_pos (Or.inr hne)]
          constructor
          · intro h
            cases h
          · exact fun h => absurd h.2.2.2.1 haddr

/-- The verifier of regular tokens, which knows the length of the data from the length of the ciphertext. -/
theorem cryptoVerifyRegularToken_eq_ok {secret secret' data token out : Bytes} {addr addr' : Sockaddr} {t₀ timeout t : UInt64}
    {rand : Vector UInt8 16} {maxDatalen : Nat}
    (hgenerate : cryptoGenerateRegularToken s secret addr data t₀ rand = some token) (hmade : ciphertext token ∈ made) :
    cryptoVerifyRegularToken s maxDatalen token secret' addr' timeout t = .ok out ↔
      out = (if data.length ≤ maxDatalen then data else []) ∧ secret' = secret ∧ addr'.ip = addr.ip ∧
        ¬ (timeout ≤ t ∧ t₀ ≤ t - timeout) := by
  by_cases hlong : maxRegularTokenDatalen < data.length
  · rw [cryptoGenerateRegularToken, if_pos hlong] at hgenerate
    cases hgenerate
  rw [cryptoGenerateRegularToken, if_neg hlong] at hgenerate
  obtain ⟨hlen, hmagic, hciphertext⟩ := sealToken_length ideal hgenerate
  have htstamp : (putTstamp t₀).length = 8 := Pkt.putUintbe_length _ _
  have hshape : ¬ (token.length < maxRegularTokenlen ∨ token.getD 0 0 ≠ tokenMagicRegular) := by
    rw [hlen, List.length_append, htstamp, hmagic, maxRegularTokenlen]
    refine fun h => h.elim (fun hlt => ?_) (fun hne => hne rfl)
    omega
  have hfits : ¬ maxRegularTokenPlaintextlen + aeadOverhead < (ciphertext token).length := by
    rw [hciphertext, List.length_append, htstamp, maxRegularTokenPlaintextlen]
    omega
  have hdatalen : (ciphertext token).length - aeadOverhead - 8 = data.length := by
    rw [hciphertext, List.length_append, htstamp, Nat.add_sub_cancel, Nat.add_sub_cancel_left]
  have hopen := fun plaintext => @unsealToken_sealed _ _ _ s made ideal tokenMagicRegular regularTokenInfo secret
    secret' (regularTokenAad addr) (regularTokenAad addr') _ plaintext token rand hgenerate hmade
  rw [cryptoVerifyRegularToken, if_neg hshape, if_neg hfits, ← tokenExpired_eq_false, hdatalen]
  cases hunseal : unsealToken s regularTokenInfo secret' (regularTokenAad addr') token with
  | error e =>
      constructor
      · intro h
        cases h
      · rintro ⟨-, rfl, hip, -⟩
        have hok := (hopen _).mpr ⟨rfl, regularTokenAad_inj.mpr hip, rfl⟩
        rw [hunseal] at hok
        cases hok
  | ok plaintext =>
      obtain ⟨rfl, haad, rfl⟩ := (hopen plaintext).mp hunseal
      have hip := regularTokenAad_inj.mp haad
      dsimp only
      rw [getTstamp_putTstamp, List.drop_left' htstamp, List.take_of_length_le (Nat.le_refl _)]
      cases tokenExpired t₀ timeout t with
      | true =>
          constructor
          · intro h
            cases h
          · exact fun h => absurd h.2.2.2.symm Bool.false_ne_true
      | false =>
          have hout : (if maxDatalen = 0 then (.ok [] : Except Err Bytes)
              else if maxDatalen < data.length then .ok [] else .ok data) =
                .ok (if data.length ≤ maxDatalen then data else []) := by
            by_cases hle : data.length ≤ maxDatalen
            · rw [if_pos hle, if_neg (Nat.not_lt.mpr hle)]
              by_cases hzero : maxDatalen = 0
              · rw [hzero] at hle
                rw [if_pos hzero, List.eq_nil_of_length_eq_zero (Nat.le_zero.mp hle)]
              · rw [if_neg hzero]
            · rw [if_neg hle, if_pos (Nat.not_le.mp hle), ite_self]
          rw [if_neg Bool.false_ne_true, hout, Except.ok.injEq]
          exact ⟨fun h => ⟨h.symm, rfl, hip, rfl⟩, fun h => h.1.symm⟩

theorem regularBinds {data : Bytes} (hdata : data.length ≤ maxRegularTokenDatalen) :
    RegularBinds made s data fun secret addr t₀ rand => cryptoGenerateRegularToken s secret addr data t₀ rand where
  generates := by
    intro secret addr t₀ rand
    rw [cryptoGenerateRegularToken, if_neg (Nat.not_lt.mpr hdata)]
    exact sealToken_total ideal _ _ _ _ _ _
  verifies := by
    intro secret addr t₀ rand token hgenerate hmade secret' addr' timeout t out
    have hverify := fun out => @cryptoVerifyRegularToken_eq_ok _ _ _ s made ideal secret secret' data token out addr addr'
      t₀ timeout t rand 0 hgenerate hmade
    have hempty : (if data.length ≤ 0 then data else []) = [] := by
      by_cases hle : data.length ≤ 0
      · rw [if_pos hle]
        exact List.length_eq_zero_iff.mp (Nat.le_zero.mp hle)
      · rw [if_neg hle]
    rw [hempty] at hverify
    rw [verifyRegularToken]
    cases hcase : cryptoVerifyRegularToken s 0 token secret' addr' timeout t with
    | error e =>
        constructor
        · intro h
          cases h
        · intro h
          have hok := (hverify []).mpr ⟨rfl, h⟩
          rw [hcase] at hok
          cases hok
    | ok data' =>
        obtain ⟨rfl, h⟩ := (hverify data').mp hcase
        exact ⟨fun _ => h, fun _ => rfl⟩
  verifies2 := fun hgenerate hmade => cryptoVerifyRegularToken_eq_ok ideal hgenerate hmade

theorem magic_of_regular {secret data token : Bytes} {addr : Sockaddr} {t₀ : UInt64} {rand : Vector UInt8 16}
    (h : cryptoGenerateRegularToken s secret addr data t₀ rand = some token) : token.getD 0 0 = tokenMagicRegular := by
  by_cases hlong : maxRegularTokenDatalen < data.length
  · rw [cryptoGenerateRegularToken, if_pos hlong] at h
    cases h
  · rw [cryptoGenerateRegularToken, if_neg hlong] at h
    exact (sealToken_length ideal h).2.1

theorem regular_apart {secret data token : Bytes} {addr : Sockaddr} {t₀ : UInt64} {rand : Vector UInt8 16}
    (h : cryptoGenerateRegularToken s secret addr data t₀ rand = some token) :
    RejectedByRetry (verifyRetryToken af s) token ∧ RejectedByRetry (verifyRetryToken2 af s) token := by
  have hmagic := magic_of_regular ideal h
  constructor
  · apply rejectedByRetry
    rw [hmagic]
    decide
  · apply rejectedByRetry2
    rw [hmagic]
    decide

/-- Over an ideal suite the tokens of every kind are bound to what they have been generated for. -/
theorem tokens_bind (af : Families) : TokensBind made af s where
  retry := retryBinds ideal af
  retry2 := retryBinds2 ideal af
  regular := regularBinds ideal (Nat.zero_le _)
  regular2 := fun hdata => regularBinds ideal hdata
  retry_apart := by
    intro secret version addr scid odcid t₀ rand token h
    obtain ⟨-, hmagic, -⟩ := sealToken_length ideal h
    constructor
    · apply rejectedByRetry2
      rw [hmagic]
      decide
    · apply rejectedByRegular
      rw [hmagic]
      decide
  retry2_apart := by
    intro secret version addr scid odcid t₀ rand token h
    obtain ⟨-, hmagic, -⟩ := sealToken_length ideal h
    constructor
    · apply rejectedByRetry
      rw [hmagic]
      decide
    · apply rejectedByRegular
      rw [hmagic]
      decide
  regular_apart := fun h => regular_apart ideal h
  regular2_apart := fun h => regular_apart ideal h

/-- No verifier accepts a token with a ciphertext that has not been made. -/
theorem verified_made {token secret : Bytes} {addr : Sockaddr} {timeout t : UInt64} :
    (∀ version dcid out, verifyRetryToken af s token secret version addr dcid timeout t = .ok out →
      ciphertext token ∈ made) ∧
    (∀ version dcid out, verifyRetryToken2 af s token secret version addr dcid timeout t = .ok out →
      ciphertext token ∈ made) ∧
    ∀ maxDatalen out, verifyRegularToken2 s maxDatalen token secret addr timeout t = .ok out →
      ciphertext token ∈ made := by
  refine ⟨fun version dcid out h => ?_, fun version dcid out h => ?_, fun maxDatalen out h => ?_⟩
  · rw [verifyRetryToken] at h
    by_cases hshape : token.length ≠ maxRetryTokenlen ∨ token.getD 0 0 ≠ tokenMagicRetry
    · rw [if_pos hshape] at h
      cases h
    · rw [if_neg hshape] at h
      cases hunseal : unsealToken s retryTokenInfo secret (retryTokenAad af version addr dcid) token with
      | error e =>
          rw [hunseal] at h
          cases h
      | ok plaintext => exact unsealToken_made ideal hunseal
  · rw [verifyRetryToken2] at h
    by_cases hshape : token.length ≠ maxRetryTokenlen2 ∨ token.getD 0 0 ≠ tokenMagicRetry2
    · rw [if_pos hshape] at h
      cases h
    · rw [if_neg hshape] at h
      cases hunseal : unsealToken s retryTokenInfo2 secret (retryTokenAad2 version dcid) token with
      | error e =>
          rw [hunseal] at h
          cases h
      | ok plaintext => exact unsealToken_made ideal hunseal
  · rw [verifyRegularToken2, cryptoVerifyRegularToken] at h
    by_cases hshape : token.length < maxRegularTokenlen ∨ token.getD 0 0 ≠ tokenMagicRegular
    · rw [if_pos hshape] at h
      cases h
    · rw [if_neg hshape] at h
      by_cases hlong : maxRegularTokenPlaintextlen + aeadOverhead < (ciphertext token).length
      · rw [if_pos hlong] at h
        cases h
      · rw [if_neg hlong] at h
        cases hunseal : unsealToken s regularTokenInfo secret (regularTokenAad addr) token with
        | error e =>
            rw [hunseal] at h
            cases h
        | ok plaintext => exact unsealToken_made ideal hunseal

end Binding

section Sample

/-- Keys that say what they are derived from. -/
abbrev SampleOkm : Type := Bytes × Bytes × Nat × Bytes

/-- One encryption with its key, nonce, additional data and plaintext. -/
abbrev Sealed : Type := SampleOkm × SampleOkm × Bytes × Bytes

def Sealed.ciphertext (made : Sealed) : Bytes :=
  made.2.2.2 ++ List.replicate aeadOverhead 1

/-- A suite that marks the ciphertext of the one encryption that is made. -/
def sampleSuite (made : Sealed) : Suite UInt8 (Bytes × Bytes) SampleOkm SampleOkm where
  extract secret salt := some (secret, salt)
  expand prk len info := some (prk.1, prk.2, len, info)
  encryptInit key := some key
  decryptInit key := some key
  encrypt key nonce aad plaintext :=
    some (plaintext ++ List.replicate aeadOverhead (if (key, nonce, aad, plaintext) = made then 1 else 0))
  decrypt key nonce aad ct :=
    if ct = made.ciphertext ∧ (key, nonce, aad, made.2.2.2) = made then some made.2.2.2 else none

theorem sampleSuite_lock {made : Sealed} {key nonce : SampleOkm} {aad plaintext : Bytes} :
    (sampleSuite made).lock key nonce aad plaintext = some made.ciphertext ↔ (key, nonce, aad, plaintext) = made := by
  change some (plaintext ++ List.replicate aeadOverhead (if (key, nonce, aad, plaintext) = made then 1 else 0)) =
    some (made.2.2.2 ++ List.replicate aeadOverhead 1) ↔ _
  rw [Option.some.injEq]
  constructor
  · intro h
    have htag := (List.append_inj' h (by rw [List.length_replicate, List.length_replicate])).2
    by_contra hne
    rw [if_neg hne] at htag
    exact absurd htag (by decide)
  · rintro rfl
    rw [if_pos rfl]

theorem sampleSuite_ideal (made : Sealed) : (sampleSuite made).Ideal aeadOverhead {made.ciphertext} where
  hkdf_total := fun secret salt len info => ⟨(secret, salt, len, info), rfl⟩
  hkdf_inj := by
    intro secret salt secret' salt' len info info' okm h h'
    cases h
    cases h'
    exact ⟨rfl, rfl, rfl⟩
  lock_total := fun key nonce aad plaintext => ⟨_, rfl⟩
  lock_length := by
    intro key nonce aad plaintext ct h
    cases h
    rw [List.length_append, List.length_replicate]
  lock_inj := by
    rintro key nonce aad plaintext key' nonce' aad' plaintext' ct rfl h h'
    cases (sampleSuite_lock.mp h).trans (sampleSuite_lock.mp h').symm
    exact ⟨rfl, rfl, rfl, rfl⟩
  unlock_iff := by
    intro key nonce aad plaintext ct
    change (if ct = made.ciphertext ∧ (key, nonce, aad, made.2.2.2) = made then some made.2.2.2 else none) =
      some plaintext ↔ ct = made.ciphertext ∧ _
    constructor
    · intro h
      by_cases hmade : ct = made.ciphertext ∧ (key, nonce, aad, made.2.2.2) = made
      · rw [if_pos hmade, Option.some.injEq] at h
        subst h
        rw [hmade.1]
        exact ⟨rfl, sampleSuite_lock.mpr hmade.2⟩
      · rw [if_neg hmade] at h
        cases h
    · rintro ⟨rfl, h⟩
      have hmade := sampleSuite_lock.mp h
      subst hmade
      rw [if_pos ⟨rfl, rfl⟩]
  decryptInit_total := fun key => ⟨key, rfl⟩

def sampleFamilies : Families where
  inet := #v[2, 0]
  inet6 := #v[10, 0]
  ne := by decide

def sampleAddr : Sockaddr :=
  .in4 #v[0, 80] #v[127, 0, 0, 2] (Vector.replicate 8 0)

def sampleRand : Vector UInt8 16 :=
  Vector.replicate 16 0

/-- The encryption of the data 7 at the time 0 under the secret 1. -/
def sampleSealed : Sealed :=
  (([1], sampleRand.toList, 16, regularTokenInfo ++ literal " key"),
    ([1], sampleRand.toList, 12, regularTokenInfo ++ literal " iv"), [127, 0, 0, 2], putTstamp 0 ++ [7])

theorem tokens_bind_sample :
    TokensBind {sampleSealed.ciphertext} sampleFamilies (sampleSuite sampleSealed) ∧
      ∃ token, generateRegularToken2 (sampleSuite sampleSealed) [1] sampleAddr [7] 0 sampleRand = some token ∧
        ciphertext token = sampleSealed.ciphertext :=
  ⟨tokens_bind (sampleSuite_ideal sampleSealed) sampleFamilies, _, rfl, by decide⟩

end Sample

end Zngtcp2.Token
