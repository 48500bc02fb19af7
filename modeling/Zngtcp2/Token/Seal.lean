import Zngtcp2.Token.Model

namespace Zngtcp2.Token

open Pkt (Bytes putUintbe getUintbe putUintbe_length getUintbe_putUintbe)
open Lib.Seal (Suite)

section Sealing

variable {Prk Okm Ctx : Type} {s : Suite UInt8 Prk Okm Ctx}

theorem deriveTokenKey_eq_some {secret salt info : Bytes} {key iv : Okm} :
    deriveTokenKey s secret salt info = some (key, iv) ↔
      s.hkdf secret salt 16 (info ++ literal " key") = some key ∧
        s.hkdf secret salt 12 (info ++ literal " iv") = some iv := by
  rw [deriveTokenKey, Suite.hkdf, Suite.hkdf]
  cases s.extract secret salt with
  | none => exact ⟨fun h => (by cases h), fun h => (by cases h.1)⟩
  | some intsecret =>
      simp only [Option.bind_eq_bind, Option.bind_some, Option.bind_eq_some_iff, Option.some.injEq, Prod.mk.injEq]
      constructor
      · rintro ⟨key', hkey, iv', hiv, rfl, rfl⟩
        exact ⟨hkey, hiv⟩
      · rintro ⟨hkey, hiv⟩
        exact ⟨key, hkey, iv, hiv, rfl, rfl⟩

theorem randData_eq (magic : UInt8) (ct : Bytes) (rand : Vector UInt8 16) :
    randData (magic :: ct ++ rand.toList) = rand.toList := by
  have hlen : (magic :: ct ++ rand.toList).length - randDatalen = (magic :: ct).length := by
    rw [List.length_append, Vector.length_toList, randDatalen, Nat.add_sub_cancel]
  rw [randData, hlen, List.drop_left]

theorem ciphertext_eq (magic : UInt8) (ct : Bytes) (rand : Vector UInt8 16) :
    ciphertext (magic :: ct ++ rand.toList) = ct := by
  have hlen : (magic :: ct ++ rand.toList).length - 1 - randDatalen = ct.length := by
    rw [List.length_append, Vector.length_toList, randDatalen, List.length_cons]
    omega
  rw [ciphertext, hlen, List.cons_append, List.drop_one, List.tail_cons, List.take_left]

/-- A token consists of the first byte, the ciphertext and the random data. -/
theorem sealToken_eq_some {magic : UInt8} {info secret aad plaintext token : Bytes} {rand : Vector UInt8 16} :
    sealToken s magic info secret aad plaintext rand = some token ↔
      ∃ key iv ct, deriveTokenKey s secret rand.toList info = some (key, iv) ∧
        s.lock key iv aad plaintext = some ct ∧ token = magic :: ct ++ rand.toList := by
  rw [sealToken]
  simp only [Option.bind_eq_bind, Option.bind_eq_some_iff, Prod.exists, Suite.lock, Option.some.injEq]
  constructor
  · rintro ⟨key, iv, hkey, ctx, hctx, ct, hct, rfl⟩
    exact ⟨key, iv, ct, hkey, ⟨ctx, hctx, hct⟩, rfl⟩
  · rintro ⟨key, iv, ct, hkey, ⟨ctx, hctx, hct⟩, rfl⟩
    exact ⟨key, iv, hkey, ctx, hctx, ct, hct, rfl⟩

theorem unsealToken_eq_ok {info secret aad token plaintext : Bytes} :
    unsealToken s info secret aad token = .ok plaintext ↔
      ∃ key iv, deriveTokenKey s secret (randData token) info = some (key, iv) ∧
        s.unlock key iv aad (ciphertext token) = some plaintext := by
  rw [unsealToken]
  cases deriveTokenKey s secret (randData token) info with
  | none => exact ⟨fun h => (by cases h), fun ⟨_, _, h, _⟩ => (by cases h)⟩
  | some keys =>
      obtain ⟨key, iv⟩ := keys
      have hkeys : (∃ key' iv', some (key, iv) = some (key', iv') ∧
          s.unlock key' iv' aad (ciphertext token) = some plaintext) ↔
            s.unlock key iv aad (ciphertext token) = some plaintext := by
        constructor
        · rintro ⟨key', iv', heq, h⟩
          cases heq
          exact h
        · exact fun h => ⟨key, iv, rfl, h⟩
      rw [hkeys, Suite.unlock]
      dsimp only
      cases s.decryptInit key with
      | none => exact ⟨fun h => (by cases h), fun h => (by cases h)⟩
      | some ctx =>
          simp only [Option.bind_eq_bind, Option.bind_some]
          cases s.decrypt ctx iv aad (ciphertext token) with
          | none => exact ⟨fun h => (by cases h), fun h => (by cases h)⟩
          | some plaintext' => rw [Except.ok.injEq, Option.some.injEq]

variable {made : Set Bytes} (ideal : s.Ideal aeadOverhead made)

include ideal

theorem deriveTokenKey_total (secret salt info : Bytes) : ∃ key iv, deriveTokenKey s secret salt info = some (key, iv) := by
  obtain ⟨key, hkey⟩ := ideal.hkdf_total secret salt 16 (info ++ literal " key")
  obtain ⟨iv, hiv⟩ := ideal.hkdf_total secret salt 12 (info ++ literal " iv")
  exact ⟨key, iv, deriveTokenKey_eq_some.mpr ⟨hkey, hiv⟩⟩

theorem sealToken_total (magic : UInt8) (info secret aad plaintext : Bytes) (rand : Vector UInt8 16) :
    ∃ token, sealToken s magic info secret aad plaintext rand = some token := by
  obtain ⟨key, iv, hkeys⟩ := deriveTokenKey_total ideal secret rand.toList info
  obtain ⟨ct, hct⟩ := ideal.lock_total key iv aad plaintext
  exact ⟨_, sealToken_eq_some.mpr ⟨key, iv, ct, hkeys, hct, rfl⟩⟩

theorem sealToken_length {magic : UInt8} {info secret aad plaintext token : Bytes} {rand : Vector UInt8 16}
    (h : sealToken s magic info secret aad plaintext rand = some token) :
    token.length = 1 + plaintext.length + aeadOverhead + randDatalen ∧ token.getD 0 0 = magic ∧
      (ciphertext token).length = plaintext.length + aeadOverhead := by
  obtain ⟨key, iv, ct, -, hct, rfl⟩ := sealToken_eq_some.mp h
  have hlen := ideal.lock_length hct
  refine ⟨?_, rfl, by rw [ciphertext_eq, hlen]⟩
  rw [List.length_append, Vector.length_toList, List.length_cons, hlen, randDatalen]
  omega

/-- A token is opened with its own secret and additional data only. -/
theorem unsealToken_sealed {magic : UInt8} {info secret secret' aad aad' plaintext plaintext' token : Bytes}
    {rand : Vector UInt8 16} (h : sealToken s magic info secret aad plaintext rand = some token)
    (hmade : ciphertext token ∈ made) :
    unsealToken s info secret' aad' token = .ok plaintext' ↔ secret' = secret ∧ aad' = aad ∧ plaintext' = plaintext := by
  obtain ⟨key, iv, ct, hkeys, hct, rfl⟩ := sealToken_eq_some.mp h
  rw [ciphertext_eq] at hmade
  rw [unsealToken_eq_ok, randData_eq, ciphertext_eq]
  obtain ⟨key', iv', hkeys'⟩ := deriveTokenKey_total ideal secret' rand.toList info
  obtain ⟨hkey, hiv⟩ := deriveTokenKey_eq_some.mp hkeys
  obtain ⟨hkey', hiv'⟩ := deriveTokenKey_eq_some.mp hkeys'
  rw [← ideal.unlock_derived hkey hiv hkey' hiv' hct hmade]
  constructor
  · rintro ⟨key₁, iv₁, hkeys₁, hopen⟩
    cases hkeys'.symm.trans hkeys₁
    exact hopen
  · exact fun hopen => ⟨key', iv', hkeys', hopen⟩

theorem unsealToken_made {info secret aad plaintext token : Bytes}
    (h : unsealToken s info secret aad token = .ok plaintext) : ciphertext token ∈ made := by
  obtain ⟨key, iv, -, hopen⟩ := unsealToken_eq_ok.mp h
  exact (ideal.unlock_iff.mp hopen).1

end Sealing

section Injectivity

variable {af : Families}

theorem Sockaddr.length_bytes (af : Families) (sa : Sockaddr) :
    (sa.bytes af).length = match sa with | .in4 .. => sockaddrInSize | .in6 .. => sockaddrIn6Size := by
  cases sa with
  | in4 port addr zero => simp only [Sockaddr.bytes, List.length_append, Vector.length_toList, sockaddrInSize]
  | in6 port flowinfo addr scopeId =>
      simp only [Sockaddr.bytes, List.length_append, Vector.length_toList, sockaddrIn6Size]

theorem Sockaddr.length_bytes_le (af : Families) (sa : Sockaddr) : (sa.bytes af).length ≤ sockaddrUnionSize := by
  rw [Sockaddr.length_bytes]
  cases sa with
  | in4 port addr zero => exact Nat.le_of_ble_eq_true rfl
  | in6 port flowinfo addr scopeId => exact Nat.le_refl _

/-- The family in front of an address tells its length. -/
theorem addrlen_bytes (sa : Sockaddr) (rest : Bytes) :
    addrlen af (sa.bytes af ++ rest) = some (sa.bytes af).length := by
  rw [Sockaddr.length_bytes]
  cases sa with
  | in4 port addr zero =>
      rw [addrlen, Sockaddr.bytes, List.append_assoc, List.append_assoc, List.append_assoc,
        List.take_append_of_le_length (Nat.le_of_eq Vector.length_toList.symm),
        List.take_of_length_le (Nat.le_of_eq Vector.length_toList), if_pos rfl]
  | in6 port flowinfo addr scopeId =>
      have hne : ¬ af.inet6.toList = af.inet.toList := fun h => af.ne (Vector.toList_inj.mp h).symm
      rw [addrlen, Sockaddr.bytes, List.append_assoc, List.append_assoc, List.append_assoc, List.append_assoc,
        List.take_append_of_le_length (Nat.le_of_eq Vector.length_toList.symm),
        List.take_of_length_le (Nat.le_of_eq Vector.length_toList), if_neg hne, if_pos rfl]

theorem toList_append_inj {n : Nat} {u v : Vector UInt8 n} {p q : Bytes} (h : u.toList ++ p = v.toList ++ q) :
    u = v ∧ p = q := by
  obtain ⟨hhead, htail⟩ := List.append_inj h (Vector.length_toList.trans Vector.length_toList.symm)
  exact ⟨Vector.toList_inj.mp hhead, htail⟩

/-- No address is the beginning of another one. -/
theorem Sockaddr.bytes_append_inj {sa sa' : Sockaddr} {p q : Bytes} (h : sa.bytes af ++ p = sa'.bytes af ++ q) :
    sa = sa' ∧ p = q := by
  cases sa with
  | in4 port addr zero =>
      cases sa' with
      | in4 port' addr' zero' =>
          simp only [Sockaddr.bytes, List.append_assoc] at h
          obtain ⟨-, h₁⟩ := toList_append_inj h
          obtain ⟨hport, h₂⟩ := toList_append_inj h₁
          obtain ⟨haddr, h₃⟩ := toList_append_inj h₂
          obtain ⟨hzero, hrest⟩ := toList_append_inj h₃
          exact ⟨by rw [hport, haddr, hzero], hrest⟩
      | in6 port' flowinfo' addr' scopeId' =>
          simp only [Sockaddr.bytes, List.append_assoc] at h
          exact absurd (toList_append_inj h).1 af.ne
  | in6 port flowinfo addr scopeId =>
      cases sa' with
      | in4 port' addr' zero' =>
          simp only [Sockaddr.bytes, List.append_assoc] at h
          exact absurd (toList_append_inj h).1 af.ne.symm
      | in6 port' flowinfo' addr' scopeId' =>
          simp only [Sockaddr.bytes, List.append_assoc] at h
          obtain ⟨-, h₁⟩ := toList_append_inj h
          obtain ⟨hport, h₂⟩ := toList_append_inj h₁
          obtain ⟨hflowinfo, h₃⟩ := toList_append_inj h₂
          obtain ⟨haddr, h₄⟩ := toList_append_inj h₃
          obtain ⟨hscopeId, hrest⟩ := toList_append_inj h₄
          exact ⟨by rw [hport, hflowinfo, haddr, hscopeId], hrest⟩

theorem putVersion_append_inj {version version' : UInt32} {p q : Bytes}
    (h : putUintbe 4 version.toNat ++ p = putUintbe 4 version'.toNat ++ q) : version = version' ∧ p = q := by
  obtain ⟨hhead, htail⟩ := List.append_inj h ((putUintbe_length _ _).trans (putUintbe_length _ _).symm)
  have hread := congrArg getUintbe hhead
  have hlt : ∀ v : UInt32, v.toNat % 256 ^ 4 = v.toNat := fun v => Nat.mod_eq_of_lt v.toNat_lt
  rw [getUintbe_putUintbe, getUintbe_putUintbe, hlt, hlt] at hread
  exact ⟨UInt32.toNat_inj.mp hread, htail⟩

theorem retryTokenAad_inj {version version' : UInt32} {sa sa' : Sockaddr} {scid scid' : Cid} :
    retryTokenAad af version sa scid = retryTokenAad af version' sa' scid' ↔
      version = version' ∧ sa = sa' ∧ scid = scid' := by
  constructor
  · intro h
    rw [retryTokenAad, retryTokenAad, List.append_assoc, List.append_assoc] at h
    obtain ⟨hversion, h⟩ := putVersion_append_inj h
    obtain ⟨hsa, hscid⟩ := Sockaddr.bytes_append_inj h
    exact ⟨hversion, hsa, Cid.ext hscid⟩
  · rintro ⟨rfl, rfl, rfl⟩
    rfl

theorem retryTokenAad2_inj {version version' : UInt32} {scid scid' : Cid} :
    retryTokenAad2 version scid = retryTokenAad2 version' scid' ↔ version = version' ∧ scid = scid' := by
  constructor
  · intro h
    obtain ⟨hversion, hscid⟩ := putVersion_append_inj h
    exact ⟨hversion, Cid.ext hscid⟩
  · rintro ⟨rfl, rfl⟩
    rfl

/-- The additional data of regular tokens tells IPv4 and IPv6 addresses apart by its length. -/
theorem regularTokenAad_inj {sa sa' : Sockaddr} : regularTokenAad sa = regularTokenAad sa' ↔ sa.ip = sa'.ip := by
  cases sa with
  | in4 port addr zero =>
      cases sa' with
      | in4 port' addr' zero' => exact Vector.toList_inj.trans Sum.inl_injective.eq_iff.symm
      | in6 port' flowinfo' addr' scopeId' =>
          constructor
          · intro h
            have hlen : 4 = 16 := (Vector.length_toList.symm.trans (congrArg List.length h)).trans Vector.length_toList
            exact absurd hlen (Nat.ne_of_beq_eq_false rfl)
          · exact fun h => absurd h Sum.inl_ne_inr
  | in6 port flowinfo addr scopeId =>
      cases sa' with
      | in4 port' addr' zero' =>
          constructor
          · intro h
            have hlen : 16 = 4 := (Vector.length_toList.symm.trans (congrArg List.length h)).trans Vector.length_toList
            exact absurd hlen (Nat.ne_of_beq_eq_false rfl)
          · exact fun h => absurd h Sum.inr_ne_inl
      | in6 port' flowinfo' addr' scopeId' => exact Vector.toList_inj.trans Sum.inr_injective.eq_iff.symm

end Injectivity

section Plaintexts

theorem getTstamp_putTstamp (ts : UInt64) (rest : Bytes) : getTstamp (putTstamp ts ++ rest) = ts := by
  have hlen : (putTstamp ts).length = 8 := putUintbe_length _ _
  have hlt : ts.toNat % 256 ^ 8 = ts.toNat := Nat.mod_eq_of_lt ts.toNat_lt
  rw [getTstamp, List.take_append_of_le_length (Nat.le_of_eq hlen.symm), List.take_of_length_le (Nat.le_of_eq hlen),
    putTstamp, getUintbe_putUintbe, hlt, UInt64.ofNat_toNat]

theorem putCid_length (cid : Cid) : (putCid cid).length = 1 + maxCidlen := by
  have hle := cid.datalen_le
  rw [putCid, List.length_append, List.length_cons, List.length_replicate]
  omega

/-- The connection ID is read back unless the token has expired. -/
theorem readRetryPlaintext_eq_ok (e : Err) (cid out : Cid) (genTs timeout ts : UInt64) :
    readRetryPlaintext e (putCid cid ++ putTstamp genTs) timeout ts = .ok out ↔
      out = cid ∧ tokenExpired genTs timeout ts = false := by
  have hle := cid.datalen_le
  have hhead : (putCid cid ++ putTstamp genTs).getD 0 0 = UInt8.ofNat cid.data.length := rfl
  have hcil : (UInt8.ofNat cid.data.length).toNat = cid.data.length := by
    rw [UInt8.toNat_ofNat']
    rw [maxCidlen] at hle
    omega
  have htstamp : getTstamp ((putCid cid ++ putTstamp genTs).drop (1 + maxCidlen)) = genTs := by
    rw [List.drop_left' (putCid_length cid), ← List.append_nil (putTstamp genTs), getTstamp_putTstamp]
  have hdata : (((putCid cid ++ putTstamp genTs).drop 1).take (UInt8.ofNat cid.data.length).toNat) = cid.data := by
    rw [hcil, putCid, List.cons_append, List.cons_append, List.drop_one, List.tail_cons, List.append_assoc, List.take_left]
  have hvalid : ¬ ((UInt8.ofNat cid.data.length).toNat ≠ 0 ∧ ((UInt8.ofNat cid.data.length).toNat < minCidlen ∨
      maxCidlen < (UInt8.ofNat cid.data.length).toNat)) := by
    rw [hcil, minCidlen]
    omega
  rw [readRetryPlaintext]
  simp only [hhead, htstamp]
  rw [dif_neg hvalid]
  cases tokenExpired genTs timeout ts with
  | true => exact ⟨fun h => (by cases h), fun h => absurd h.2.symm Bool.false_ne_true⟩
  | false =>
      rw [if_neg Bool.false_ne_true, Except.ok.injEq]
      constructor
      · rintro rfl
        exact ⟨Cid.ext hdata, rfl⟩
      · rintro ⟨rfl, -⟩
        exact Cid.ext hdata

end Plaintexts

end Zngtcp2.Token
