import Zngtcp2.Lib.Seal
import Zngtcp2.Pkt.Conv

namespace Zngtcp2.Token

open Pkt (Bytes putUintbe getUintbe)
open Lib.Seal (Suite)

def minCidlen : Nat := 1

def maxCidlen : Nat := 20

/-- `ngtcp2_cid`; the array is not longer than `maxCidlen`. -/
@[ext]
structure Cid where
  data : Bytes
  datalen_le : data.length ≤ maxCidlen
  deriving DecidableEq

/-- `ngtcp2_cid_init`, whose assertion is the hypothesis. -/
def Cid.init (data : Bytes) {datalen : Nat} (h : datalen ≤ maxCidlen) : Cid where
  data := data.take datalen
  datalen_le := (List.length_take_le datalen data).trans h

/-- `NGTCP2_AF_INET` and `NGTCP2_AF_INET6`, which the platform defines, as `sa_family` lies in memory. -/
structure Families where
  inet : Vector UInt8 2
  inet6 : Vector UInt8 2
  ne : inet ≠ inet6

/-- A `sockaddr_in` or a `sockaddr_in6` with the fields as they lie in memory. -/
inductive Sockaddr
  | in4 (port : Vector UInt8 2) (addr : Vector UInt8 4) (zero : Vector UInt8 8)
  | in6 (port : Vector UInt8 2) (flowinfo : Vector UInt8 4) (addr : Vector UInt8 16) (scopeId : Vector UInt8 4)
  deriving DecidableEq

def sockaddrInSize : Nat := 16

def sockaddrIn6Size : Nat := 28

def sockaddrUnionSize : Nat := 28

def Sockaddr.bytes (af : Families) : Sockaddr → Bytes
  | .in4 port addr zero => af.inet.toList ++ port.toList ++ addr.toList ++ zero.toList
  | .in6 port flowinfo addr scopeId =>
      af.inet6.toList ++ port.toList ++ flowinfo.toList ++ addr.toList ++ scopeId.toList

/-- The address without the port. -/
def Sockaddr.ip : Sockaddr → Vector UInt8 4 ⊕ Vector UInt8 16
  | .in4 _ addr _ => .inl addr
  | .in6 _ _ addr _ => .inr addr

def randDatalen : Nat := 16

def aeadOverhead : Nat := 16

def tokenMagicRetry : UInt8 := 0xB6

def tokenMagicRetry2 : UInt8 := 0xB7

def tokenMagicRegular : UInt8 := 0x36

def maxRetryTokenlen : Nat := 1 + 1 + maxCidlen + 8 + aeadOverhead + randDatalen

def maxRetryTokenlen2 : Nat := 1 + sockaddrUnionSize + 1 + maxCidlen + 8 + aeadOverhead + randDatalen

def maxRegularTokenlen : Nat := 1 + 8 + aeadOverhead + randDatalen

def maxRegularTokenDatalen : Nat := 256

def maxRegularTokenPlaintextlen : Nat := 8 + maxRegularTokenDatalen

/-- The characters of a string literal without the terminating zero. -/
def literal (s : String) : Bytes :=
  s.toList.map fun c => UInt8.ofNat c.toNat

def retryTokenInfo : Bytes := literal "retry_token"

def retryTokenInfo2 : Bytes := literal "retry_token2"

def regularTokenInfo : Bytes := literal "regular_token"

/-- `NGTCP2_CRYPTO_ERR_UNREADABLE_TOKEN` and the other errors of a verifier; `fail` is -1. -/
inductive Err
  | fail
  | unreadableToken
  | verifyToken
  | internal
  | assertion
  deriving DecidableEq

section Keys

variable {Prk Okm Ctx : Type} (s : Suite UInt8 Prk Okm Ctx)

/-- `crypto_derive_token_key`: the key and the IV. -/
def deriveTokenKey (secret salt info : Bytes) : Option (Okm × Okm) := do
  let intsecret ← s.extract secret salt
  let key ← s.expand intsecret 16 (info ++ literal " key")
  let iv ← s.expand intsecret 12 (info ++ literal " iv")
  some (key, iv)

/-- What the generators do after they have written the plaintext and the additional data. -/
def sealToken (magic : UInt8) (info secret aad plaintext : Bytes) (randData : Vector UInt8 16) : Option Bytes := do
  let (key, iv) ← deriveTokenKey s secret randData.toList info
  let ctx ← s.encryptInit key
  let ciphertext ← s.encrypt ctx iv aad plaintext
  some (magic :: ciphertext ++ randData.toList)

def randData (token : Bytes) : Bytes :=
  token.drop (token.length - randDatalen)

def ciphertext (token : Bytes) : Bytes :=
  (token.drop 1).take (token.length - 1 - randDatalen)

/-- What the verifiers do after they have checked the length and the first byte. -/
def unsealToken (info secret aad token : Bytes) : Except Err Bytes :=
  match deriveTokenKey s secret (randData token) info with
  | none => .error .internal
  | some (key, iv) =>
      match s.decryptInit key with
      | none => .error .internal
      | some ctx =>
          match s.decrypt ctx iv aad (ciphertext token) with
          | none => .error .unreadableToken
          | some plaintext => .ok plaintext

end Keys

/-- `crypto_token_expired` -/
def tokenExpired (genTs timeout ts : UInt64) : Bool :=
  timeout ≤ ts ∧ genTs ≤ ts - timeout

def putTstamp (ts : UInt64) : Bytes :=
  putUintbe 8 ts.toNat

def getTstamp (p : Bytes) : UInt64 :=
  UInt64.ofNat (getUintbe (p.take 8))

/-- A connection ID with its length in front, in an array of full size. -/
def putCid (cid : Cid) : Bytes :=
  UInt8.ofNat cid.data.length :: cid.data ++ List.replicate (maxCidlen - cid.data.length) 0

section Retry

variable {Prk Okm Ctx : Type} (af : Families) (s : Suite UInt8 Prk Okm Ctx)

def retryTokenAad (version : UInt32) (sa : Sockaddr) (retryScid : Cid) : Bytes :=
  putUintbe 4 version.toNat ++ sa.bytes af ++ retryScid.data

def generateRetryToken (secret : Bytes) (version : UInt32) (remoteAddr : Sockaddr) (retryScid odcid : Cid) (ts : UInt64)
    (randData : Vector UInt8 16) : Option Bytes :=
  sealToken s tokenMagicRetry retryTokenInfo secret (retryTokenAad af version remoteAddr retryScid)
    (putCid odcid ++ putTstamp ts) randData

/-- The end of the two verifiers of Retry tokens: the connection ID and the time of a plaintext, with the error of
the caller. -/
def readRetryPlaintext (e : Err) (plaintext : Bytes) (timeout ts : UInt64) : Except Err Cid :=
  let cil := (plaintext.getD 0 0).toNat
  if h : cil ≠ 0 ∧ (cil < minCidlen ∨ maxCidlen < cil) then .error e
  else if tokenExpired (getTstamp (plaintext.drop (1 + maxCidlen))) timeout ts then .error e
  else
    have hcil : cil ≤ maxCidlen := by
      rw [maxCidlen] at h ⊢
      omega
    .ok (Cid.init (plaintext.drop 1) hcil)

def verifyRetryToken (token secret : Bytes) (version : UInt32) (remoteAddr : Sockaddr) (dcid : Cid)
    (timeout ts : UInt64) : Except Err Cid :=
  if token.length ≠ maxRetryTokenlen ∨ token.getD 0 0 ≠ tokenMagicRetry then .error .fail
  else
    match unsealToken s retryTokenInfo secret (retryTokenAad af version remoteAddr dcid) token with
    | .error _ => .error .fail
    | .ok plaintext => readRetryPlaintext .fail plaintext timeout ts

def retryTokenAad2 (version : UInt32) (retryScid : Cid) : Bytes :=
  putUintbe 4 version.toNat ++ retryScid.data

def generateRetryToken2 (secret : Bytes) (version : UInt32) (remoteAddr : Sockaddr) (retryScid odcid : Cid)
    (ts : UInt64) (randData : Vector UInt8 16) : Option Bytes :=
  let addr := remoteAddr.bytes af
  sealToken s tokenMagicRetry2 retryTokenInfo2 secret (retryTokenAad2 version retryScid)
    (addr ++ List.replicate (sockaddrUnionSize - addr.length) 0 ++ putCid odcid ++ putTstamp ts) randData

/-- The length that belongs to the family of an address. -/
def addrlen (addr : Bytes) : Option Nat :=
  if addr.take 2 = af.inet.toList then some sockaddrInSize
  else if addr.take 2 = af.inet6.toList then some sockaddrIn6Size
  else none

def verifyRetryToken2 (token secret : Bytes) (version : UInt32) (remoteAddr : Sockaddr) (dcid : Cid)
    (timeout ts : UInt64) : Except Err Cid :=
  if token.length ≠ maxRetryTokenlen2 ∨ token.getD 0 0 ≠ tokenMagicRetry2 then .error .unreadableToken
  else
    match unsealToken s retryTokenInfo2 secret (retryTokenAad2 version dcid) token with
    | .error e => .error e
    | .ok plaintext =>
        let addr := plaintext.take sockaddrUnionSize
        match addrlen af addr with
        | none => .error .verifyToken
        | some addrlen =>
            if addrlen ≠ (remoteAddr.bytes af).length ∨ addr.take addrlen ≠ remoteAddr.bytes af then .error .verifyToken
            else readRetryPlaintext .verifyToken (plaintext.drop sockaddrUnionSize) timeout ts

end Retry

section Regular

variable {Prk Okm Ctx : Type} (s : Suite UInt8 Prk Okm Ctx)

def regularTokenAad : Sockaddr → Bytes
  | .in4 _ addr _ => addr.toList
  | .in6 _ _ addr _ => addr.toList

/-- `crypto_generate_regular_token` -/
def cryptoGenerateRegularToken (secret : Bytes) (remoteAddr : Sockaddr) (data : Bytes) (ts : UInt64)
    (randData : Vector UInt8 16) : Option Bytes :=
  if maxRegularTokenDatalen < data.length then none
  else sealToken s tokenMagicRegular regularTokenInfo secret (regularTokenAad remoteAddr) (putTstamp ts ++ data) randData

/-- `crypto_verify_regular_token`, which hands over no data when the buffer is too small. -/
def cryptoVerifyRegularToken (maxDatalen : Nat) (token secret : Bytes) (remoteAddr : Sockaddr)
    (timeout ts : UInt64) : Except Err Bytes :=
  if token.length < maxRegularTokenlen ∨ token.getD 0 0 ≠ tokenMagicRegular then .error .unreadableToken
  else if maxRegularTokenPlaintextlen + aeadOverhead < (ciphertext token).length then .error .unreadableToken
  else
    match unsealToken s regularTokenInfo secret (regularTokenAad remoteAddr) token with
    | .error e => .error e
    | .ok plaintext =>
        let datalen := (ciphertext token).length - aeadOverhead - 8
        if tokenExpired (getTstamp plaintext) timeout ts then .error .verifyToken
        else if maxDatalen = 0 then .ok []
        else if maxDatalen < datalen then .ok []
        else .ok ((plaintext.drop 8).take datalen)

def generateRegularToken (secret : Bytes) (remoteAddr : Sockaddr) (ts : UInt64) (randData : Vector UInt8 16) :
    Option Bytes :=
  cryptoGenerateRegularToken s secret remoteAddr [] ts randData

def verifyRegularToken (token secret : Bytes) (remoteAddr : Sockaddr) (timeout ts : UInt64) : Except Err Unit :=
  match cryptoVerifyRegularToken s 0 token secret remoteAddr timeout ts with
  | .error _ => .error .fail
  | .ok data => if data.length ≠ 0 then .error .assertion else .ok ()

def generateRegularToken2 (secret : Bytes) (remoteAddr : Sockaddr) (data : Bytes) (ts : UInt64)
    (randData : Vector UInt8 16) : Option Bytes :=
  cryptoGenerateRegularToken s secret remoteAddr data ts randData

def verifyRegularToken2 (maxDatalen : Nat) (token secret : Bytes) (remoteAddr : Sockaddr) (timeout ts : UInt64) :
    Except Err Bytes :=
  cryptoVerifyRegularToken s maxDatalen token secret remoteAddr timeout ts

end Regular

end Zngtcp2.Token
