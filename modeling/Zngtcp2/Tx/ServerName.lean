import Zngtcp2.Lib.Run
import Zngtcp2.Pkt.Conv
import Zngtcp2.Pkt.Decode
import Zngtcp2.Tx.Crumble

namespace Zngtcp2.ServerName

open Crumble (Cursor findServerName)
open Lib.Run (bind_ok)
open Pkt (Bytes Slice getUintbe putUintbe putUintbe_length putUintbe_getUintbe getUintbe_lt)

/-- How a scan ends without a name: it returns 0, it fails its assertion, it reads a byte that is not in
the vector, or it still runs after the given number of rounds. -/
inductive Halt
  | notFound
  | assertion
  | outOfBounds
  | running
  deriving DecidableEq, Repr

/-- A buffer over the vector, its pointers as offsets from the base. -/
structure Span where
  pos : Nat
  last : Nat
  deriving DecidableEq, Repr

namespace Span

/-- `ngtcp2_buf_len` -/
def len (b : Span) : Nat :=
  sub64 b.last b.pos

/-- `ngtcp2_buf_trunc` -/
def trunc (b : Span) (len : Nat) : Span :=
  if len < b.len then ⟨b.pos, b.pos + len⟩ else b

def advance (b : Span) (n : Nat) : Span :=
  ⟨b.pos + n, b.last⟩

@[simp]
theorem advance_pos (b : Span) (n : Nat) : (b.advance n).pos = b.pos + n := by
  rw [advance]

@[simp]
theorem advance_last (b : Span) (n : Nat) : (b.advance n).last = b.last := by
  rw [advance]

end Span

/-- The scan returns 0 unless `n` bytes are left. -/
def require (n : Nat) (b : Span) : Except Halt Unit :=
  if b.len < n then .error .notFound else .ok ()

def returnIf (c : Bool) : Except Halt Unit :=
  if c then .error .notFound else .ok ()

section Scan

variable (v : Bytes)

/-- An integer of `n` bytes at `pos`, which moves behind it. -/
def getUint (n : Nat) (b : Span) : Except Halt (Nat × Span) :=
  if v.length < b.pos + n then .error .outOfBounds
  else .ok (getUintbe ((v.drop b.pos).take n), b.advance n)

/-- `pkt_tls_skip8` and `pkt_tls_skip16`, for a length of `n` bytes -/
def tlsSkip (n : Nat) (b : Span) : Except Halt Span := do
  require n b
  let (len, b) ← getUint v n b
  require len b
  .ok (b.advance len)

/-- The data of the extension with the server name. -/
def serverName (b : Span) : Except Halt Slice := do
  let (len, b) ← getUint v 2 b
  require len b
  returnIf (len < 2)
  let b := b.trunc len
  let (len, b) ← getUint v 2 b
  require len b
  returnIf (len < 1 + 2)
  let b := b.trunc len
  let (nameType, b) ← getUint v 1 b
  returnIf (nameType ≠ 0)
  let (len, b) ← getUint v 2 b
  require len b
  .ok ⟨b.pos, len⟩

/-- The loop over the extensions. -/
def extensions : Nat → Span → Except Halt Slice
  | 0, _ => .error .running
  | fuel + 1, b => do
      require (2 * 2) b
      let (extType, b) ← getUint v 2 b
      if extType ≠ 0 then do
        let b ← tlsSkip v 2 b
        extensions fuel b
      else serverName v b

/-- What `ngtcp2_pkt_find_server_name` does with the buffer, for at most `fuel` extensions. -/
def findHostName (fuel : Nat) (b : Span) : Except Halt Slice := do
  require (1 + 3) b
  let (msgType, b) ← getUint v 1 b
  returnIf (msgType ≠ 1)
  let (msglen, b) ← getUint v 3 b
  let b := b.trunc msglen
  require 2 b
  let (legacyVer, b) ← getUint v 2 b
  returnIf (legacyVer ≠ 0x0303)
  require 32 b
  let b ← tlsSkip v 1 (b.advance 32)
  let b ← tlsSkip v 2 b
  let b ← tlsSkip v 1 b
  require 2 b
  let (len, b) ← getUint v 2 b
  extensions v fuel (b.trunc len)

/-- `ngtcp2_pkt_find_server_name` -/
def pktFindServerName (fuel : Nat) : Except Halt Slice :=
  if v = [] then .error .assertion else findHostName v fuel ⟨0, v.length⟩

end Scan

/-- `bs` behind its length, which takes `n` bytes. -/
def vector (n : Nat) (bs : Bytes) : Bytes :=
  putUintbe n bs.length ++ bs

structure Extension where
  extType : Nat
  data : Bytes
  extType_lt : extType < 256 ^ 2
  data_lt : data.length < 256 ^ 2

def Extension.encode (e : Extension) : Bytes :=
  putUintbe 2 e.extType ++ vector 2 e.data

/-- A ClientHello up to its extensions. -/
structure ClientHello where
  msglen : Nat
  random : Bytes
  sessionId : Bytes
  cipherSuites : Bytes
  compressionMethods : Bytes
  extlen : Nat
  msglen_lt : msglen < 256 ^ 3
  random_length : random.length = 32
  sessionId_lt : sessionId.length < 256 ^ 1
  cipherSuites_lt : cipherSuites.length < 256 ^ 2
  compressionMethods_lt : compressionMethods.length < 256 ^ 1
  extlen_lt : extlen < 256 ^ 2

def ClientHello.encode (h : ClientHello) : Bytes :=
  putUintbe 1 1 ++ putUintbe 3 h.msglen ++ putUintbe 2 0x0303 ++ h.random ++ vector 1 h.sessionId ++
    vector 2 h.cipherSuites ++ vector 1 h.compressionMethods ++ putUintbe 2 h.extlen

/-- The first entry of the server name list in `data` is the host name `name`. -/
def HostEntry (data name : Bytes) : Prop :=
  ∃ list rest rest', data = vector 2 list ++ rest ∧ list = putUintbe 1 0 ++ vector 2 name ++ rest'

/-- The name lies in the first extension of type 0 of the ClientHello at the start of `v`, and is its first
entry. The extension ends within the lengths that the message and its extensions announce. -/
def HostNameAt (v : Bytes) (s : Slice) : Prop :=
  ∃ (h : ClientHello) (before : List Extension) (ext : Extension),
    h.encode ++ before.flatMap Extension.encode ++ ext.encode <+: v ∧
    (∀ e ∈ before, e.extType ≠ 0) ∧ ext.extType = 0 ∧
    (h.encode ++ before.flatMap Extension.encode ++ ext.encode).length ≤ 4 + h.msglen ∧
    (before.flatMap Extension.encode ++ ext.encode).length ≤ h.extlen ∧
    HostEntry ext.data (s.bytes v) ∧
    (h.encode ++ before.flatMap Extension.encode ++ putUintbe 2 ext.extType ++ putUintbe 2 ext.data.length).length + 5 = s.off ∧
    s.off + s.len ≤ (h.encode ++ before.flatMap Extension.encode ++ ext.encode).length

section Segments

variable {v : Bytes}

/-- The bytes from `i` up to `j`. -/
def seg (v : Bytes) (i j : Nat) : Bytes :=
  (v.drop i).take (j - i)

theorem seg_append {i j k : Nat} (hij : i ≤ j) (hjk : j ≤ k) : seg v i j ++ seg v j k = seg v i k := by
  have hk : k - i = (j - i) + (k - j) := by omega
  have hj : j = i + (j - i) := by omega
  rw [seg, seg, seg, hk, List.take_add, List.drop_drop, ← hj]

theorem seg_length {i j : Nat} (hj : j ≤ v.length) : (seg v i j).length = j - i := by
  rw [seg, List.length_take, List.length_drop]
  omega

theorem seg_uintbe {i n : Nat} (hn : i + n ≤ v.length) : seg v i (i + n) = putUintbe n (getUintbe (seg v i (i + n))) := by
  have hlen : (seg v i (i + n)).length = n := by
    rw [seg_length hn]
    omega
  conv_lhs => rw [← putUintbe_getUintbe (seg v i (i + n)), hlen]

theorem seg_vector {i n x : Nat} (hn : i + n + x ≤ v.length) (hx : seg v i (i + n) = putUintbe n x) :
    seg v i (i + n + x) = vector n (seg v (i + n) (i + n + x)) := by
  have hlen : (seg v (i + n) (i + n + x)).length = x := by
    rw [seg_length hn]
    omega
  rw [vector, hlen, ← hx, seg_append (by omega) (by omega)]

end Segments

/-- The run agrees with the result of a total function, up to `R`; it ends early only by returning 0. -/
def Follows {α β : Type} (R : α → β → Prop) : Except Halt α → Option β → Prop
  | .ok a, some b => R a b
  | .error e, none => e = .notFound
  | _, _ => False

theorem Follows.bind {α β γ δ : Type} {R : α → β → Prop} {S : γ → δ → Prop} {x : Except Halt α} {y : Option β}
    {f : α → Except Halt γ} {g : β → Option δ} (hxy : Follows R x y) (hfg : ∀ a b, R a b → Follows S (f a) (g b)) :
    Follows S (x >>= f) (y >>= g) := by
  cases x with
  | ok a =>
      cases y with
      | some b => exact hfg a b hxy
      | none => cases hxy
  | error e =>
      cases y with
      | some b => cases hxy
      | none => exact hxy

theorem Follows.cases {α β : Type} {R : α → β → Prop} {x : Except Halt α} {y : Option β} (h : Follows R x y) :
    (x = .error .notFound ∧ y = none) ∨ ∃ a b, x = .ok a ∧ y = some b ∧ R a b := by
  cases x with
  | ok a =>
      cases y with
      | some b => exact Or.inr ⟨a, b, rfl, rfl, h⟩
      | none => cases h
  | error e =>
      cases y with
      | some b => cases h
      | none => exact Or.inl ⟨congrArg Except.error h, rfl⟩

theorem Follows.mono {α β : Type} {R S : α → β → Prop} {x : Except Halt α} {y : Option β} (h : Follows R x y)
    (hRS : ∀ a b, R a b → S a b) : Follows S x y := by
  cases x with
  | ok a =>
      cases y with
      | some b => exact hRS a b h
      | none => cases h
  | error e =>
      cases y with
      | some b => cases h
      | none => exact h

/-- The buffer lies in the vector, and the cursor has the bytes between its pointers. -/
structure Reads (v : Bytes) (b : Span) (c : Cursor) : Prop where
  size : v.length < 2 ^ 64
  le : b.pos ≤ b.last
  within : b.last ≤ v.length
  cursor : c = ⟨b.pos, (v.take b.last).drop b.pos⟩

namespace Reads

variable {v : Bytes} {b : Span} {c : Cursor}

theorem span_len (h : Reads v b c) : b.len = b.last - b.pos :=
  sub64_of_le h.le (Nat.lt_of_le_of_lt h.within h.size)

theorem cursor_len (h : Reads v b c) : c.len = b.last - b.pos := by
  rw [h.cursor, Cursor.len, List.length_drop, List.length_take_of_le h.within]

theorem advance (h : Reads v b c) {n : Nat} (hn : b.pos + n ≤ b.last) : Reads v (b.advance n) (c.advance n) where
  size := h.size
  le := hn
  within := h.within
  cursor := by rw [h.cursor, Cursor.advance, List.drop_drop, Span.advance]

theorem trunc (h : Reads v b c) (n : Nat) : Reads v (b.trunc n) (c.trunc n) := by
  have hlen := h.span_len
  have hle := h.le
  have hin := h.within
  rw [Span.trunc]
  split
  · refine ⟨h.size, Nat.le_add_right _ _, by simp only; omega, ?_⟩
    have hmin : min n (b.last - b.pos) = n := by omega
    rw [h.cursor, Cursor.trunc, List.drop_take, List.take_take, hmin, List.drop_take, Nat.add_sub_cancel_left]
  · refine ⟨h.size, hle, hin, ?_⟩
    have hrest : ((v.take b.last).drop b.pos).length ≤ n := by
      rw [List.length_drop, List.length_take_of_le hin]
      omega
    rw [h.cursor, Cursor.trunc, List.take_of_length_le hrest]

theorem trunc_pos (b : Span) (n : Nat) : (b.trunc n).pos = b.pos := by
  rw [Span.trunc]
  split <;> rfl

theorem trunc_last (h : Reads v b c) (n : Nat) : (b.trunc n).last ≤ b.last ∧ (b.trunc n).last ≤ b.pos + n := by
  have hlen := h.span_len
  have hle := h.le
  rw [Span.trunc]
  split
  · exact ⟨by simp only; omega, Nat.le_refl _⟩
  · exact ⟨Nat.le_refl _, by omega⟩

theorem trunc_eq (h : Reads v b c) {n : Nat} (hn : b.pos + n ≤ b.last) : b.trunc n = ⟨b.pos, b.pos + n⟩ := by
  rw [Span.trunc, h.span_len]
  split
  · rfl
  · have hlast : b.last = b.pos + n := by omega
    rw [← hlast]

theorem trunc_of_le (h : Reads v b c) {n : Nat} (hn : b.pos + n ≤ b.last) : Reads v ⟨b.pos, b.pos + n⟩ (c.trunc n) :=
  h.trunc_eq hn ▸ h.trunc n

theorem uintbe (h : Reads v b c) {n : Nat} (hn : b.pos + n ≤ b.last) : c.uintbe n = getUintbe (seg v b.pos (b.pos + n)) := by
  have hmin : min n (b.last - b.pos) = n := by omega
  rw [h.cursor, Cursor.uintbe, getUintbe, seg, List.drop_take, List.take_take, hmin, Nat.add_sub_cancel_left]

end Reads

section Rules

variable {v : Bytes} {b : Span} {c : Cursor} {α β : Type} {R : α → β → Prop}

theorem Follows.require (h : Reads v b c) {n : Nat} {k : Unit → Except Halt α} {y : Option β}
    (hk : b.pos + n ≤ b.last → Follows R (k ()) y) : Follows R (require n b >>= k) (if c.len < n then none else y) := by
  have hle := h.le
  rw [ServerName.require, h.span_len, h.cursor_len]
  split
  · exact rfl
  · exact hk (by omega)

theorem Follows.returnIf {p : Prop} [Decidable p] {k : Unit → Except Halt α} {y : Option β}
    (hk : ¬p → Follows R (k ()) y) : Follows R (returnIf (decide p) >>= k) (if p then none else y) := by
  by_cases hp : p
  · rw [if_pos hp, ServerName.returnIf, if_pos (decide_eq_true hp)]
    exact rfl
  · rw [if_neg hp, ServerName.returnIf, if_neg (by simpa using hp)]
    exact hk hp

/-- The two conditions of a return in one. -/
theorem Follows.requireIf (h : Reads v b c) {n : Nat} {p : Prop} [Decidable p] {k : Unit → Except Halt α} {y : Option β}
    (hk : b.pos + n ≤ b.last → ¬p → Follows R (k ()) y) :
    Follows R (ServerName.require n b >>= fun _ => ServerName.returnIf (decide p) >>= k) (if c.len < n ∨ p then none else y) := by
  have heq : (if c.len < n ∨ p then none else y) = if c.len < n then none else if p then none else y := by
    by_cases hn : c.len < n
    · rw [if_pos hn, if_pos (Or.inl hn)]
    · rw [if_neg hn]
      by_cases hp : p
      · rw [if_pos hp, if_pos (Or.inr hp)]
      · rw [if_neg hp, if_neg (not_or.mpr ⟨hn, hp⟩)]
  rw [heq]
  exact Follows.require h fun hle => Follows.returnIf (hk hle)

theorem Follows.getUint (h : Reads v b c) {n : Nat} (hn : b.pos + n ≤ b.last) {k : Nat × Span → Except Halt α} {y : Option β}
    (hk : c.uintbe n < 256 ^ n → seg v b.pos (b.pos + n) = putUintbe n (c.uintbe n) → Reads v (b.advance n) (c.advance n) →
      Follows R (k (c.uintbe n, b.advance n)) y) : Follows R (ServerName.getUint v n b >>= k) y := by
  have hle := Nat.le_trans hn h.within
  have hx := h.uintbe hn
  have hlt := getUintbe_lt (seg v b.pos (b.pos + n))
  have hput := seg_uintbe hle
  rw [seg_length hle, Nat.add_sub_cancel_left, ← hx] at hlt
  rw [← hx] at hput
  rw [ServerName.getUint, if_neg (by omega)]
  rw [seg, Nat.add_sub_cancel_left] at hx
  rw [← hx]
  exact hk hlt hput (h.advance hn)

end Rules

theorem tlsSkip_follows {v : Bytes} {b : Span} {c : Cursor} (h : Reads v b c) (n : Nat) :
    Follows (fun b' c' => Reads v b' c' ∧ b'.last = b.last ∧ ∃ body : Bytes, body.length < 256 ^ n ∧
      b'.pos = b.pos + n + body.length ∧ seg v b.pos b'.pos = vector n body) (tlsSkip v n b) (Cursor.tlsSkip n c) := by
  rw [tlsSkip, Cursor.tlsSkip]
  refine Follows.require h fun hn => ?_
  refine Follows.getUint h hn fun hlt hseg h' => ?_
  refine Follows.require h' fun hx => ?_
  have hle : b.pos + n + c.uintbe n ≤ v.length := Nat.le_trans hx h.within
  have hlen : (seg v (b.pos + n) (b.pos + n + c.uintbe n)).length = c.uintbe n := by
    rw [seg_length hle]
    omega
  refine ⟨h'.advance hx, rfl, seg v (b.pos + n) (b.pos + n + c.uintbe n), ?_, ?_, seg_vector hle hseg⟩
  · rw [hlen]
    exact hlt
  · rw [hlen]
    rfl

/-- The name is the first entry of the vector at `i`, which ends by `j`. -/
def EntryAt (v : Bytes) (i j : Nat) (s : Slice) : Prop :=
  ∃ data : Bytes, data.length < 256 ^ 2 ∧ i + 2 + data.length ≤ j ∧ seg v i (i + 2 + data.length) = vector 2 data ∧
    HostEntry data (s.bytes v) ∧ s.off = i + 2 + 5 ∧ s.off + s.len ≤ i + 2 + data.length

theorem entryAt_of_segs {v : Bytes} {i j data list name : Nat} (hj : i + 2 + data ≤ j) (hv : j ≤ v.length)
    (hlt : data < 256 ^ 2) (hdata : seg v i (i + 2) = putUintbe 2 data) (hlist : i + 2 + 2 + list ≤ i + 2 + data)
    (hlists : seg v (i + 2) (i + 2 + 2) = putUintbe 2 list) (htype : seg v (i + 2 + 2) (i + 2 + 2 + 1) = putUintbe 1 0)
    (hname : i + 2 + 2 + 1 + 2 + name ≤ i + 2 + 2 + list)
    (hnames : seg v (i + 2 + 2 + 1) (i + 2 + 2 + 1 + 2) = putUintbe 2 name) :
    EntryAt v i j ⟨i + 2 + 2 + 1 + 2, name⟩ := by
  have hlen : (seg v (i + 2) (i + 2 + data)).length = data := by
    rw [seg_length (by omega)]
    omega
  have hbytes : Slice.bytes v ⟨i + 2 + 2 + 1 + 2, name⟩ = seg v (i + 2 + 2 + 1 + 2) (i + 2 + 2 + 1 + 2 + name) := by
    rw [Slice.bytes, seg, Nat.add_sub_cancel_left]
  refine ⟨seg v (i + 2) (i + 2 + data), by rwa [hlen], by rwa [hlen], ?_, ?_, rfl, ?_⟩
  · rw [hlen]
    exact seg_vector (by omega) hdata
  · refine ⟨seg v (i + 2 + 2) (i + 2 + 2 + list), seg v (i + 2 + 2 + list) (i + 2 + data),
      seg v (i + 2 + 2 + 1 + 2 + name) (i + 2 + 2 + list), ?_, ?_⟩
    · rw [← seg_vector (by omega) hlists, seg_append (by omega) hlist]
    · rw [hbytes, ← seg_vector (by omega) hnames, ← htype, seg_append (by omega) (by omega), seg_append (by omega) hname]
  · rw [hlen]
    simp only
    omega

theorem serverName_follows {v : Bytes} {b : Span} {c : Cursor} (h : Reads v b c) (hn : b.pos + 2 ≤ b.last) :
    Follows (fun s p => p = (s.off, s.len) ∧ EntryAt v b.pos b.last s) (serverName v b) (Cursor.serverName c) := by
  rw [serverName, Cursor.serverName]
  refine Follows.getUint h hn fun hlt hseg h₁ => ?_
  refine Follows.requireIf h₁ fun hlen hpos => ?_
  rw [h₁.trunc_eq hlen]
  have h₂ := h₁.trunc_of_le hlen
  generalize hdata : c.uintbe 2 = data at *
  generalize (c.advance 2).trunc data = c₂ at *
  have hpos₂ : b.pos + 2 + 2 ≤ b.pos + 2 + data := by omega
  refine Follows.getUint h₂ hpos₂ fun hlt₂ hseg₂ h₃ => ?_
  refine Follows.requireIf h₃ fun hlen₃ hpos₃ => ?_
  rw [h₃.trunc_eq hlen₃]
  have h₄ := h₃.trunc_of_le hlen₃
  generalize hlist : c₂.uintbe 2 = list at *
  generalize (c₂.advance 2).trunc list = c₄ at *
  have hpos₄ : b.pos + 2 + 2 + 1 ≤ b.pos + 2 + 2 + list := by omega
  refine Follows.getUint h₄ hpos₄ fun hlt₄ hseg₄ h₅ => ?_
  refine Follows.returnIf fun htype => ?_
  have hpos₅ : b.pos + 2 + 2 + 1 + 2 ≤ b.pos + 2 + 2 + list := by omega
  refine Follows.getUint h₅ hpos₅ fun hlt₅ hseg₅ h₆ => ?_
  refine Follows.require h₆ fun hlen₆ => ?_
  generalize hname : (c₄.advance 1).uintbe 2 = name at *
  rw [not_not.mp htype] at hseg₄
  refine ⟨?_, entryAt_of_segs hlen h.within hlt hseg hlen₃ hseg₂ hseg₄ hlen₆ hseg₅⟩
  rw [h₆.cursor]

theorem extensions_follows {v : Bytes} {b : Span} {c : Cursor} (h : Reads v b c) {fuel fuel' : Nat}
    (hfuel : b.last < b.pos + fuel) (hfuel' : b.last ≤ b.pos + fuel') :
    Follows (fun s p => p = (s.off, s.len) ∧ ∃ before : List Extension, (∀ e ∈ before, e.extType ≠ 0) ∧
        ∃ i, seg v b.pos i = before.flatMap Extension.encode ++ putUintbe 2 0 ∧ b.pos + 2 ≤ i ∧ EntryAt v i b.last s)
      (extensions v fuel b) (Cursor.extensions fuel' c) := by
  induction fuel generalizing fuel' b c with
  | zero => exact absurd h.le (Nat.not_le.mpr hfuel)
  | succ fuel ih =>
      cases fuel' with
      | zero =>
          have hlen : b.len < 2 * 2 := by
            rw [h.span_len]
            omega
          rw [extensions, require, if_pos hlen]
          exact rfl
      | succ fuel' =>
          rw [extensions, Cursor.extensions]
          refine Follows.require h fun hn => ?_
          have hn₂ : b.pos + 2 ≤ b.last := by omega
          refine Follows.getUint h hn₂ fun hlt hseg h₁ => ?_
          simp only
          split
          · rename_i htype
            refine Follows.bind (tlsSkip_follows h₁ 2) ?_
            rintro b' c' ⟨h', hlast, body, hbody, hpos, hvec⟩
            have hpos' : b'.pos = b.pos + 2 + 2 + body.length := hpos
            have hlast' : b'.last = b.last := hlast
            have hle := h'.le
            refine Follows.mono (ih h' (by omega) (by omega)) ?_
            rintro s p ⟨hp, before, hbefore, i, hi, hposi, hentry⟩
            refine ⟨hp, ⟨c.uintbe 2, body, hlt, hbody⟩ :: before, List.forall_mem_cons.mpr ⟨htype, hbefore⟩, i, ?_,
              by omega, hlast' ▸ hentry⟩
            rw [List.flatMap_cons, List.append_assoc, ← hi, Extension.encode, ← hseg, ← hvec, Span.advance,
              seg_append (by omega) (by omega), seg_append (by omega) (by omega)]
          · rename_i htype
            rw [not_not.mp htype] at hseg
            refine Follows.mono (serverName_follows h₁ (by rw [Span.advance]; omega)) ?_
            rintro s p ⟨hp, hentry⟩
            exact ⟨hp, [], List.forall_mem_nil _, b.pos + 2, hseg, Nat.le_refl _, hentry⟩

theorem EntryAt.hostNameAt {v : Bytes} {i i' j : Nat} {s : Slice} {h : ClientHello} {before : List Extension}
    (hentry : EntryAt v i' j s) (hv : j ≤ v.length) (hhello : seg v 0 i = h.encode)
    (hbefore : seg v i i' = before.flatMap Extension.encode ++ putUintbe 2 0) (hi : i + 2 ≤ i')
    (htypes : ∀ e ∈ before, e.extType ≠ 0) (hmsg : j ≤ 4 + h.msglen) (hext : j ≤ i + h.extlen) : HostNameAt v s := by
  obtain ⟨data, hlt, hj, hdata, hhost, hoff, hend⟩ := hentry
  have hencode : h.encode ++ before.flatMap Extension.encode ++ putUintbe 2 0 = seg v 0 i' := by
    rw [List.append_assoc, ← hbefore, ← hhello, seg_append (Nat.zero_le _) (by omega)]
  have hall : h.encode ++ before.flatMap Extension.encode ++ Extension.encode ⟨0, data, by decide, hlt⟩ =
      seg v 0 (i' + 2 + data.length) := by
    rw [Extension.encode, ← List.append_assoc, hencode, ← hdata, seg_append (Nat.zero_le _) (by omega)]
  have hrest : before.flatMap Extension.encode ++ Extension.encode ⟨0, data, by decide, hlt⟩ = seg v i (i' + 2 + data.length) := by
    rw [Extension.encode, ← List.append_assoc, ← hbefore, ← hdata, seg_append (by omega) (by omega)]
  refine ⟨h, before, ⟨0, data, by decide, hlt⟩, ?_, htypes, rfl, ?_, ?_, hhost, ?_, ?_⟩
  · rw [hall, seg, List.drop_zero]
    exact List.take_prefix _ _
  · rw [hall, seg_length (by omega)]
    omega
  · rw [hrest, seg_length (by omega)]
    omega
  · simp only
    rw [hencode, List.length_append, seg_length (by omega), putUintbe_length, hoff]
    omega
  · rw [hall, seg_length (by omega)]
    omega

theorem seg_encode {v : Bytes} {h : ClientHello} {p₅ p₆ p₇ : Nat} (htype : seg v 0 1 = putUintbe 1 1)
    (hmsg : seg v 1 4 = putUintbe 3 h.msglen) (hver : seg v 4 6 = putUintbe 2 0x0303) (hrandom : seg v 6 38 = h.random)
    (hsession : seg v 38 p₅ = vector 1 h.sessionId) (hcipher : seg v p₅ p₆ = vector 2 h.cipherSuites)
    (hcompression : seg v p₆ p₇ = vector 1 h.compressionMethods) (hext : seg v p₇ (p₇ + 2) = putUintbe 2 h.extlen)
    (h₅ : 38 ≤ p₅) (h₆ : p₅ ≤ p₆) (h₇ : p₆ ≤ p₇) : seg v 0 (p₇ + 2) = h.encode := by
  rw [ClientHello.encode, ← htype, ← hmsg, ← hver, ← hrandom, ← hsession, ← hcipher, ← hcompression, ← hext]
  rw [seg_append (by omega) (by omega), seg_append (by omega) (by omega), seg_append (by omega) (by omega),
    seg_append (by omega) h₅, seg_append (by omega) h₆, seg_append (by omega) h₇, seg_append (by omega) (by omega)]

theorem findHostName_follows {v : Bytes} {b : Span} {c : Cursor} (h : Reads v b c) (hb : b.pos = 0) (hc : c = ⟨0, v⟩)
    {fuel : Nat} (hfuel : v.length ≤ fuel) :
    Follows (fun s p => p = (s.off, s.len) ∧ HostNameAt v s) (findHostName v fuel b) (findServerName v) := by
  rw [findHostName, findServerName, ← hc]
  refine Follows.require h fun hn => ?_
  have hn₁ : b.pos + 1 ≤ b.last := by omega
  refine Follows.getUint h hn₁ fun _ htype h₁ => ?_
  refine Follows.returnIf fun hclient => ?_
  refine Follows.getUint h₁ hn fun hmsglen hmsg h₂ => ?_
  simp only
  have h₃ := h₂.trunc ((c.advance 1).uintbe 3)
  have hpos₃ := Reads.trunc_pos ((b.advance 1).advance 3) ((c.advance 1).uintbe 3)
  have hlast₃ := (h₂.trunc_last ((c.advance 1).uintbe 3)).2
  generalize ((b.advance 1).advance 3).trunc ((c.advance 1).uintbe 3) = b₃ at *
  generalize ((c.advance 1).advance 3).trunc ((c.advance 1).uintbe 3) = c₃ at *
  refine Follows.require h₃ fun hn₃ => ?_
  refine Follows.getUint h₃ hn₃ fun _ hver h₄ => ?_
  refine Follows.returnIf fun hlegacy => ?_
  refine Follows.require h₄ fun hn₄ => ?_
  refine Follows.bind (tlsSkip_follows (h₄.advance hn₄) 1) ?_
  rintro b₅ c₅ ⟨h₅, hlast₅, sessionId, hsessionId, hpos₅, hseg₅⟩
  refine Follows.bind (tlsSkip_follows h₅ 2) ?_
  rintro b₆ c₆ ⟨h₆, hlast₆, cipherSuites, hcipherSuites, hpos₆, hseg₆⟩
  refine Follows.bind (tlsSkip_follows h₆ 1) ?_
  rintro b₇ c₇ ⟨h₇, hlast₇, compressionMethods, hcompressionMethods, hpos₇, hseg₇⟩
  refine Follows.require h₇ fun hn₇ => ?_
  refine Follows.getUint h₇ hn₇ fun hextlen hext h₈ => ?_
  have h₉ := h₈.trunc (c₇.uintbe 2)
  have hpos₉ := Reads.trunc_pos (b₇.advance 2) (c₇.uintbe 2)
  have hlast₉ := h₈.trunc_last (c₇.uintbe 2)
  simp only
  generalize (b₇.advance 2).trunc (c₇.uintbe 2) = b₉ at *
  generalize (c₇.advance 2).trunc (c₇.uintbe 2) = c₉ at *
  simp only [Span.advance_pos, Span.advance_last, hb, Nat.reduceAdd] at hpos₃ hlast₃ hmsg htype hpos₉ hlast₉
  simp only [ne_eq, not_not] at hclient hlegacy
  rw [hclient] at htype
  rw [hlegacy, hpos₃] at hver
  simp only [Span.advance_pos, Span.advance_last, hpos₃, Nat.reduceAdd] at hn₄ hpos₅ hlast₅ hseg₅
  have hlen₇ := h₇.cursor_len
  have hfuel₉ : b₉.last < b₉.pos + fuel :=
    Nat.lt_of_le_of_lt (h₉.within.trans hfuel) (Nat.lt_add_of_pos_left (hpos₉ ▸ Nat.succ_pos _))
  have hlen₉ : b₉.last ≤ b₉.pos + c₇.len :=
    calc b₉.last
        ≤ b₇.last := hlast₉.1
      _ = b₇.pos + c₇.len := by rw [hlen₇, Nat.add_sub_cancel' h₇.le]
      _ ≤ b₉.pos + c₇.len := Nat.add_le_add_right (hpos₉ ▸ Nat.le_add_right _ _) _
  refine Follows.mono (extensions_follows h₉ hfuel₉ hlen₉) ?_
  rintro s p ⟨hp, before, htypes, i, hbefore, hi, hentry⟩
  have hend₉ := h₉.within
  have hmsg₉ : b₉.last ≤ 4 + (c.advance 1).uintbe 3 := by
    have hlast : b₇.last = b₃.last := by rw [hlast₇, hlast₆, hlast₅]
    exact (hlast ▸ hlast₉.1).trans hlast₃
  have hext₉ : b₉.last ≤ b₉.pos + c₇.uintbe 2 := hpos₉ ▸ hlast₉.2
  have hrandom : (seg v 6 38).length = 32 := seg_length (Nat.le_trans hn₄ h₃.within)
  have h38 : 38 ≤ b₅.pos := by omega
  have h56 : b₅.pos ≤ b₆.pos := by omega
  have h67 : b₆.pos ≤ b₇.pos := by omega
  refine ⟨hp, hentry.hostNameAt (h := ⟨(c.advance 1).uintbe 3, seg v 6 38, sessionId, cipherSuites, compressionMethods,
    c₇.uintbe 2, hmsglen, hrandom, hsessionId, hcipherSuites, hcompressionMethods, hextlen⟩) hend₉ ?_ hbefore hi htypes
    hmsg₉ hext₉⟩
  rw [hpos₉]
  exact seg_encode htype hmsg hver rfl hseg₅ hseg₆ hseg₇ hext h38 h56 h67

/-- The scan comes to an end and reads no byte outside of the vector; what it finds is the first host name in
the first server name extension. -/
theorem pktFindServerName_finds {v : Bytes} (hv : v ≠ []) (hsize : v.length < 2 ^ 64) {fuel : Nat} (hfuel : v.length ≤ fuel) :
    (pktFindServerName v fuel = .error .notFound ∧ findServerName v = none) ∨
      ∃ s, pktFindServerName v fuel = .ok s ∧ findServerName v = some (s.off, s.len) ∧ s.off + s.len ≤ v.length ∧
        HostNameAt v s := by
  have h : Reads v ⟨0, v.length⟩ ⟨0, v⟩ := by
    refine ⟨hsize, Nat.zero_le _, Nat.le_refl _, ?_⟩
    simp only [List.take_length, List.drop_zero]
  rw [pktFindServerName, if_neg hv]
  obtain ⟨b, hb, hbuf⟩ : ∃ b : Span, b.pos = 0 ∧ b = ⟨0, v.length⟩ := ⟨_, rfl, rfl⟩
  rw [← hbuf] at h ⊢
  rcases (findHostName_follows h hb rfl hfuel).cases with ⟨hx, hy⟩ | ⟨s, p, hx, hy, hp, hat⟩
  · exact Or.inl ⟨hx, hy⟩
  · refine Or.inr ⟨s, hx, hp ▸ hy, ?_, hat⟩
    obtain ⟨hello, before, ext, hprefix, -, -, -, -, -, -, hend⟩ := hat
    exact hend.trans hprefix.length_le

/-- A ClientHello with an extension of type 13 and the server name `a`. -/
def sampleHello : Bytes :=
  [1, 0, 0, 59, 3, 3] ++ List.replicate 32 7 ++ [0, 0, 2, 0x13, 1, 1, 0, 0, 16, 0, 13, 0, 2, 4, 3] ++
    [0, 0, 0, 6, 0, 4, 0, 0, 1, 0x61]

theorem pktFindServerName_finds_sample :
    ∃ s, pktFindServerName sampleHello 63 = .ok s ∧ s.bytes sampleHello = [0x61] ∧ HostNameAt sampleHello s := by
  have hname : findServerName sampleHello = some (62, 1) := by decide +kernel
  rcases pktFindServerName_finds (v := sampleHello) (by decide) (by decide) (Nat.le_refl 63) with ⟨-, hnone⟩ | ⟨s, hs, hsome, -, hat⟩
  · rw [hname] at hnone
    cases hnone
  · rw [hname, Option.some.injEq, Prod.mk.injEq] at hsome
    refine ⟨s, hs, ?_, hat⟩
    rw [Slice.bytes, ← hsome.1, ← hsome.2]
    decide +kernel

end Zngtcp2.ServerName
