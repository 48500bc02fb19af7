import Mathlib.Data.List.Infix
import Zngtcp2.Lib.Align
import Zngtcp2.PtrBuf

namespace Zngtcp2.BufAlloc

open Lib.Align

/-- `ngtcp2_buf_alloc_info`, with fields of the size of a word; the flags are not read here. -/
structure AllocInfo where
  role : Nat
  origin : Nat
  size : Nat
  headroom : Nat
  tailroom : Nat
  align : Nat
  size_le : size ≤ uint64Max := by decide
  headroom_le : headroom ≤ uint64Max := by decide
  tailroom_le : tailroom ≤ uint64Max := by decide
  align_le : align ≤ uint64Max := by decide

/-- What gives out memory: a block that is not at address zero, with the address behind it in the address space. -/
structure Malloc where
  alloc : Nat → Option Nat
  inside : ∀ {len addr : Nat}, alloc len = some addr → 0 < addr ∧ addr + len ≤ uint64Max

/-- `ngtcp2_default_buf_owner`, the block of memory that begins with it, and whether that has been freed. -/
structure Owner where
  addr : Nat
  len : Nat
  refcount : Nat
  freed : Bool
  deriving DecidableEq, Repr

/-- `sizeof(ngtcp2_default_buf_owner)`, where `data` begins. -/
def sizeofOwner : Nat :=
  16

def sizeAdd (a b : Nat) : Except Rv Nat :=
  if uint64Max - a < b then .error .bufContract else .ok (a + b)

/-- `validate_info` -/
def validateInfo (info : AllocInfo) : Except Rv Unit := do
  if bufRoleBad info.role then throw .bufContract
  if info.align = 0 ∨ info.align &&& (info.align - 1) ≠ 0 then throw .bufContract
  let total ← sizeAdd info.headroom info.size
  let _ ← sizeAdd total info.tailroom

/-- `default_owner_retain`; a block that has been freed must not be touched. -/
def Owner.retain (o : Owner) : Option Owner :=
  if o.freed then none else some { o with refcount := (o.refcount + 1) % 2 ^ 64 }

/-- `default_owner_release` -/
def Owner.release (o : Owner) : Option Owner :=
  if o.freed ∨ o.refcount = 0 then none
  else if o.refcount - 1 ≠ 0 then some { o with refcount := o.refcount - 1 }
  else some { o with refcount := o.refcount - 1, freed := true }

/-- `default_alloc` -/
def defaultAlloc (malloc : Malloc) (info : AllocInfo) : Except Rv (PtrBuf × Owner) := do
  let total ← sizeAdd info.headroom info.size
  let total ← sizeAdd total info.tailroom
  let alloclen ← sizeAdd sizeofOwner total
  let alloclen ← sizeAdd alloclen (info.align - 1)
  match malloc.alloc alloclen with
  | none => throw .nomem
  | some addr =>
    let beginp := roundUp (addr + sizeofOwner) info.align
    let out := PtrBuf.init beginp total info.origin info.role addr true true
    return ({ out with pos := out.beginp + info.headroom, last := out.beginp + info.headroom }, ⟨addr, alloclen, 1, false⟩)

/-- `ngtcp2_buf_retain_owner` -/
def retainOwner (buf : PtrBuf) (o : Owner) : Option (Rv × Owner) :=
  if buf.owner = 0 ∨ buf.retain = false ∨ buf.release = false then some (.bufContract, o)
  else do
    let o ← o.retain
    some (.ok, o)

/-- `ngtcp2_buf_release_owner` -/
def releaseOwner (buf : PtrBuf) (o : Owner) : Option (PtrBuf × Owner) := do
  let o ← if buf.owner ≠ 0 ∧ buf.release = true then o.release else some o
  some (.zero, o)

/-- What `ngtcp2_buf_alloc` returns, the buffer it fills, and the block of memory where there is one. -/
structure Outcome where
  rv : Rv
  out : PtrBuf
  owner : Option Owner
  deriving DecidableEq, Repr

/-- The buffer is given back, as it does not keep the contract. -/
def Outcome.reject (out : PtrBuf) (o : Owner) : Outcome :=
  match releaseOwner out o with
  | none => ⟨.bufContract, out, none⟩
  | some (out, o) => ⟨.bufContract, out, some o⟩

/-- `ngtcp2_buf_alloc` with the allocator of `ngtcp2_buf_allocator_default` -/
def bufAlloc (malloc : Malloc) (info : AllocInfo) : Outcome :=
  match validateInfo info with
  | .error rv => ⟨rv, .zero, none⟩
  | .ok () =>
    match defaultAlloc malloc info with
    | .error rv => ⟨rv, .zero, none⟩
    | .ok (out, o) =>
      if out.validate info.role ≠ .ok ∨ out.endp - out.pos < info.size + info.tailroom then .reject out o
      else if info.align > 1 ∧ out.pos &&& (info.align - 1) ≠ 0 then .reject out o
      else ⟨.ok, out, some o⟩

inductive RefOp
  | retain
  | release
  deriving DecidableEq, Repr

/-- A holder of the buffer retains or releases its owner through a copy of the buffer. -/
def refStep (buf : PtrBuf) (o : Owner) : RefOp → Option Owner
  | .retain => (retainOwner buf o).map Prod.snd
  | .release => (releaseOwner buf o).map Prod.snd

def refRun (buf : PtrBuf) (o : Owner) (ops : List RefOp) : Option Owner :=
  ops.foldlM (refStep buf) o

/-- The references that are left of `k`. -/
def left : Nat → List RefOp → Nat
  | k, [] => k
  | k, .retain :: ops => left (k + 1) ops
  | k, .release :: ops => left (k - 1) ops

/-- Only who holds a reference retains or releases the owner. -/
def Held : Nat → List RefOp → Prop
  | _, [] => True
  | k, .retain :: ops => 0 < k ∧ Held (k + 1) ops
  | k, .release :: ops => 0 < k ∧ Held (k - 1) ops

/-- The bytes that are allocated: the header of the owner, the range, and room for the alignment. -/
def AllocInfo.blockLen (info : AllocInfo) : Nat :=
  sizeofOwner + (info.headroom + info.size + info.tailroom) + (info.align - 1)

/-- The length to be allocated exceeds `SIZE_MAX`. -/
def AllocInfo.Overflows (info : AllocInfo) : Prop :=
  uint64Max < info.blockLen

/-- The range is where the request wants it, inside of the block and behind its header. -/
structure Placed (info : AllocInfo) (out : PtrBuf) (o : Owner) : Prop where
  begin_le : out.beginp ≤ out.pos
  pos_eq : out.pos = out.last
  last_le : out.last ≤ out.endp
  headroom : out.pos - out.beginp = info.headroom
  room : info.size + info.tailroom ≤ out.endp - out.pos
  aligned : info.align ∣ out.pos
  above : o.addr + sizeofOwner ≤ out.beginp
  below : out.endp ≤ o.addr + o.len

/-- The block holds the count of its references at every moment, and is freed exactly when none is left. -/
def Counts (out : PtrBuf) (o : Owner) (ops : List RefOp) : Prop :=
  ∀ p, p <+: ops → ∃ o', refRun out o p = some o' ∧ o'.refcount = left 1 p ∧ (o'.freed = true ↔ left 1 p = 0)

/-- What the allocator promises for a request, and for what is done with the owner afterwards. -/
def Honours (malloc : Malloc) (info : AllocInfo) (ops : List RefOp) : Prop :=
  let r := bufAlloc malloc info
  (r.rv = .ok ∨ r.rv = .nomem ∨ r.rv = .bufContract ∧ info.Overflows) ∧
    (r.rv = .ok → ∃ o, r.owner = some o ∧ Placed info r.out o ∧ Counts r.out o ops)

section Info

variable {info : AllocInfo}

theorem sizeAdd_ok {a b : Nat} (h : a + b ≤ uint64Max) : sizeAdd a b = .ok (a + b) := by
  rw [sizeAdd, if_neg (by omega)]

theorem sizeAdd_error {a b : Nat} (ha : a ≤ uint64Max) (h : uint64Max < a + b) : sizeAdd a b = .error .bufContract := by
  rw [sizeAdd, if_pos (by omega)]

/-- What is known of a request that has been accepted. -/
theorem validateInfo_ok (h : validateInfo info = .ok ()) :
    ¬ bufRoleBad info.role ∧ (∃ k < 64, info.align = 2 ^ k) ∧ info.headroom + info.size + info.tailroom ≤ uint64Max := by
  have hhead := info.headroom_le
  have halign := info.align_le
  rw [validateInfo] at h
  by_cases hrole : bufRoleBad info.role
  · simp [hrole, bind, Except.bind, throw, throwThe, MonadExceptOf.throw] at h
  by_cases hpow : info.align = 0 ∨ info.align &&& (info.align - 1) ≠ 0
  · simp [hrole, hpow, bind, Except.bind, throw, throwThe, MonadExceptOf.throw] at h
  simp only [if_neg hrole, if_neg hpow, bind, Except.bind, pure, Except.pure] at h
  refine ⟨hrole, ?_, ?_⟩
  · obtain ⟨hzero, hand⟩ := not_or.mp hpow
    obtain ⟨k, hk⟩ := (Nat.and_sub_one_eq_zero_iff_isPowerOfTwo hzero).mp (not_not.mp hand)
    refine ⟨k, ?_, hk⟩
    apply (Nat.pow_lt_pow_iff_right (by decide : 1 < 2)).mp
    rw [← hk]
    simp only [uint64Max] at halign
    omega
  · by_cases hsum : info.headroom + info.size ≤ uint64Max
    · rw [sizeAdd_ok hsum] at h
      by_contra htail
      dsimp only at h
      rw [sizeAdd_error hsum (by omega)] at h
      cases h
    · rw [sizeAdd_error info.headroom_le (by omega)] at h
      cases h

/-- The buffer that is handed out for a block at `addr`. -/
def AllocInfo.outAt (info : AllocInfo) (addr : Nat) : PtrBuf :=
  let beginp := roundUp (addr + sizeofOwner) info.align
  ⟨beginp, beginp + (info.headroom + info.size + info.tailroom), beginp + info.headroom, beginp + info.headroom,
    info.origin, info.role, addr, true, true⟩

/-- The beginning of the range is aligned, behind the header, and less than `align` bytes away from it. -/
theorem outAt_begin (h : validateInfo info = .ok ()) {addr : Nat} (hin : addr + info.blockLen ≤ uint64Max) :
    info.align ∣ (info.outAt addr).beginp ∧ addr + sizeofOwner ≤ (info.outAt addr).beginp ∧
      (info.outAt addr).beginp < addr + sizeofOwner + info.align := by
  obtain ⟨-, ⟨k, hk, halign⟩, -⟩ := validateInfo_ok h
  have hpos : 0 < 2 ^ k := Nat.pow_pos (by decide)
  simp only [AllocInfo.outAt, halign]
  apply roundUp_spec hk
  simp only [AllocInfo.blockLen, halign, uint64Max] at hin
  omega

theorem outAt_init (h : validateInfo info = .ok ()) {addr : Nat} (hin : addr + info.blockLen ≤ uint64Max) (len : Nat) :
    PtrBuf.init (roundUp (addr + sizeofOwner) info.align) len info.origin info.role addr true true =
      ⟨(info.outAt addr).beginp, (info.outAt addr).beginp + len, (info.outAt addr).beginp, (info.outAt addr).beginp,
        info.origin, info.role, addr, true, true⟩ := by
  have hge := (outAt_begin h hin).2.1
  have hne : (info.outAt addr).beginp ≠ 0 := by
    simp only [sizeofOwner] at hge
    omega
  have hbegin : roundUp (addr + sizeofOwner) info.align = (info.outAt addr).beginp := rfl
  rw [PtrBuf.init, hbegin, if_pos hne]

theorem defaultAlloc_eq (malloc : Malloc) (h : validateInfo info = .ok ()) :
    defaultAlloc malloc info =
      if uint64Max < info.blockLen then .error .bufContract
      else match malloc.alloc info.blockLen with
        | none => .error .nomem
        | some addr => .ok (info.outAt addr, ⟨addr, info.blockLen, 1, false⟩) := by
  obtain ⟨-, -, hsum⟩ := validateInfo_ok h
  simp only [defaultAlloc, bind, Except.bind]
  rw [sizeAdd_ok (by omega)]
  dsimp only
  rw [sizeAdd_ok hsum]
  dsimp only
  by_cases hover : uint64Max < info.blockLen
  · rw [if_pos hover]
    by_cases howner : sizeofOwner + (info.headroom + info.size + info.tailroom) ≤ uint64Max
    · rw [sizeAdd_ok howner]
      dsimp only
      rw [sizeAdd_error howner hover]
    · rw [sizeAdd_error (by decide) (by omega)]
  · have hle := Nat.not_lt.mp hover
    have hlen : sizeofOwner + (info.headroom + info.size + info.tailroom) + (info.align - 1) = info.blockLen := rfl
    rw [if_neg hover, sizeAdd_ok (by omega)]
    dsimp only
    rw [sizeAdd_ok (by omega), hlen]
    dsimp only
    cases halloc : malloc.alloc info.blockLen with
    | none => rfl
    | some addr =>
        simp only [outAt_init h (malloc.inside halloc).2]
        rfl

theorem outAt_placed (h : validateInfo info = .ok ()) {addr : Nat} (hin : addr + info.blockLen ≤ uint64Max)
    (hdvd : info.align ∣ info.headroom) : Placed info (info.outAt addr) ⟨addr, info.blockLen, 1, false⟩ := by
  obtain ⟨halign, habove, hnear⟩ := outAt_begin h hin
  refine ⟨Nat.le_add_right _ _, rfl, ?_, Nat.add_sub_cancel_left _ _, ?_, Nat.dvd_add halign hdvd, habove, ?_⟩
  · simp only [AllocInfo.outAt]
    omega
  · simp only [AllocInfo.outAt]
    omega
  · simp only [AllocInfo.outAt] at hnear ⊢
    simp only [AllocInfo.blockLen]
    omega

theorem outAt_valid (h : validateInfo info = .ok ()) {addr : Nat} (hpos : 0 < addr)
    (hin : addr + info.blockLen ≤ uint64Max) : (info.outAt addr).validate info.role = .ok := by
  obtain ⟨hrole, -, -⟩ := validateInfo_ok h
  obtain ⟨-, habove, -⟩ := outAt_begin h hin
  refine PtrBuf.validate_eq_ok.mpr ⟨?_, hrole, hrole, rfl, ?_⟩
  · simp only [PtrBuf.badRange, AllocInfo.outAt, sizeofOwner] at habove ⊢
    omega
  · simp only [PtrBuf.badOwner, AllocInfo.outAt]
    simp
    omega

/-- What `ngtcp2_buf_alloc` comes to: the check of the alignment fails exactly where the headroom is not aligned. -/
theorem bufAlloc_eq (malloc : Malloc) (h : validateInfo info = .ok ()) :
    bufAlloc malloc info =
      if uint64Max < info.blockLen then ⟨.bufContract, .zero, none⟩
      else match malloc.alloc info.blockLen with
        | none => ⟨.nomem, .zero, none⟩
        | some addr =>
          if info.align ∣ info.headroom then ⟨.ok, info.outAt addr, some ⟨addr, info.blockLen, 1, false⟩⟩
          else ⟨.bufContract, .zero, some ⟨addr, info.blockLen, 0, true⟩⟩ := by
  rw [bufAlloc, h, defaultAlloc_eq malloc h]
  dsimp only
  by_cases hover : uint64Max < info.blockLen
  · rw [if_pos hover, if_pos hover]
  rw [if_neg hover, if_neg hover]
  cases halloc : malloc.alloc info.blockLen with
  | none => rfl
  | some addr =>
      obtain ⟨hpos, hin⟩ := malloc.inside halloc
      obtain ⟨-, ⟨k, -, hk⟩, -⟩ := validateInfo_ok h
      obtain ⟨hbegin, -, -⟩ := outAt_begin h hin
      have hroom : ¬ (info.outAt addr).endp - (info.outAt addr).pos < info.size + info.tailroom := by
        simp only [AllocInfo.outAt]
        omega
      have hmask : (info.outAt addr).pos &&& (info.align - 1) = 0 ↔ info.align ∣ info.headroom := by
        rw [hk, and_sub_one_eq_zero_iff, ← hk]
        exact (Nat.dvd_add_right hbegin)
      dsimp only
      rw [if_neg (not_or.mpr ⟨not_not.mpr (outAt_valid h hpos hin), hroom⟩)]
      by_cases hdvd : info.align ∣ info.headroom
      · rw [if_pos hdvd, if_neg (fun hbad => hbad.2 (hmask.mpr hdvd))]
      · have hone : info.align > 1 := by
          by_contra hle
          have hunit : info.align = 1 := by
            have hpow : 0 < 2 ^ k := Nat.pow_pos (by decide)
            omega
          rw [hunit] at hdvd
          exact hdvd (Nat.one_dvd _)
        rw [if_neg hdvd, if_pos ⟨hone, fun hzero => hdvd (hmask.mp hzero)⟩]
        simp [Outcome.reject, releaseOwner, AllocInfo.outAt, Owner.release, Nat.ne_of_gt hpos]

end Info

end Zngtcp2.BufAlloc
