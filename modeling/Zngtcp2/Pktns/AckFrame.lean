import Mathlib.Order.Bounds.Basic
import Zngtcp2.Err
import Zngtcp2.Pktns.Recv

namespace Zngtcp2.PktnsRx

/-- `NGTCP2_MAX_ACK_RANGES` -/
def maxAckRanges : Nat := 32

/-- An ACK frame, or an ACK_ECN frame if there are counts. -/
structure AckFrame where
  ecn : Option Ecn
  largestAck : Nat
  firstAckRange : Nat
  ackDelay : Nat
  ackDelayUnscaled : Nat
  ranges : List AckRange
  deriving DecidableEq, Repr

/-- The loop of `ngtcp2_pkt_validate_ack`. -/
def validateRanges (minPktNum : Int) : Int → List AckRange → Except Err Unit
  | _, [] => .ok ()
  | largestAck, r :: rs =>
      if largestAck < r.gap + 2 then .error .ackFrame
      else
        let largestAck := largestAck - (r.gap + 2)
        if largestAck < r.len then .error .ackFrame
        else
          let largestAck := largestAck - r.len
          if largestAck < minPktNum then .error .proto else validateRanges minPktNum largestAck rs

/-- `ngtcp2_pkt_validate_ack` -/
def validateAck (fr : AckFrame) (minPktNum : Int) : Except Err Unit :=
  if fr.largestAck < fr.firstAckRange then .error .ackFrame
  else
    let largestAck : Int := fr.largestAck - fr.firstAckRange
    if largestAck < minPktNum then .error .proto else validateRanges minPktNum largestAck fr.ranges

/-- `ngtcp2_tstamp_elapsed`, for a time that may be `UINT64_MAX`. -/
def tstampElapsed (base : Option Nat) (d ts : Nat) : Bool :=
  base.any fun base => base < uint64Max - d ∧ base + d ≤ ts

/-- The ranges behind the packet number `lastPktNum`; the gap is a `uint64_t`. -/
def ackRanges : Nat → List Entry → List AckRange
  | _, [] => []
  | lastPktNum, rpkt :: rest =>
      ⟨(lastPktNum + 2 ^ 64 - rpkt.pktNum - 2) % 2 ^ 64, rpkt.len - 1⟩ ::
        ackRanges (rpkt.pktNum - (rpkt.len - 1)) rest

/-- The first range of a frame, and the entries that it leaves for the others. -/
structure FirstRange where
  lastPktNum : Nat
  largestAckTs : Option Nat
  largestAck : Nat
  firstAckRange : Nat
  rest : List Entry

namespace Acktr

/-- `ngtcp2_acktr_commit_ack` -/
def commit (a : Acktr) : Acktr :=
  { a with
    immediateAck := false
    activeAck := false
    firstUnackedTs := none }

/-- `ngtcp2_acktr_add_ack` -/
def addAck (a : Acktr) (pktNum largestAck : Nat) : Acktr :=
  { a with acks := (⟨largestAck, pktNum⟩ :: a.acks).take 32 }

/-- `ngtcp2_acktr_forget`, of the entry with the given packet number. -/
def forget (a : Acktr) (pktNum : Nat) : Except Fault Acktr :=
  match a.ents.dropWhile (fun e => decide (pktNum < e.pktNum)) with
  | [] => .error .assertion
  | e :: _ =>
      if e.pktNum = pktNum then .ok { a with ents := a.ents.takeWhile (fun e => decide (pktNum < e.pktNum)) }
      else .error .assertion

def firstRange (a : Acktr) (rpkt : Entry) (rest : List Entry) : Except Fault FirstRange :=
  let lastPktNum := rpkt.pktNum - (rpkt.len - 1)
  if some rpkt.pktNum = a.maxPktNum then .ok ⟨lastPktNum, some rpkt.tstamp, rpkt.pktNum, rpkt.len - 1, rest⟩
  else if some (rpkt.pktNum + 1) = a.maxPktNum then .ok ⟨lastPktNum, a.maxPktTs, rpkt.pktNum + 1, rpkt.len, rest⟩
  else
    match a.maxPktNum with
    | none => .error .assertion
    | some maxPktNum =>
        if rpkt.pktNum < maxPktNum then .ok ⟨maxPktNum, a.maxPktTs, maxPktNum, 0, rpkt :: rest⟩
        else .error .assertion

/-- `ngtcp2_acktr_create_ack_frame`, with `none` where it returns -1. -/
def createAckFrame (a : Acktr) (oneRtt : Bool) (ts ackDelay ackDelayExponent : Nat) :
    Except Fault (Option AckFrame × Acktr) :=
  if tstampElapsed a.firstUnackedTs (if a.immediateAck then 0 else ackDelay) ts = false then .ok (none, a)
  else
    match a.ents with
    | [] => .ok (none, a.commit)
    | rpkt :: rest => do
        let first ← a.firstRange rpkt rest
        let ackDelayUnscaled := if oneRtt then (ts + 2 ^ 64 - first.largestAckTs.getD uint64Max) % 2 ^ 64 else 0
        .ok (some {
          ecn := if a.ecn.ect0 ≠ 0 ∨ a.ecn.ect1 ≠ 0 ∨ a.ecn.ce ≠ 0 then some a.ecn else none
          largestAck := first.largestAck
          firstAckRange := first.firstAckRange
          ackDelay := ackDelayUnscaled / 1000 / 2 ^ ackDelayExponent
          ackDelayUnscaled := ackDelayUnscaled
          ranges := ackRanges first.lastPktNum (first.rest.take maxAckRanges) }, a)

end Acktr

/-- What the ranges behind the packet number `low` acknowledge. -/
def InRanges : Int → List AckRange → Nat → Prop
  | _, [], _ => False
  | low, r :: rs, x =>
      (low - r.gap - 2 - r.len ≤ x ∧ x ≤ low - r.gap - 2) ∨ InRanges (low - r.gap - 2 - r.len) rs x

def AckFrame.Acknowledges (fr : AckFrame) (x : Nat) : Prop :=
  ((fr.largestAck : Int) - fr.firstAckRange ≤ x ∧ x ≤ fr.largestAck) ∨
    InRanges (fr.largestAck - fr.firstAckRange) fr.ranges x

/-- No two entries could be one, and none goes below zero. -/
structure Apart (ents : List Entry) : Prop where
  fits : ∀ e ∈ ents, e.len ≤ e.pktNum + 1
  pairwise : ents.Pairwise (fun a b => b.pktNum + a.len < a.pktNum)

theorem apart_cons {e : Entry} {es : List Entry} :
    Apart (e :: es) ↔ e.len ≤ e.pktNum + 1 ∧ (∀ b ∈ es, b.pktNum + e.len < e.pktNum) ∧ Apart es := by
  constructor
  · intro h
    obtain ⟨hfits, hes⟩ := List.forall_mem_cons.mp h.fits
    obtain ⟨hlt, hpair⟩ := List.pairwise_cons.mp h.pairwise
    exact ⟨hfits, hlt, hes, hpair⟩
  · rintro ⟨hfits, hlt, hes, hpair⟩
    exact ⟨List.forall_mem_cons.mpr ⟨hfits, hes⟩, List.pairwise_cons.mpr ⟨hlt, hpair⟩⟩

theorem apart_nil : Apart [] :=
  ⟨fun _ he => (nomatch he), List.Pairwise.nil⟩

theorem Apart.sublist {es es' : List Entry} (h : Apart es) (hs : es'.Sublist es) : Apart es' :=
  ⟨fun e he => h.fits e (hs.subset he), h.pairwise.sublist hs⟩

/-- The packet number is next to no entry. -/
def NotNext (pktNum : Nat) (es : List Entry) : Prop :=
  ∀ e ∈ es, e.pktNum + 1 ≠ pktNum ∧ e.pktNum ≠ pktNum + e.len

theorem insert_apart {pktNum ts : Nat} {es es' : List Entry} (h : insert ⟨pktNum, 1, ts⟩ es = some es')
    (hes : Descending es) (hapart : Apart es) (hnot : ¬Covered es pktNum) (hnext : NotNext pktNum es) : Apart es' := by
  induction es generalizing es' with
  | nil =>
      cases h
      exact apart_cons.mpr ⟨by simp only; omega, fun b hb => (nomatch hb), apart_nil⟩
  | cons e es ih =>
      obtain ⟨hpos, _, hrest⟩ := descending_cons.mp hes
      obtain ⟨hfits, hlt, hrest'⟩ := apart_cons.mp hapart
      rw [covered_cons, not_or, Entry.Covers] at hnot
      obtain ⟨hnext₁, hnext₂⟩ := List.forall_mem_cons.mp hnext
      rw [insert] at h
      split at h
      · rename_i hbelow
        obtain ⟨es₁, h₁, rfl⟩ := Option.map_eq_some_iff.mp h
        obtain ⟨es₂, h₂, hadds⟩ := @insert_adds pktNum ts _ hrest hnot.2
        cases h₁.symm.trans h₂
        refine apart_cons.mpr ⟨hfits, fun b hb => ?_, ih h₁ hrest hrest' hnot.2 hnext₂⟩
        rcases hadds.tops b hb with hb | ⟨a, ha, hb⟩
        · simp only at hbelow
          omega
        · rw [hb]
          exact hlt a ha
      · rename_i hge
        simp only at hge
        rw [if_neg (by simp only; omega)] at h
        cases h
        refine apart_cons.mpr ⟨by simp only; omega, fun b hb => ?_, hapart⟩
        simp only
        rcases List.mem_cons.mp hb with rfl | hb
        · omega
        · have hb := hlt b hb
          omega

theorem extend_apart {pktNum ts : Nat} {es : List Entry} {r : Option (List Entry)}
    (h : extend pktNum ts es = .ok r) (hes : Descending es) (hapart : Apart es) (hnot : ¬Covered es pktNum) :
    (∀ es' ∈ r, Apart es') ∧ (r = none → NotNext pktNum es) := by
  induction es generalizing r with
  | nil =>
      cases h
      exact ⟨fun es' hes' => absurd hes' (Option.not_mem_none es'), fun _ e he => absurd he List.not_mem_nil⟩
  | cons e es ih =>
      obtain ⟨hpos, hle, hrest⟩ := descending_cons.mp hes
      obtain ⟨hfits, hlt, hrest'⟩ := apart_cons.mp hapart
      rw [covered_cons, not_or] at hnot
      have he := hnot.1
      rw [Entry.Covers] at he
      rw [extend.eq_def] at h
      simp only at h
      split at h
      · rename_i hge
        rw [if_neg (by omega)] at h
        split at h
        · cases h
          refine ⟨fun es' hes' => ?_, fun hnone => absurd hnone (Option.some_ne_none _)⟩
          cases hes'
          refine apart_cons.mpr ⟨by simp only; omega, fun b hb => ?_, hrest'⟩
          have hb := hlt b hb
          simp only
          omega
        · cases h
          refine ⟨fun es' hes' => absurd hes' (Option.not_mem_none es'), fun _ b hb => ?_⟩
          rcases List.mem_cons.mp hb with rfl | hb
          · omega
          · have hb := hlt b hb
            omega
      · rename_i hgt
        cases es with
        | nil =>
            simp only at h
            rw [if_neg (by omega)] at h
            split at h
            · cases h
              refine ⟨fun es' hes' => ?_, fun hnone => absurd hnone (Option.some_ne_none _)⟩
              cases hes'
              exact apart_cons.mpr ⟨by simp only; omega, fun b hb => absurd hb List.not_mem_nil, apart_nil⟩
            · cases h
              refine ⟨fun es' hes' => absurd hes' (Option.not_mem_none es'), fun _ b hb => ?_⟩
              rw [List.mem_singleton.mp hb]
              omega
        | cons ent rest =>
            simp only at h
            have hent := hlt ent List.mem_cons_self
            obtain ⟨hpos', _, _⟩ := descending_cons.mp hrest
            obtain ⟨hfits', hlt', hrest''⟩ := apart_cons.mp hrest'
            have he' := hnot.2
            rw [covered_cons, not_or, Entry.Covers] at he'
            split at h
            · rw [if_neg (by omega), if_neg (by omega)] at h
              split at h
              · split at h
                · cases h
                  refine ⟨fun es' hes' => ?_, fun hnone => absurd hnone (Option.some_ne_none _)⟩
                  cases hes'
                  refine apart_cons.mpr ⟨by simp only; omega, fun b hb => ?_, hrest''⟩
                  have hb := hlt' b hb
                  simp only
                  omega
                · cases h
                  refine ⟨fun es' hes' => ?_, fun hnone => absurd hnone (Option.some_ne_none _)⟩
                  cases hes'
                  refine apart_cons.mpr ⟨hfits, fun b hb => ?_, apart_cons.mpr ⟨by simp only; omega, fun b hb => ?_, hrest''⟩⟩
                  · rcases List.mem_cons.mp hb with rfl | hb
                    · simp only
                      omega
                    · exact hlt b (List.mem_cons_of_mem _ hb)
                  · have hb := hlt' b hb
                    simp only
                    omega
              · split at h
                · cases h
                  refine ⟨fun es' hes' => ?_, fun hnone => absurd hnone (Option.some_ne_none _)⟩
                  cases hes'
                  refine apart_cons.mpr ⟨by simp only; omega, fun b hb => ?_, hrest'⟩
                  simp only
                  rcases List.mem_cons.mp hb with rfl | hb
                  · omega
                  · have hb := hlt' b hb
                    omega
                · cases h
                  refine ⟨fun es' hes' => absurd hes' (Option.not_mem_none es'), fun _ b hb => ?_⟩
                  rcases List.mem_cons.mp hb with rfl | hb
                  · omega
                  · rcases List.mem_cons.mp hb with rfl | hb
                    · omega
                    · have hb := hlt' b hb
                      omega
            · obtain ⟨r₁, hr₁, hadds⟩ := @extend_adds pktNum ts _ hrest hnot.2
              obtain ⟨hsome, hnone⟩ := ih hr₁ hrest hrest' hnot.2
              rw [hr₁] at h
              cases h
              refine ⟨fun es' hes' => ?_, fun hmap b hb => ?_⟩
              · obtain ⟨es₁, h₁, rfl⟩ := Option.map_eq_some_iff.mp hes'
                refine apart_cons.mpr ⟨hfits, fun b hb => ?_, hsome es₁ h₁⟩
                rcases (hadds es₁ h₁).tops b hb with hb | ⟨a, ha, hb⟩
                · omega
                · rw [hb]
                  exact hlt a ha
              · rcases List.mem_cons.mp hb with rfl | hb
                · omega
                · exact hnone (Option.map_eq_none_iff.mp hmap) b hb

theorem insert_length {ent : Entry} {es es' : List Entry} (h : insert ent es = some es') : es'.length = es.length + 1 := by
  induction es generalizing es' with
  | nil =>
      cases h
      rfl
  | cons e es ih =>
      rw [insert] at h
      split at h
      · obtain ⟨es₁, h₁, rfl⟩ := Option.map_eq_some_iff.mp h
        rw [List.length_cons, ih h₁, List.length_cons]
      · split at h
        · cases h
        · cases h
          rfl

theorem extend_length {pktNum ts : Nat} {es es' : List Entry} (h : extend pktNum ts es = .ok (some es')) :
    es'.length ≤ es.length := by
  fun_induction extend pktNum ts es generalizing es' with
  | case14 e hgt ent rest hgt' ih =>
      obtain ⟨r, hr, hmap⟩ := Lib.Run.bind_ok h
      cases r with
      | none => cases hmap
      | some es₁ =>
          cases hmap
          have := ih hr
          simp only [List.length_cons] at this ⊢
          omega
  | _ => cases h <;> simp
/-- Below a packet number with a gap behind it, the ranges are exactly the entries. -/
theorem ackRanges_valid {es : List Entry} (hes : Descending es) (hapart : Apart es) {low : Nat}
    (hlow : ∀ e ∈ es, e.pktNum + 2 ≤ low) (hmax : low ≤ maxPktNum) :
    validateRanges 0 low (ackRanges low es) = .ok () ∧ ∀ x, InRanges low (ackRanges low es) x → Covered es x := by
  induction es generalizing low with
  | nil => exact ⟨rfl, fun x hx => hx.elim⟩
  | cons e es ih =>
      obtain ⟨hpos, _, hrest⟩ := descending_cons.mp hes
      obtain ⟨hfits, hlt, hrest'⟩ := apart_cons.mp hapart
      have he := hlow e List.mem_cons_self
      have hgap : (low + 2 ^ 64 - e.pktNum - 2) % 2 ^ 64 = low - e.pktNum - 2 := by
        rw [maxPktNum] at hmax
        omega
      have hnext : (low : Int) - ((low - e.pktNum - 2 : Nat) + 2) - (e.len - 1 : Nat) = (e.pktNum - (e.len - 1) : Nat) := by
        omega
      have hnext' : (low : Int) - (low - e.pktNum - 2 : Nat) - 2 - (e.len - 1 : Nat) = (e.pktNum - (e.len - 1) : Nat) := by
        omega
      obtain ⟨hvalid, hcov⟩ := @ih hrest hrest' (e.pktNum - (e.len - 1))
        (fun b hb => by have := hlt b hb; omega) (by omega)
      constructor
      · rw [ackRanges, hgap, validateRanges]
        simp only
        rw [if_neg (by omega), if_neg (by omega), hnext, if_neg (by omega)]
        exact hvalid
      · intro x hx
        rw [ackRanges, hgap, InRanges] at hx
        simp only at hx
        rw [hnext'] at hx
        rw [covered_cons]
        rcases hx with hx | hx
        · left
          rw [Entry.Covers]
          omega
        · exact Or.inr (hcov x hx)

end Zngtcp2.PktnsRx
