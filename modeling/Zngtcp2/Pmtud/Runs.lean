import Zngtcp2.Buf
import Zngtcp2.Lib.Run

namespace Zngtcp2

/-- Path MTU discovery; the candidates are tried in turn, and `mtuIdx` is the index of the current one. -/
structure Pmtud where
  mtuIdx : Nat
  numPktsSent : Nat
  expiry : Nat
  txPktNum : Int
  maxUdpPayloadSize : Nat
  hardMaxUdpPayloadSize : Nat
  minFailUdpPayloadSize : Nat
  probes : List UInt16
  deriving DecidableEq, Repr

namespace Pmtud

inductive Stop
  | assertion
  | outOfBounds
  deriving DecidableEq, Repr

/-- `NGTCP2_PMTUD_PROBE_NUM_MAX` -/
def probeNumMax : Nat :=
  3

def defaultProbes : List UInt16 :=
  [1454 - 48, 1390 - 48, 1280 - 48, 1492 - 48]

/-- `pmtud->probes[i]` -/
def probeAt (probes : List UInt16) (i : Nat) : Except Stop Nat :=
  match probes[i]? with
  | some p => .ok p.toNat
  | none => .error .outOfBounds

/-- The loops over the candidates from `i` on, of which `n` are left: the first one that is wanted, or the
end of the list. -/
def findProbe (probes : List UInt16) (wanted : Nat → Bool) : Nat → Nat → Except Stop Nat
  | 0, i => .ok i
  | n + 1, i => do
      let p ← probeAt probes i
      if wanted p then .ok i else findProbe probes wanted n (i + 1)

/-- `ngtcp2_pmtud_new` -/
def new (maxUdpPayloadSize hardMaxUdpPayloadSize : Nat) (txPktNum : Int) (probes : List UInt16) : Except Stop Pmtud := do
  let probes := if probes.length ≠ 0 then probes else defaultProbes
  let mtuIdx ← findProbe probes (fun p => p ≤ hardMaxUdpPayloadSize && maxUdpPayloadSize < p) probes.length 0
  .ok ⟨mtuIdx, 0, uint64Max, txPktNum, maxUdpPayloadSize, hardMaxUdpPayloadSize, uint64Max, probes⟩

variable (pmtud : Pmtud)

/-- `ngtcp2_pmtud_finished` -/
def finished : Bool :=
  pmtud.probes.length ≤ pmtud.mtuIdx

/-- `ngtcp2_pmtud_probelen` -/
def probelen : Except Stop Nat :=
  if pmtud.mtuIdx < pmtud.probes.length then probeAt pmtud.probes pmtud.mtuIdx else .error .assertion

/-- `ngtcp2_pmtud_require_probe` -/
def requireProbe : Bool :=
  pmtud.expiry = uint64Max

def probeTimeout (pto : Nat) : Nat :=
  if pmtud.numPktsSent + 1 < probeNumMax then pto else 3 * pto

/-- `ngtcp2_pmtud_probe_sent` -/
def probeSent (pto ts : Nat) : Pmtud :=
  { pmtud with numPktsSent := pmtud.numPktsSent + 1, expiry := (ts + pmtud.probeTimeout pto) % 2 ^ 64 }

/-- `pmtud_next_probe` -/
def nextProbe : Except Stop Pmtud :=
  if pmtud.mtuIdx < pmtud.probes.length then do
    let i := pmtud.mtuIdx + 1
    let mtuIdx ← findProbe pmtud.probes
      (fun p => pmtud.maxUdpPayloadSize < p && p ≤ pmtud.hardMaxUdpPayloadSize && p < pmtud.minFailUdpPayloadSize)
      (pmtud.probes.length - i) i
    .ok { pmtud with mtuIdx := mtuIdx, numPktsSent := 0, expiry := uint64Max }
  else .error .assertion

/-- `ngtcp2_pmtud_probe_success` -/
def probeSuccess (payloadlen : Nat) : Except Stop Pmtud :=
  let pmtud := { pmtud with maxUdpPayloadSize := max pmtud.maxUdpPayloadSize payloadlen }
  if pmtud.mtuIdx < pmtud.probes.length then do
    let p ← probeAt pmtud.probes pmtud.mtuIdx
    if pmtud.maxUdpPayloadSize < p then .ok pmtud else pmtud.nextProbe
  else .error .assertion

/-- `ngtcp2_pmtud_handle_expiry` -/
def handleExpiry (ts : Nat) : Except Stop Pmtud :=
  if ts < pmtud.expiry then .ok pmtud
  else
    let pmtud := { pmtud with expiry := uint64Max }
    if pmtud.numPktsSent < probeNumMax then .ok pmtud
    else do
      let p ← probeAt pmtud.probes pmtud.mtuIdx
      { pmtud with minFailUdpPayloadSize := min pmtud.minFailUdpPayloadSize p }.nextProbe

end Pmtud

/-- The discovery of a connection, and the index of every probe that was sent, the last one first. -/
structure PmtudRun where
  pmtud : Pmtud
  sent : List Nat
  deriving DecidableEq, Repr

namespace PmtudRun

open Pmtud (Stop)

inductive Event
  | send (destlen pto ts : Nat)
  | acked (pktNum : Int) (payloadlen : Nat)
  | expire (ts : Nat)
  deriving DecidableEq, Repr

def start (maxUdpPayloadSize hardMaxUdpPayloadSize : Nat) (txPktNum : Int) (probes : List UInt16) :
    Except Stop PmtudRun := do
  let pmtud ← Pmtud.new maxUdpPayloadSize hardMaxUdpPayloadSize txPktNum probes
  .ok ⟨pmtud, []⟩

variable (s : PmtudRun)

/-- `conn_write_pmtud_probe`, where the packet is written. -/
def writeProbe (destlen pto ts : Nat) : Except Stop PmtudRun :=
  if s.pmtud.finished then .error .assertion
  else if !s.pmtud.requireProbe then .ok s
  else do
    let probelen ← s.pmtud.probelen
    if destlen < probelen then .ok s
    else .ok ⟨s.pmtud.probeSent pto ts, s.pmtud.mtuIdx :: s.sent⟩

/-- The part of `process_acked_pkt` that deals with a probe. -/
def ackProbe (pktNum : Int) (payloadlen : Nat) : Except Stop PmtudRun :=
  if s.pmtud.txPktNum ≤ pktNum then do
    let pmtud ← s.pmtud.probeSuccess payloadlen
    .ok { s with pmtud := pmtud }
  else .ok s

/-- The connection drops a discovery that has finished, so that nothing happens to it any more. -/
def step : Event → Except Stop PmtudRun
  | .send destlen pto ts => if s.pmtud.finished then .ok s else s.writeProbe destlen pto ts
  | .acked pktNum payloadlen => if s.pmtud.finished then .ok s else s.ackProbe pktNum payloadlen
  | .expire ts =>
      if s.pmtud.finished then .ok s
      else do
        let pmtud ← s.pmtud.handleExpiry ts
        .ok { s with pmtud := pmtud }

end PmtudRun

open Lib.Run

namespace Pmtud

theorem probeAt_ok {probes : List UInt16} {i : Nat} (h : i < probes.length) :
    probeAt probes i = .ok probes[i].toNat := by
  rw [probeAt, List.getElem?_eq_getElem h]

/-- The search stays in the list, and stops at a wanted candidate or behind the last one. -/
theorem findProbe_ok (probes : List UInt16) (wanted : Nat → Bool) {n i : Nat} (h : i + n = probes.length) :
    ∃ j, findProbe probes wanted n i = .ok j ∧ i ≤ j ∧ ∀ hj : j < probes.length, wanted probes[j].toNat = true := by
  induction n generalizing i with
  | zero => exact ⟨i, rfl, Nat.le_refl i, fun hj => absurd hj (by omega)⟩
  | succ n ih =>
      rw [findProbe, probeAt_ok (show i < probes.length by omega)]
      simp only [bind, Except.bind]
      by_cases hp : wanted probes[i].toNat = true
      · rw [if_pos hp]
        exact ⟨i, rfl, Nat.le_refl i, fun _ => hp⟩
      · rw [if_neg hp]
        obtain ⟨j, hfind, hle, hwanted⟩ := @ih (i + 1) (by omega)
        exact ⟨j, hfind, by omega, hwanted⟩

/-- The current candidate is larger than what is known to work, and smaller than what is known to fail. -/
structure Wf (pmtud : Pmtud) : Prop where
  lt_probe : ∀ h : pmtud.mtuIdx < pmtud.probes.length, pmtud.maxUdpPayloadSize < pmtud.probes[pmtud.mtuIdx].toNat
  probe_le : ∀ h : pmtud.mtuIdx < pmtud.probes.length, pmtud.probes[pmtud.mtuIdx].toNat ≤ pmtud.hardMaxUdpPayloadSize
  probe_lt : ∀ h : pmtud.mtuIdx < pmtud.probes.length, pmtud.probes[pmtud.mtuIdx].toNat < pmtud.minFailUdpPayloadSize

/-- After the last packet for a candidate there is a timer. -/
def Timed (pmtud : Pmtud) : Prop :=
  pmtud.numPktsSent < probeNumMax ∨ pmtud.numPktsSent = probeNumMax ∧ pmtud.expiry ≠ uint64Max

theorem finished_eq_false {pmtud : Pmtud} : pmtud.finished = false ↔ pmtud.mtuIdx < pmtud.probes.length := by
  simp [finished]

theorem new_ok (maxUdp hardMax : Nat) (txPktNum : Int) (probes : List UInt16) :
    ∃ pmtud, new maxUdp hardMax txPktNum probes = .ok pmtud ∧ pmtud.Wf ∧ pmtud.numPktsSent = 0 ∧
      pmtud.hardMaxUdpPayloadSize = hardMax := by
  obtain ⟨i, hfind, -, hwanted⟩ := findProbe_ok (if probes.length ≠ 0 then probes else defaultProbes)
    (fun p => p ≤ hardMax && maxUdp < p) (Nat.zero_add _)
  simp only [Bool.and_eq_true, decide_eq_true_eq] at hwanted
  refine ⟨⟨i, 0, uint64Max, txPktNum, maxUdp, hardMax, uint64Max, _⟩, ?_,
    ⟨fun h => (hwanted h).2, fun h => (hwanted h).1, fun h => ?_⟩, rfl, rfl⟩
  · rw [new, hfind]
    rfl
  · have hword : 2 ^ 16 ≤ uint64Max := by decide
    exact Nat.lt_of_lt_of_le (UInt16.toNat_lt _) hword

/-- The discovery goes on to a later candidate, or to the end. -/
structure Advances (pmtud pmtud' : Pmtud) : Prop where
  wf : pmtud'.Wf
  idx_lt : pmtud.mtuIdx < pmtud'.mtuIdx
  unsent : pmtud'.numPktsSent = 0
  max_eq : pmtud'.maxUdpPayloadSize = pmtud.maxUdpPayloadSize
  hardMax_eq : pmtud'.hardMaxUdpPayloadSize = pmtud.hardMaxUdpPayloadSize
  minFail_eq : pmtud'.minFailUdpPayloadSize = pmtud.minFailUdpPayloadSize

theorem nextProbe_ok (pmtud : Pmtud) (h : pmtud.mtuIdx < pmtud.probes.length) :
    ∃ pmtud', pmtud.nextProbe = .ok pmtud' ∧ Advances pmtud pmtud' := by
  obtain ⟨i, hfind, hlt, hwanted⟩ := findProbe_ok pmtud.probes (fun p => pmtud.maxUdpPayloadSize < p &&
    p ≤ pmtud.hardMaxUdpPayloadSize && p < pmtud.minFailUdpPayloadSize)
    (show pmtud.mtuIdx + 1 + (pmtud.probes.length - (pmtud.mtuIdx + 1)) = pmtud.probes.length by omega)
  simp only [Bool.and_eq_true, decide_eq_true_eq] at hwanted
  refine ⟨{ pmtud with mtuIdx := i, numPktsSent := 0, expiry := uint64Max }, ?_,
    ⟨⟨fun h => (hwanted h).1.1, fun h => (hwanted h).1.2, fun h => (hwanted h).2⟩, hlt, rfl, rfl, rfl, rfl⟩⟩
  rw [nextProbe, if_pos h]
  simp only [hfind, bind, Except.bind]

/-- What an event does to a discovery that goes on: it stays with the candidate, whose packets are still
counted, or it goes on to a later one. -/
structure Progress (pmtud pmtud' : Pmtud) : Prop where
  wf : pmtud'.Wf
  idx : pmtud'.mtuIdx = pmtud.mtuIdx ∧ pmtud'.numPktsSent = pmtud.numPktsSent ∧ (pmtud.Timed → pmtud'.Timed) ∨
    pmtud.mtuIdx < pmtud'.mtuIdx ∧ pmtud'.numPktsSent = 0
  max_le : pmtud.maxUdpPayloadSize ≤ pmtud'.maxUdpPayloadSize
  hardMax_eq : pmtud'.hardMaxUdpPayloadSize = pmtud.hardMaxUdpPayloadSize
  minFail_le : pmtud'.minFailUdpPayloadSize ≤ pmtud.minFailUdpPayloadSize

theorem probeSuccess_ok {pmtud : Pmtud} (hwf : pmtud.Wf) (h : pmtud.mtuIdx < pmtud.probes.length) (payloadlen : Nat) :
    ∃ pmtud', pmtud.probeSuccess payloadlen = .ok pmtud' ∧ Progress pmtud pmtud' := by
  rw [probeSuccess]
  simp only
  rw [if_pos h, probeAt_ok h]
  simp only [bind, Except.bind]
  by_cases hlarger : max pmtud.maxUdpPayloadSize payloadlen < pmtud.probes[pmtud.mtuIdx].toNat
  · rw [if_pos hlarger]
    exact ⟨_, rfl, ⟨fun _ => hlarger, hwf.probe_le, hwf.probe_lt⟩, Or.inl ⟨rfl, rfl, id⟩, Nat.le_max_left _ _, rfl,
      Nat.le_refl _⟩
  · rw [if_neg hlarger]
    obtain ⟨pmtud', hnext, hadv⟩ := nextProbe_ok { pmtud with
      maxUdpPayloadSize := max pmtud.maxUdpPayloadSize payloadlen } h
    refine ⟨pmtud', hnext, hadv.wf, Or.inr ⟨hadv.idx_lt, hadv.unsent⟩, ?_, hadv.hardMax_eq, Nat.le_of_eq hadv.minFail_eq⟩
    rw [hadv.max_eq]
    exact Nat.le_max_left _ _

theorem handleExpiry_ok {pmtud : Pmtud} (hwf : pmtud.Wf) (h : pmtud.mtuIdx < pmtud.probes.length) (ts : Nat) :
    ∃ pmtud', pmtud.handleExpiry ts = .ok pmtud' ∧ Progress pmtud pmtud' := by
  rw [handleExpiry]
  by_cases hts : ts < pmtud.expiry
  · rw [if_pos hts]
    exact ⟨pmtud, rfl, hwf, Or.inl ⟨rfl, rfl, id⟩, Nat.le_refl _, rfl, Nat.le_refl _⟩
  rw [if_neg hts]
  simp only
  by_cases hsent : pmtud.numPktsSent < probeNumMax
  · rw [if_pos hsent]
    exact ⟨_, rfl, ⟨hwf.lt_probe, hwf.probe_le, hwf.probe_lt⟩, Or.inl ⟨rfl, rfl, fun _ => Or.inl hsent⟩, Nat.le_refl _, rfl,
      Nat.le_refl _⟩
  · rw [if_neg hsent, probeAt_ok h]
    simp only [bind, Except.bind]
    obtain ⟨pmtud', hnext, hadv⟩ := nextProbe_ok { pmtud with
      expiry := uint64Max, minFailUdpPayloadSize := min pmtud.minFailUdpPayloadSize pmtud.probes[pmtud.mtuIdx].toNat } h
    refine ⟨pmtud', hnext, hadv.wf, Or.inr ⟨hadv.idx_lt, hadv.unsent⟩, Nat.le_of_eq hadv.max_eq.symm, hadv.hardMax_eq, ?_⟩
    rw [hadv.minFail_eq]
    exact Nat.min_le_left _ _

end Pmtud

namespace PmtudRun

open Pmtud (Wf Timed Progress probeNumMax finished_eq_false)

/-- The timer that a probe would start is not the largest word, which means that there is none. -/
def Allowed (s : PmtudRun) : Event → Prop
  | .send _ pto ts => (ts + s.pmtud.probeTimeout pto) % 2 ^ 64 ≠ uint64Max
  | _ => True

instance (s : PmtudRun) (e : Event) : Decidable (s.Allowed e) :=
  match e with
  | .send .. => inferInstanceAs (Decidable (_ ≠ _))
  | .acked .. | .expire .. => .isTrue trivial

/-- The packets of the current candidate are counted, and none was sent more often than allowed. -/
structure Counted (s : PmtudRun) : Prop where
  wf : s.pmtud.Wf
  timed : s.pmtud.Timed
  current : s.sent.count s.pmtud.mtuIdx = s.pmtud.numPktsSent
  sent_le : ∀ i ∈ s.sent, i ≤ s.pmtud.mtuIdx
  count_le : ∀ i, s.sent.count i ≤ probeNumMax

/-- What no event takes back. -/
structure Grows (s s' : PmtudRun) : Prop where
  idx_le : s.pmtud.mtuIdx ≤ s'.pmtud.mtuIdx
  max_le : s.pmtud.maxUdpPayloadSize ≤ s'.pmtud.maxUdpPayloadSize
  hardMax_eq : s'.pmtud.hardMaxUdpPayloadSize = s.pmtud.hardMaxUdpPayloadSize
  minFail_le : s'.pmtud.minFailUdpPayloadSize ≤ s.pmtud.minFailUdpPayloadSize

theorem Grows.refl (s : PmtudRun) : Grows s s :=
  ⟨Nat.le_refl _, Nat.le_refl _, rfl, Nat.le_refl _⟩

theorem Grows.trans {s s' s'' : PmtudRun} (h : Grows s s') (h' : Grows s' s'') : Grows s s'' :=
  ⟨Nat.le_trans h.idx_le h'.idx_le, Nat.le_trans h.max_le h'.max_le, h'.hardMax_eq.trans h.hardMax_eq,
    Nat.le_trans h'.minFail_le h.minFail_le⟩

theorem Counted.progress {s : PmtudRun} (h : Counted s) {pmtud : Pmtud} (hp : Progress s.pmtud pmtud) :
    Counted { s with pmtud := pmtud } ∧ Grows s { s with pmtud := pmtud } := by
  obtain ⟨hidx, hsent, htimed⟩ | ⟨hidx, hsent⟩ := hp.idx
  · refine ⟨⟨hp.wf, htimed h.timed, ?_, ?_, h.count_le⟩, Nat.le_of_eq hidx.symm, hp.max_le, hp.hardMax_eq, hp.minFail_le⟩
    · simp only [hidx, hsent, h.current]
    · simp only [hidx]
      exact h.sent_le
  · have hnone : pmtud.mtuIdx ∉ s.sent := fun hmem => absurd (h.sent_le _ hmem) (Nat.not_le.mpr hidx)
    refine ⟨⟨hp.wf, Or.inl ?_, ?_, ?_, h.count_le⟩, Nat.le_of_lt hidx, hp.max_le, hp.hardMax_eq, hp.minFail_le⟩
    · simp only [hsent]
      decide
    · simp only [hsent]
      exact List.count_eq_zero.mpr hnone
    · intro i hi
      exact Nat.le_trans (h.sent_le i hi) (Nat.le_of_lt hidx)

theorem writeProbe_ok {s : PmtudRun} (h : Counted s) (hlt : s.pmtud.mtuIdx < s.pmtud.probes.length) {pto ts : Nat}
    (hts : (ts + s.pmtud.probeTimeout pto) % 2 ^ 64 ≠ uint64Max) (destlen : Nat) :
    ∃ s', s.writeProbe destlen pto ts = .ok s' ∧ Counted s' ∧ Grows s s' := by
  rw [writeProbe, finished_eq_false.mpr hlt, if_neg Bool.false_ne_true]
  by_cases hreq : s.pmtud.requireProbe = true
  · have hexpiry : s.pmtud.expiry = uint64Max := by simpa [Pmtud.requireProbe] using hreq
    simp only [hreq, Bool.not_true, Bool.false_eq_true, if_false, Pmtud.probelen, if_pos hlt, Pmtud.probeAt_ok hlt, bind,
      Except.bind]
    split
    · exact ⟨s, rfl, h, Grows.refl s⟩
    · have hless : s.pmtud.numPktsSent < probeNumMax := by
        obtain hless | ⟨-, hne⟩ := h.timed
        · exact hless
        · exact absurd hexpiry hne
      refine ⟨_, rfl, ⟨⟨h.wf.lt_probe, h.wf.probe_le, h.wf.probe_lt⟩, ?_, ?_, ?_, ?_⟩,
        Nat.le_refl _, Nat.le_refl _, rfl, Nat.le_refl _⟩
      · obtain hlt' | heq := Nat.lt_or_eq_of_le (Nat.succ_le_of_lt hless)
        · exact Or.inl hlt'
        · exact Or.inr ⟨heq, hts⟩
      · simp only [Pmtud.probeSent, List.count_cons_self, h.current]
      · intro i hi
        obtain rfl | hi := List.mem_cons.mp hi
        · exact Nat.le_refl _
        · exact h.sent_le i hi
      · intro i
        by_cases hi : i = s.pmtud.mtuIdx
        · rw [hi, List.count_cons_self, h.current]
          exact hless
        · rw [List.count_cons_of_ne (Ne.symm hi)]
          exact h.count_le i
  · simp only [hreq, Bool.not_false, if_true]
    exact ⟨s, rfl, h, Grows.refl s⟩

theorem step_ok (s : PmtudRun) (e : Event) (h : Counted s) (ha : s.Allowed e) :
    ∃ s', s.step e = .ok s' ∧ Counted s' ∧ Grows s s' := by
  by_cases hfin : s.pmtud.finished = true
  · refine ⟨s, ?_, h, Grows.refl s⟩
    cases e with
    | send | acked | expire => simp only [step, hfin, if_true]
  · have hlt := finished_eq_false.mp (Bool.eq_false_iff.mpr hfin)
    cases e with
    | send destlen pto ts =>
        rw [step, if_neg hfin]
        exact writeProbe_ok h hlt ha destlen
    | acked pktNum payloadlen =>
        rw [step, if_neg hfin, ackProbe]
        split
        · obtain ⟨pmtud, hrun, hp⟩ := Pmtud.probeSuccess_ok h.wf hlt payloadlen
          rw [hrun]
          exact ⟨_, rfl, h.progress hp⟩
        · exact ⟨s, rfl, h, Grows.refl s⟩
    | expire ts =>
        rw [step, if_neg hfin]
        obtain ⟨pmtud, hrun, hp⟩ := Pmtud.handleExpiry_ok h.wf hlt ts
        rw [hrun]
        exact ⟨_, rfl, h.progress hp⟩

theorem start_ok (maxUdp hardMax : Nat) (txPktNum : Int) (probes : List UInt16) :
    ∃ s, start maxUdp hardMax txPktNum probes = .ok s ∧ Counted s ∧ s.pmtud.hardMaxUdpPayloadSize = hardMax := by
  obtain ⟨pmtud, hnew, hwf, hsent, hmax⟩ := Pmtud.new_ok maxUdp hardMax txPktNum probes
  refine ⟨⟨pmtud, []⟩, ?_, ⟨hwf, Or.inl ?_, ?_, by simp, by simp⟩, hmax⟩
  · rw [start, hnew]
    rfl
  · rw [hsent]
    decide
  · simp [hsent]

theorem run_ok {s : PmtudRun} (h : Counted s) {es : List Event} (ha : Guarded step Allowed s es) :
    ∃ s', run step s es = .ok s' ∧ Counted s' ∧ Grows s s' := by
  have hstep : ∀ s₁ e, Counted s₁ ∧ Grows s s₁ → Allowed s₁ e → ∃ s₂, step s₁ e = .ok s₂ ∧ Counted s₂ ∧ Grows s s₂ := by
    rintro s₁ e ⟨h₁, hgrows⟩ ha
    obtain ⟨s₂, hstep, h₂, hgrows'⟩ := step_ok s₁ e h₁ ha
    exact ⟨s₂, hstep, h₂, hgrows.trans hgrows'⟩
  exact run_invariant hstep ⟨h, Grows.refl s⟩ ha

/-- The current candidate `p` is one that is worth a try. -/
def Probing (s : PmtudRun) (hardMax : Nat) : Prop :=
  ∃ p, s.pmtud.probes[s.pmtud.mtuIdx]? = some p ∧ s.pmtud.maxUdpPayloadSize < p.toNat ∧ p.toNat ≤ hardMax ∧
    p.toNat < s.pmtud.minFailUdpPayloadSize

/-- No event of a run reads behind the list of candidates or fails an assertion; until the discovery has
finished there is a candidate that is worth a try; what is known grows; and no candidate is sent more often
than allowed. -/
theorem run_probes (maxUdp hardMax : Nat) (txPktNum : Int) (probes : List UInt16) :
    ∃ s₀, start maxUdp hardMax txPktNum probes = .ok s₀ ∧
      ∀ es es', Guarded step Allowed s₀ (es ++ es') →
        ∃ s s', run step s₀ es = .ok s ∧ run step s₀ (es ++ es') = .ok s' ∧
          (s'.pmtud.finished = false → s'.Probing hardMax) ∧
          s.pmtud.mtuIdx ≤ s'.pmtud.mtuIdx ∧ s.pmtud.maxUdpPayloadSize ≤ s'.pmtud.maxUdpPayloadSize ∧
          s'.pmtud.minFailUdpPayloadSize ≤ s.pmtud.minFailUdpPayloadSize ∧
          ∀ i, s'.sent.count i ≤ probeNumMax := by
  obtain ⟨s₀, hstart, hs₀, hmax⟩ := start_ok maxUdp hardMax txPktNum probes
  refine ⟨s₀, hstart, fun es es' ha => ?_⟩
  obtain ⟨s', hrun', hs', hgrows₀⟩ := run_ok hs₀ ha
  have hrun := run_append step s₀ es es'
  rw [hrun'] at hrun
  cases hes : run step s₀ es with
  | error e =>
      rw [hes] at hrun
      cases hrun
  | ok s =>
      rw [hes] at hrun
      obtain ⟨ha, ha'⟩ := ha.of_append hes
      obtain ⟨s₁, hrun₁, hs, -⟩ := run_ok hs₀ ha
      rw [hes, Except.ok.injEq] at hrun₁
      subst hrun₁
      obtain ⟨s₂, hrun₂, -, hgrows⟩ := run_ok hs ha'
      simp only [hrun₂, Except.ok.injEq] at hrun
      subst hrun
      refine ⟨s, s', rfl, hrun', fun hfin => ?_, hgrows.idx_le, hgrows.max_le, hgrows.minFail_le, hs'.count_le⟩
      have hlt := finished_eq_false.mp hfin
      refine ⟨_, List.getElem?_eq_getElem hlt, hs'.wf.lt_probe hlt, ?_, hs'.wf.probe_lt hlt⟩
      have hle := hs'.wf.probe_le hlt
      rwa [hgrows₀.hardMax_eq, hmax] at hle

/-- The default candidates for a path on which 1452 bytes are possible. -/
def first : PmtudRun :=
  ⟨⟨0, 0, uint64Max, 0, 1200, 1452, uint64Max, Pmtud.defaultProbes⟩, []⟩

theorem start_first : start 1200 1452 0 [] = .ok first := by
  decide

/-- The first candidate is abandoned after three packets; then a late acknowledgement of one of them skips
all candidates up to it, and nothing is left to try. -/
theorem run_probes_late :
    ∃ s s', run step first [.send 1500 1 0, .expire 1, .send 1500 1 1, .expire 2, .send 1500 1 2, .expire 5] = .ok s ∧
      run step first ([.send 1500 1 0, .expire 1, .send 1500 1 1, .expire 2, .send 1500 1 2, .expire 5] ++
        [.send 1500 1 6, .acked 0 1406]) = .ok s' ∧
      (s'.pmtud.finished = false → s'.Probing 1452) ∧
      s.pmtud.mtuIdx ≤ s'.pmtud.mtuIdx ∧ s.pmtud.maxUdpPayloadSize ≤ s'.pmtud.maxUdpPayloadSize ∧
      s'.pmtud.minFailUdpPayloadSize ≤ s.pmtud.minFailUdpPayloadSize ∧ ∀ i, s'.sent.count i ≤ probeNumMax := by
  obtain ⟨s₀, hstart, hrun⟩ := run_probes 1200 1452 0 []
  rw [start_first, Except.ok.injEq] at hstart
  subst hstart
  exact hrun _ _ (by decide)

def Event.ts : Event → Option Nat
  | .send _ _ ts => some ts
  | .acked _ _ => none
  | .expire ts => some ts

/-- The timer after the third packet would be the largest word, which stands for no timer at all: a fourth
packet is sent. -/
def fourth : List Event :=
  [.send 1500 1 0, .expire 1, .send 1500 1 1, .expire 3, .send 1500 6148914691236517204 3, .send 1500 1 3]

theorem fourth_sent :
    ¬ ∀ maxUdp hardMax txPktNum probes es s₀ s, start maxUdp hardMax txPktNum probes = .ok s₀ →
      (es.filterMap Event.ts).Pairwise (· ≤ ·) → run step s₀ es = .ok s → ∀ i, s.sent.count i ≤ probeNumMax := by
  intro h
  have hcount := h 1200 1452 0 [] fourth first
    ⟨⟨0, 4, 6, 0, 1200, 1452, uint64Max, Pmtud.defaultProbes⟩, [0, 0, 0, 0]⟩ start_first (by decide) (by decide) 0
  exact absurd hcount (by decide)

end PmtudRun

end Zngtcp2
