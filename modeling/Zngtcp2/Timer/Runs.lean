import Zngtcp2.Timer.Steps

namespace Zngtcp2.Timer

open Lib.Run
open ScidPool (tstampElapsed)

namespace Conn

variable {c c' : Conn} {ts : Nat}

/-- The components of the expiry beside the loss detection timer. -/
def timers (c : Conn) : List Nat :=
  [c.ackDelayExpiry, c.pvExpiry, c.pmtudExpiry, c.scidExpiry, c.retiredDcidExpiry, c.boundDcidExpiry, c.earlyExpiry,
    c.lostPktExpiry, c.keepAlive.expiry c.handshakeCompleted, c.handshakeExpiry, c.getIdleExpiry, c.pacing.nextTs]

theorem lt_getExpiry2_iff : ts < c.getExpiry2 ↔ ts < c.lossDetectionTimer ∧ ∀ t ∈ c.timers, ts < t := by
  simp only [getExpiry2, internalExpiry, timers, Nat.lt_min, List.forall_mem_cons, List.not_mem_nil, false_implies,
    implies_true, and_true]
  tauto

/-- What holds of every connection that a run reaches. -/
structure Inv (c : Conn) : Prop where
  spaces : SpacesOk c.lastTs c
  pmtud : ∀ pmtud ∈ c.pmtud, pmtud.finished = false
  dcids : DcidsTimed c.currentCidlen c.dcidtr

/-- The connection after `ngtcp2_conn_handle_expiry` before its expiry. -/
def quieted (c : Conn) (ts : Nat) : Conn :=
  { c with
    lastTs := ts
    inPktns := c.inPktns.map fun s => { s with acktr := s.acktr.cancelExpired 0 ts }
    hsPktns := c.hsPktns.map fun s => { s with acktr := s.acktr.cancelExpired 0 ts }
    keepAlive := if c.handshakeCompleted then c.keepAlive else c.keepAlive.cancelExpired ts }

theorem SpacesOk.of_rtbs {now : Nat} (h : SpacesOk now c) (hle : now ≤ ts)
    (hrtb : ∀ id, (c'.space id).map Space.rtb = (c.space id).map Space.rtb) : SpacesOk ts c' := by
  intro id s' hs'
  have hmem : s'.rtb ∈ (c.space id).map Space.rtb := hrtb id ▸ Option.mem_map_of_mem Space.rtb hs'
  obtain ⟨s, hs, heq⟩ := Option.mem_map.mp hmem
  obtain ⟨hinv, haged⟩ := h id s hs
  exact heq ▸ ⟨hinv, haged.mono hle⟩

theorem rtbs_quieted (c : Conn) (ts : Nat) (id : SpaceId) :
    ((c.quieted ts).space id).map Space.rtb = (c.space id).map Space.rtb := by
  cases id with
  | initial => exact Option.map_map ..
  | handshake => exact Option.map_map ..
  | application => rfl

theorem rtbs_cancelExpiredTimers (c : Conn) (ts : Nat) (id : SpaceId) :
    ((c.cancelExpiredTimers ts).space id).map Space.rtb = (c.space id).map Space.rtb := by
  cases id with
  | initial => exact Option.map_map ..
  | handshake => exact Option.map_map ..
  | application => rfl

theorem cancelExpiredTimers_quiet (hts : ts < uint64Max) (hack : ts < c.ackDelayExpiry)
    (hkeep : ts < c.keepAlive.expiry c.handshakeCompleted) (hpacing : ts < c.pacing.nextTs) :
    ({ c with lastTs := ts } : Conn).cancelExpiredTimers ts = c.quieted ts := by
  have hacktr : c.pktns.acktr.cancelExpired c.computeAckDelay ts = c.pktns.acktr := AckTimer.cancelExpired_quiet hack
  have hkeepAlive : c.keepAlive.cancelExpired ts =
      if c.handshakeCompleted then c.keepAlive else c.keepAlive.cancelExpired ts := by
    cases hc : c.handshakeCompleted with
    | true =>
        rw [hc] at hkeep
        exact KeepAlive.cancelExpired_quiet hkeep hts
    | false => rfl
  rw [quieted, ← hkeepAlive]
  change ({ c with
    lastTs := ts
    inPktns := c.inPktns.map fun s => { s with acktr := s.acktr.cancelExpired 0 ts }
    hsPktns := c.hsPktns.map fun s => { s with acktr := s.acktr.cancelExpired 0 ts }
    pktns := { c.pktns with acktr := c.pktns.acktr.cancelExpired c.computeAckDelay ts }
    keepAlive := c.keepAlive.cancelExpired ts
    pacing := c.pacing.cancelExpired ts } : Conn) = _
  rw [hacktr, Pacing.cancelExpired_quiet hpacing]

theorem lostPktExpiry_quieted (c : Conn) (ts : Nat) : (c.quieted ts).lostPktExpiry = c.lostPktExpiry := by
  simp only [lostPktExpiry, quieted, Option.map_map]
  rfl

theorem handshakeTimedOut_eq_false (hts : ts < uint64Max) : c.handshakeTimedOut ts = false ↔ ts < c.handshakeExpiry := by
  rw [handshakeTimedOut, handshakeExpiry]
  cases htls : c.tlsHandshakeCompleted with
  | true => simp [hts]
  | false =>
      simp only [tstampElapsed, Bool.not_false, Bool.true_and, Bool.false_or, Bool.or_eq_true, decide_eq_true_eq,
        Bool.and_eq_false_iff, decide_eq_false_iff_not]
      split
      · omega
      · omega

/-- Before its expiry the connection does nothing but cancel the ACK timers of the Initial and Handshake packets and, as
long as the handshake has not completed, the keep-alive timer. -/
theorem handleExpiry_quiet (h : Inv c) (env : LossEnv) (hle : c.lastTs ≤ ts) (hts : ts < uint64Max)
    (hppe : c.ppePending = false) (hlt : ts < c.getExpiry2) : c.handleExpiry env ts = .ok (c.quieted ts) := by
  obtain ⟨hloss, htimers⟩ := lt_getExpiry2_iff.mp hlt
  simp only [timers, List.forall_mem_cons] at htimers
  obtain ⟨hack, hpv, hpmtud, hscid, hretired, hbound, hearly, hlost, hkeep, hhandshake, hidle, hpacing, -⟩ := htimers
  have hremove : (c.quieted ts).removeLostPkt ts = .ok (c.quieted ts) := by
    apply removeLostPkt_quiet (h.spaces.of_rtbs hle (rtbs_quieted c ts)) hts
    rwa [lostPktExpiry_quieted]
  have hvalidation : (c.quieted ts).cancelExpiredPvTimer ts = c.quieted ts := by
    have hpvs : c.pv.map (·.cancelExpiredTimer ts) = c.pv := by
      rw [pvExpiry] at hpv
      cases hp : c.pv with
      | none => rfl
      | some pv =>
          rw [hp] at hpv
          exact congrArg some (Pv.cancelExpiredTimer_quiet hpv)
    change ({ c.quieted ts with pv := c.pv.map (·.cancelExpiredTimer ts) } : Conn) = _
    rw [hpvs]
    rfl
  have hprobe : (c.quieted ts).handlePmtudExpiry ts = .ok (c.quieted ts) := handlePmtudExpiry_quiet h.pmtud hpmtud
  have hdetect : (c.quieted ts).handleLossDetectionExpiry env ts = .ok (c.quieted ts) := by
    have hlater : ¬(c.quieted ts).lossDetectionTimer ≤ ts := Nat.not_le.mpr hloss
    rw [handleLossDetectionExpiry, if_neg hlater]
  have hstale : (c.quieted ts).retireStaleBoundDcid (3 * c.appPto) ts = .ok (c.quieted ts) :=
    @retireStaleBoundDcid_quiet (c.quieted ts) ts h.dcids hts hbound
  have hids : (c.quieted ts).removeRetiredConnectionId c.appPto ts = .ok (c.quieted ts) :=
    @removeRetiredConnectionId_quiet (c.quieted ts) ts h.dcids hts hscid hretired
  have hkey : (c.quieted ts).discardStaleEarlyKey (3 * c.appPto) ts = c.quieted ts :=
    @discardStaleEarlyKey_quiet (c.quieted ts) ts hearly
  have htimeout : (c.quieted ts).handshakeTimedOut ts = false := (handshakeTimedOut_eq_false hts).mpr hhandshake
  rw [handleExpiry, if_neg (Nat.not_lt.mpr hle), if_neg (Bool.eq_false_iff.mp hppe), if_neg (Nat.not_le.mpr hidle), handleTimers,
    cancelExpiredTimers_quiet hts hack hkeep hpacing, hremove]
  simp only [bind, Except.bind, hvalidation, hprobe, hdetect, hstale, hids, hkey, htimeout, Bool.false_eq_true, if_false]

/-- What no timer changes. -/
def fixed (c : Conn) : Nat × Bool × Local × Option RemoteParams × Bool × Bool × Nat × Nat :=
  (c.lastTs, c.server, c.settings, c.remote, c.tlsHandshakeCompleted, c.handshakeCompleted, c.currentCidlen, c.idleTs)

/-- What the timers have done at `ts` where the PTO was `pto`. -/
structure Handled (pto ts : Nat) (c c' : Conn) : Prop where
  fixed : c'.fixed = c.fixed
  acktr : c'.pktns.acktr = c.pktns.acktr.cancelExpired c.computeAckDelay ts
  spaces : SpacesOk ts c → SpacesOk ts c' ∧ SpacesFresh c.pto ts c'
  pv : c'.pv = c.pv.map (·.cancelExpiredTimer ts)
  pmtud : ts < c'.pmtudExpiry
  unfinished : (∀ pmtud ∈ c.pmtud, pmtud.finished = false) → ∀ pmtud ∈ c'.pmtud, pmtud.finished = false
  scid : ∀ scid ∈ ScidPool.pqTop c'.scid.usedScids, scid.retiredTs ≠ uint64Max → ts < scid.retiredTs + pto
  bound : c.currentCidlen ≠ 0 → c'.dcidtr.earliestBoundTs ≠ uint64Max → ts < c'.dcidtr.earliestBoundTs + 3 * pto
  retired : c'.dcidtr.earliestRetiredTs ≠ uint64Max → ts < c'.dcidtr.earliestRetiredTs + pto
  bound_subset : c'.dcidtr.bound ⊆ c.dcidtr.bound
  retired_subset : c'.dcidtr.retired ⊆ c.dcidtr.retired
  early : c'.server = true → c'.early.ckm = true → c'.early.discardStartedTs ≠ uint64Max →
    ts < c'.early.discardStartedTs + 3 * pto
  keepAlive : c'.keepAlive = c.keepAlive.cancelExpired ts
  pacing : c'.pacing = c.pacing.cancelExpired ts
  handshake : c'.handshakeTimedOut ts = false

theorem handleLossDetectionExpiry_ok {env : LossEnv} (hrun : c.handleLossDetectionExpiry env ts = .ok c') :
    c' = { c with
      inPktns := c'.inPktns, hsPktns := c'.hsPktns, pktns := c'.pktns, rtt := c'.rtt, ptoCount := c'.ptoCount
      lossDetectionTimer := c'.lossDetectionTimer } ∧
      ∀ id, ∀ s' ∈ c'.space id, ∃ s ∈ c.space id, Detects ts s s' := by
  rw [handleLossDetectionExpiry] at hrun
  split at hrun
  · exact onLossDetectionTimer_ok hrun
  · cases hrun
    exact ⟨rfl, fun id s hs => ⟨s, hs, .refl s⟩⟩

theorem handleTimers_ok {env : LossEnv} {pto : Nat} (hts : ts < uint64Max) (hrun : c.handleTimers env pto ts = .ok c') :
    Handled pto ts c c' := by
  obtain ⟨c₁, hremove, hrun⟩ := bind_ok hrun
  obtain ⟨c₂, hprobe, hrun⟩ := bind_ok hrun
  obtain ⟨c₃, hdetect, hrun⟩ := bind_ok hrun
  obtain ⟨c₄, hstale, hrun⟩ := bind_ok hrun
  obtain ⟨c₅, hids, hrun⟩ := bind_ok hrun
  simp only at hrun
  split at hrun
  · cases hrun
  rename_i hhandshake
  cases hrun
  have hclean : SpacesOk ts (c.cancelExpiredTimers ts) → SpacesOk ts c₁ ∧ SpacesFresh c.pto ts c₁ := fun h =>
    @removeLostPkt_spaces (c.cancelExpiredTimers ts) c₁ ts h hts hremove
  obtain ⟨⟨inPktns, hsPktns, pktns, rfl⟩, hremoved⟩ := removeLostPkt_ok hremove
  obtain ⟨h₂, hpmtud, hunfinished⟩ := handlePmtudExpiry_ok hts hprobe
  obtain ⟨h₃, hdetected⟩ := handleLossDetectionExpiry_ok hdetect
  obtain ⟨h₄, hbound, hretired, hlater⟩ := retireStaleBoundDcid_ok hts hstale
  obtain ⟨h₅, hscid⟩ := removeRetiredConnectionId_ok hts hids
  obtain ⟨h₆, hearly⟩ := @discardStaleEarlyKey_ok c₅ ts (3 * pto) hts
  generalize c₅.discardStaleEarlyKey (3 * pto) ts = c₆ at h₆ hearly hhandshake ⊢
  have hacktr : c₃.pktns.acktr = c.pktns.acktr.cancelExpired c.computeAckDelay ts := by
    obtain ⟨s, hs, hsame, -⟩ := hdetected .application c₃.pktns rfl
    rw [h₂] at hs
    obtain ⟨s₁, hs₁, hstep⟩ := hremoved .application s hs
    rw [hsame, (Space.removeExpiredLostPkt_step hstep).1]
    cases hs₁
    rfl
  have hspaces : SpacesOk ts c → SpacesOk ts c₃ ∧ SpacesFresh c.pto ts c₃ := by
    intro hok
    obtain ⟨hok₁, hfresh₁⟩ := hclean (hok.of_rtbs (Nat.le_refl ts) (rtbs_cancelExpiredTimers c ts))
    have hdetected₂ : ∀ id, ∀ s' ∈ c₃.space id, ∃ s ∈ ({ c.cancelExpiredTimers ts with
        inPktns := inPktns, hsPktns := hsPktns, pktns := pktns } : Conn).space id, Detects ts s s' := by
      rw [h₂] at hdetected
      exact hdetected
    exact ⟨detects_spacesOk hok₁ hdetected₂, detects_spacesFresh hok₁ hfresh₁ c.pto_pos hdetected₂⟩
  have hdtr : c₆.dcidtr = c₄.dcidtr.removeStaleRetiredDcid pto ts := by
    rw [h₆, h₅]
  have hdtr₀ : c₃.dcidtr = c.dcidtr := by
    rw [h₃, h₂]
    rfl
  refine ⟨?_, ?_, ?_, ?_, ?_, ?_, ?_, ?_, ?_, ?_, ?_, ?_, ?_, ?_, Bool.eq_false_iff.mpr hhandshake⟩
  · rw [h₆, h₅, h₄, h₃, h₂]
    rfl
  · rw [h₆, h₅, h₄]
    exact hacktr
  · rw [h₆, h₅, h₄]
    exact hspaces
  · rw [h₆, h₅, h₄, h₃, h₂]
    rfl
  · rw [h₆, h₅, h₄, h₃]
    exact hpmtud
  · rw [h₆, h₅, h₄, h₃]
    exact hunfinished
  · rw [h₆]
    exact hscid
  · rw [hdtr]
    intro hne
    apply hlater
    rw [h₃, h₂]
    exact hne
  · rw [hdtr]
    exact Dcidtr.removeStaleRetiredDcid_later c₄.dcidtr hts
  · rw [hdtr]
    exact hdtr₀ ▸ hbound
  · rw [hdtr, ← hdtr₀, ← hretired]
    exact List.dropWhile_subset _
  · have hserver : c₆.server = c₅.server := by rw [h₆]
    rw [hserver]
    exact hearly
  · rw [h₆, h₅, h₄, h₃, h₂]
    rfl
  · rw [h₆, h₅, h₄, h₃, h₂]
    rfl

theorem handleExpiry_ok {env : LossEnv} (hts : ts < uint64Max) (hrun : c.handleExpiry env ts = .ok c') :
    c.lastTs ≤ ts ∧ ts < c.getIdleExpiry ∧ Handled c.appPto ts { c with lastTs := ts } c' := by
  rw [handleExpiry] at hrun
  split_ifs at hrun with hlast hppe hidle
  exact ⟨Nat.not_lt.mp hlast, Nat.not_le.mp hidle, handleTimers_ok hts hrun⟩

/-- What the timers have done leaves no timer that has expired. -/
theorem handleExpiry_later {env : LossEnv} (h : Inv c) (hts : ts < uint64Max) (hrun : c.handleExpiry env ts = .ok c')
    (hrtt : c'.rtt = c.rtt) : ∀ t ∈ c'.timers, ts < t := by
  obtain ⟨hle, hidle, hdone⟩ := handleExpiry_ok hts hrun
  have hfixed := hdone.fixed
  simp only [fixed, Prod.mk.injEq] at hfixed
  obtain ⟨-, hserver, hsettings, hremote, htls, hcompleted, hcidlen, hidleTs⟩ := hfixed
  have happ : c'.appPto = c.appPto := by
    rw [appPto, appPto, computePto, computePto, hrtt, hremote]
  have hhs : c'.hsPto = c.hsPto := by
    rw [hsPto, hsPto, computePto, computePto, hrtt]
  have hpto : c'.pto = c.pto := by
    funext id
    cases id with
    | initial => exact hhs
    | handshake => exact hhs
    | application => exact happ
  have hok : SpacesOk ts ({ c with lastTs := ts } : Conn) := h.spaces.of_rtbs hle fun _ => rfl
  have hsame : c'.getIdleExpiry = c.getIdleExpiry := by
    have htimeout : c'.idleTimeout = c.idleTimeout := by
      rw [idleTimeout, idleTimeout, htls, hremote, hsettings]
    rw [getIdleExpiry, getIdleExpiry, htimeout, htls, happ, hhs, hidleTs]
  simp only [timers, List.forall_mem_cons, List.not_mem_nil, false_implies, implies_true, and_true]
  refine ⟨?_, ?_, hdone.pmtud, ?_, ?_, ?_, ?_, ?_, ?_, ?_, ?_, ?_⟩
  · have hdelay : c'.computeAckDelay = c.computeAckDelay := by
      rw [computeAckDelay, computeAckDelay, hrtt, hsettings]
    rw [ackDelayExpiry, hdone.acktr, hdelay]
    exact AckTimer.lt_cancelExpired _ hts
  · rw [pvExpiry, hdone.pv]
    cases c.pv with
    | none => exact hts
    | some pv => exact pv.lt_cancelExpiredTimer hts
  · rw [scidExpiry, happ]
    cases htop : ScidPool.pqTop c'.scid.usedScids with
    | none => exact hts
    | some scid =>
        simp only
        split
        · rename_i hne
          exact hdone.scid scid htop hne
        · exact hts
  · rw [retiredDcidExpiry, happ]
    split
    · rename_i hne
      exact hdone.retired hne
    · exact hts
  · rw [boundDcidExpiry, happ, hcidlen]
    split
    · rename_i hne
      exact hdone.bound hne.1 hne.2
    · exact hts
  · rw [earlyExpiry, happ]
    split
    · rename_i hkey
      simp only [Bool.and_eq_true, decide_eq_true_eq] at hkey
      exact hdone.early hkey.1.1 hkey.1.2 hkey.2
    · exact hts
  · apply lt_lostPktExpiry _ hts
    rw [hpto]
    exact (hdone.spaces hok).2
  · rw [hdone.keepAlive]
    exact KeepAlive.lt_cancelExpired _ _ hts
  · exact (handshakeTimedOut_eq_false hts).mp hdone.handshake
  · rw [hsame]
    exact hidle
  · rw [hdone.pacing]
    exact Pacing.lt_cancelExpired _ hts

theorem handleExpiry_inv {env : LossEnv} (h : Inv c) (hts : ts < uint64Max) (hrun : c.handleExpiry env ts = .ok c') :
    Inv c' := by
  obtain ⟨hle, -, hdone⟩ := handleExpiry_ok hts hrun
  have hfixed := hdone.fixed
  simp only [fixed, Prod.mk.injEq] at hfixed
  obtain ⟨hlast, -, -, -, -, -, hcidlen, -⟩ := hfixed
  have hok : SpacesOk ts ({ c with lastTs := ts } : Conn) := h.spaces.of_rtbs hle fun _ => rfl
  refine ⟨?_, hdone.unfinished h.pmtud, ?_⟩
  · rw [hlast]
    exact (hdone.spaces hok).1
  · rw [hcidlen]
    exact h.dcids.subset hdone.bound_subset hdone.retired_subset

/-- What the invariant reads. -/
def core (c : Conn) : Nat × (SpaceId → Option RtbTx.State) × Option Pmtud × Nat × List Dcid × List Dcid :=
  (c.lastTs, fun id => (c.space id).map Space.rtb, c.pmtud, c.currentCidlen, c.dcidtr.bound, c.dcidtr.retired)

theorem Inv.of_core (h : Inv c) (hcore : c'.core = c.core) : Inv c' := by
  simp only [core, Prod.mk.injEq] at hcore
  obtain ⟨hlast, hrtbs, hpmtud, hcidlen, hbound, hretired⟩ := hcore
  refine ⟨h.spaces.of_rtbs (Nat.le_of_eq hlast.symm) (congrFun hrtbs), ?_, ?_⟩
  · rw [hpmtud]
    exact h.pmtud
  · rw [hcidlen]
    exact h.dcids.subset (hbound ▸ List.Subset.refl _) (hretired ▸ List.Subset.refl _)

theorem Inv.time (h : Inv c) (hle : c.lastTs ≤ ts) : Inv { c with lastTs := ts } :=
  ⟨h.spaces.of_rtbs hle fun _ => rfl, h.pmtud, h.dcids⟩

theorem core_onSpace (c : Conn) (id : SpaceId) {f : Space → Space} (hf : ∀ s, (f s).rtb = s.rtb) :
    (c.onSpace id f).core = c.core := by
  rw [onSpace]
  cases hs : c.space id with
  | none => rfl
  | some s =>
      have hrtbs : (fun i => ((c.setSpace id (f s)).space i).map Space.rtb) = fun i => (c.space i).map Space.rtb := by
        funext i
        rw [space_setSpace]
        split
        · rename_i hi
          rw [hi, hs]
          exact congrArg some (hf s)
        · rfl
      simp only [core, hrtbs]
      cases id <;> rfl

theorem Inv.setSpace (h : Inv c) (id : SpaceId) {s : Space} (hs : s.rtb.Inv ∧ RtbTx.Aged c.lastTs s.rtb.rtb.ents) :
    Inv (c.setSpace id s) := by
  have hspaces : SpacesOk c.lastTs (c.setSpace id s) := by
    intro i s' hs'
    rw [space_setSpace] at hs'
    split at hs'
    · cases hs'
      exact hs
    · exact h.spaces i s' hs'
  rw [setSpace_only] at hspaces ⊢
  exact ⟨hspaces, h.pmtud, h.dcids⟩

theorem Inv.setPmtud {r : Except Pmtud.Stop Pmtud} (h : Inv c) (hrun : c.setPmtud r = .ok c') : Inv c' := by
  cases r with
  | error stop => cases hrun
  | ok pmtud =>
      cases hrun
      refine ⟨h.spaces, ?_, h.dcids⟩
      intro p hp
      simp only at hp
      split at hp
      · cases hp
      · rename_i hfin
        cases hp
        exact Bool.eq_false_iff.mpr hfin

theorem Inv.rtbStep {id : SpaceId} {op : RtbTx.Op} (h : Inv c) (hop : RtbTx.State.LossesAt c.lastTs op)
    (ha : ∀ s ∈ c.space id, s.rtb.Allowed op) (hrun : c.rtbStep id op = .ok c') : Inv c' := by
  rw [Conn.rtbStep] at hrun
  cases hs : c.space id with
  | none =>
      rw [hs] at hrun
      cases hrun
      exact h
  | some s =>
      rw [hs] at hrun
      simp only at hrun
      cases hstep : s.rtb.step op with
      | error stop =>
          rw [hstep] at hrun
          cases hrun
      | ok rtb =>
          rw [hstep] at hrun
          cases hrun
          obtain ⟨hinv, haged⟩ := h.spaces id s hs
          exact h.setSpace id (rtb_step hinv haged (ha s hs) hop hstep)

theorem Inv.dcidtr (h : Inv c) {dcidtr : Dcidtr} (hd : DcidsTimed c.currentCidlen dcidtr) : Inv { c with dcidtr := dcidtr } :=
  ⟨h.spaces, h.pmtud, hd⟩

theorem bindDcid_timed {n seq : Nat} {dtr dtr' : Dcidtr} (h : DcidsTimed n dtr) (hts : ts < uint64Max)
    (hrun : dtr.bindDcid seq ts = .ok dtr') : DcidsTimed n dtr' := by
  have hadd : ∀ {bound : List Dcid}, bound ⊆ dtr.bound → n ≠ 0 → ∀ d ∈ bound ++ [⟨seq, ts⟩], d.ts ≠ uint64Max := by
    intro bound hsub hn d hd
    rcases List.mem_append.mp hd with hd | hd
    · exact h.bound hn d (hsub hd)
    · rw [List.mem_singleton.mp hd]
      exact Nat.ne_of_lt hts
  rw [Dcidtr.bindDcid] at hrun
  split at hrun
  · rename_i d rest hbound
    split at hrun
    · obtain ⟨dtr₁, hretire, hrun⟩ := bind_ok hrun
      cases hrun
      refine ⟨hadd ?_, ?_⟩
      · rw [hbound]
        exact List.subset_cons_self d rest
      · rw [(Dcidtr.onRetire_ok hretire).2]
        exact h.retired
    · cases hrun
      exact ⟨hadd (List.Subset.refl _), h.retired⟩
  · cases hrun
    exact ⟨hadd (List.nil_subset _), h.retired⟩

theorem retireActiveDcid_timed {n seq : Nat} {dtr dtr' : Dcidtr} (h : DcidsTimed n dtr) (hts : ts < uint64Max)
    (hrun : dtr.retireActiveDcid seq ts = .ok dtr') : DcidsTimed n dtr' := by
  obtain ⟨hbound, hretired⟩ := Dcidtr.onRetire_ok hrun
  refine ⟨?_, ?_⟩
  · rw [hbound]
    exact h.bound
  · rw [hretired]
    intro d hd
    rcases List.mem_append.mp hd with hd | hd
    · split at hd
      · exact h.retired d (List.mem_of_mem_tail hd)
      · exact h.retired d hd
    · rw [List.mem_singleton.mp hd]
      exact Nat.ne_of_lt hts

theorem retirePriorToLoop_subset {seq n i : Nat} {dtr dtr' : Dcidtr} (hrun : Dcidtr.retirePriorToLoop seq n i dtr = .ok dtr') :
    dtr'.bound ⊆ dtr.bound ∧ dtr'.retired = dtr.retired := by
  induction n generalizing i dtr with
  | zero =>
      cases hrun
      exact ⟨List.Subset.refl _, rfl⟩
  | succ n ih =>
      rw [Dcidtr.retirePriorToLoop] at hrun
      split at hrun
      · cases hrun
        exact ⟨List.Subset.refl _, rfl⟩
      · split at hrun
        · exact ih hrun
        · obtain ⟨dtr₁, hretire, hrun⟩ := bind_ok hrun
          obtain ⟨hbound, hretired⟩ := Dcidtr.onRetire_ok hretire
          obtain ⟨hsub, hsame⟩ := ih hrun
          rw [hbound] at hsub
          exact ⟨fun d hd => Dcidtr.removeDcidAt_subset _ i (hsub hd), hsame.trans hretired⟩

theorem Inv.bindDcid {seq : Nat} (h : Inv c) (hts : ts < uint64Max) (hrun : c.bindDcid seq ts = .ok c') : Inv c' := by
  rw [Conn.bindDcid] at hrun
  split at hrun
  · rename_i hzero
    cases hrun
    refine h.dcidtr ⟨fun hn => absurd hzero hn, ?_⟩
    rw [Dcidtr.bindZerolenDcid]
    split
    · exact h.dcids.retired
    · exact h.dcids.retired
  · obtain ⟨dcidtr, hbind, hrun⟩ := bind_ok hrun
    cases hrun
    exact h.dcidtr (bindDcid_timed h.dcids hts hbind)

theorem apply_inv {e : Event} (h : Inv c) (hts : ts < uint64Max) (hlast : c.lastTs = ts) (ha : Allowed c ⟨ts, e⟩)
    (hrun : c.apply ts e = .ok c') : Inv c' := by
  cases e with
  | recvPkt id activeAck pktTs =>
      cases hrun
      exact h.of_core (core_onSpace c id fun _ => rfl)
  | commitAck id =>
      cases hrun
      exact h.of_core (core_onSpace c id fun _ => rfl)
  | rtb id op => exact h.rtbStep (hlast ▸ ha.2.1) ha.2.2 hrun
  | discardPktns id =>
      cases hrun
      have hsub : ∀ i, ∀ s ∈ (c.discardPktns id).space i, s ∈ c.space i := by
        intro i s hs
        cases id with
        | application => exact hs
        | initial =>
            cases i with
            | initial => cases hs
            | handshake => exact hs
            | application => exact hs
        | handshake =>
            cases i with
            | initial => exact hs
            | handshake => cases hs
            | application => exact hs
      have hspaces : SpacesOk c.lastTs (c.discardPktns id) := fun i s hs => h.spaces i s (hsub i s hs)
      cases id with
      | initial => exact ⟨hspaces, h.pmtud, h.dcids⟩
      | handshake => exact ⟨hspaces, h.pmtud, h.dcids⟩
      | application => exact h
  | setLossDetectionTimer id lossTime ptoCount timer =>
      cases hrun
      exact h.of_core (core_onSpace c id fun _ => rfl)
  | startPmtud maxUdp hardMax txPktNum probes =>
      rw [Conn.apply] at hrun
      split at hrun
      · cases hrun
      · exact h.setPmtud hrun
  | pmtud e =>
      rw [Conn.apply] at hrun
      split at hrun
      · cases hrun
        exact h
      · exact h.setPmtud hrun
  | stopPmtud =>
      cases hrun
      exact ⟨h.spaces, (fun _ hp => by cases hp), h.dcids⟩
  | scid input =>
      rw [Conn.apply] at hrun
      split at hrun
      · cases hrun
      · cases hrun
        exact h.of_core rfl
  | setCurrentCidlen cidlen =>
      cases hrun
      have hnone : c.dcidtr.bound = [] := ha.2
      refine ⟨h.spaces, h.pmtud, ⟨fun _ d hd => ?_, h.dcids.retired⟩⟩
      rw [hnone] at hd
      cases hd
  | bindDcid seq => exact h.bindDcid hts hrun
  | popBoundDcid i =>
      cases hrun
      exact h.dcidtr (h.dcids.subset (Dcidtr.removeDcidAt_subset _ i) (List.Subset.refl _))
  | retireActiveDcid seq =>
      obtain ⟨dcidtr, hretire, hrun⟩ := bind_ok hrun
      cases hrun
      exact h.dcidtr (retireActiveDcid_timed h.dcids hts hretire)
  | retireDcidPriorTo seq =>
      obtain ⟨dcidtr, hretire, hrun⟩ := bind_ok hrun
      cases hrun
      obtain ⟨hbound, hretired⟩ := retirePriorToLoop_subset hretire
      exact h.dcidtr (h.dcids.subset hbound (hretired ▸ List.Subset.refl _))
  | installEarlyKey =>
      rw [Conn.apply] at hrun
      split at hrun
      · cases hrun
      · cases hrun
        exact h.of_core rfl
  | handleExpiry env => exact handleExpiry_inv h hts hrun
  | _ =>
      cases hrun
      exact h.of_core rfl

theorem step_inv (c : Conn) (call : Call) (c' : Conn) (h : Inv c) (ha : Allowed c call) (hrun : c.step call = .ok c') :
    Inv c' := by
  rw [Conn.step] at hrun
  split at hrun
  · cases hrun
  · rename_i hle
    exact apply_inv (h.time (Nat.not_lt.mp hle)) ha.1 rfl ha hrun

theorem init_inv (server : Bool) (settings : Local) (initialPktNum : Int) (currentCidlen : Nat) (scid : ScidPool.Pool) :
    Inv (init server settings initialPktNum currentCidlen scid) := by
  have hspace : (Space.init initialPktNum).rtb.Inv ∧ RtbTx.Aged settings.initialTs (Space.init initialPktNum).rtb.rtb.ents :=
    ⟨RtbTx.State.init_inv initialPktNum 0, .nil _⟩
  refine ⟨fun id s hs => ?_, (fun _ hp => by cases hp), ⟨(fun _ _ hd => by cases hd), fun _ hd => by cases hd⟩⟩
  cases id with
  | initial =>
      cases hs
      exact hspace
  | handshake =>
      cases hs
      exact hspace
  | application =>
      cases hs
      exact hspace

/-- Before its expiry a connection has nothing to do but to cancel the timers of the Initial and Handshake ACKs and, until
the handshake has completed, the keep-alive timer; and once the timers have been handled without a change of the RTT
estimate, none of them but the loss detection timer has expired. -/
theorem run_expiry (server : Bool) (settings : Local) (initialPktNum : Int) (currentCidlen : Nat) (scid : ScidPool.Pool)
    {calls : List Call} (hg : Guarded step Allowed (init server settings initialPktNum currentCidlen scid) calls) {c : Conn}
    (hrun : run step (init server settings initialPktNum currentCidlen scid) calls = .ok c) (env : LossEnv) {ts : Nat}
    (hts : ts < uint64Max) :
    (c.lastTs ≤ ts → c.ppePending = false → ts < c.getExpiry2 → c.handleExpiry env ts = .ok (c.quieted ts)) ∧
      ∀ c', c.handleExpiry env ts = .ok c' → c'.rtt = c.rtt → ∀ t ∈ c'.timers, ts < t := by
  have hinv := run_preserves step_inv (init_inv server settings initialPktNum currentCidlen scid) hg hrun
  exact ⟨fun hle hppe hlt => handleExpiry_quiet hinv env hle hts hppe hlt, fun _ hexpiry hrtt =>
    handleExpiry_later hinv hts hexpiry hrtt⟩

/-- A connection whose peer uses connection IDs of 8 bytes. -/
def sample : Conn :=
  .init true ⟨30000000000, 25000000, 0, 10000000000, 333000000⟩ 0 8
    ⟨4, ⟨2, Nat.le_refl 2⟩, [.init 0 [1, 2, 3, 4]], [], 0, 0, 0, .new, [], []⟩

/-- The handshake completes; two packets are sent, and the older one is lost when the other one is acknowledged; a path is
probed with a new connection ID. -/
def sampleCalls : List Call :=
  [⟨1, .setRemote ⟨0, 25000000⟩⟩, ⟨1, .completeTlsHandshake⟩, ⟨1, .completeHandshake⟩, ⟨2, .setKeepAliveTimeout 1000000000⟩,
    ⟨2, .rtb .application (.add 0 .oneRtt 2 1200 ⟨true, true, true, false, false⟩)⟩,
    ⟨2, .rtb .application (.add 4 .oneRtt 2 1200 ⟨true, true, true, false, false⟩)⟩, ⟨2, .updateKeepAlive⟩,
    ⟨2, .updatePktTxTime 1000⟩,
    ⟨3, .rtb .application (.recvAck ⟨none, 4, 0, 0, 0, []⟩ ⟨3, 1000000, 333000000, 166500000, 25000000, 0, 1200, true⟩)⟩,
    ⟨3, .recvPkt .application true 3⟩, ⟨4, .startPv⟩, ⟨4, .addPvEntry 2000⟩, ⟨4, .bindDcid 1⟩, ⟨4, .startPmtud 1200 1452 5 []⟩,
    ⟨5, .pmtud (.send 1500 2000 5)⟩]

/-- The first timer of the sample is the one that paces packets; a while later the timers of the path validation and of the
PMTU discovery have fired as well. -/
theorem run_expiry_sample :
    ∃ c, run step sample sampleCalls = .ok c ∧ c.handleExpiry ⟨0, 0, 1200, false, 0, 0⟩ 1000 = .ok (c.quieted 1000) ∧
      ∃ c', c.handleExpiry ⟨0, 0, 1200, false, 0, 0⟩ 3000 = .ok c' ∧ ∀ t ∈ c'.timers, 3000 < t := by
  have hfacts : (run step sample sampleCalls).toOption.any (fun c => c.lastTs ≤ 1000 && !c.ppePending &&
      1000 < c.getExpiry2 && (c.handleExpiry ⟨0, 0, 1200, false, 0, 0⟩ 3000).toOption.any fun c' => c'.rtt = c.rtt) = true := by
    decide +kernel
  obtain ⟨c, hc, hfacts⟩ := (Option.any_eq_true _ _).mp hfacts
  simp only [Bool.and_eq_true, decide_eq_true_eq, Bool.not_eq_true'] at hfacts
  obtain ⟨⟨⟨hle, hppe⟩, hlt⟩, hfires⟩ := hfacts
  obtain ⟨c', hc', hrtt⟩ := (Option.any_eq_true _ _).mp hfires
  have hrun : run step sample sampleCalls = .ok c := ok_of_toOption (Option.mem_def.mpr hc)
  have hexpiry := ok_of_toOption (Option.mem_def.mpr hc')
  have hg : Guarded step Allowed sample sampleCalls := by decide +kernel
  refine ⟨c, hrun, ?_, c', hexpiry, ?_⟩
  · exact (run_expiry true _ 0 8 _ hg hrun ⟨0, 0, 1200, false, 0, 0⟩ (by decide)).1 hle hppe hlt
  · exact (run_expiry true _ 0 8 _ hg hrun ⟨0, 0, 1200, false, 0, 0⟩ (by decide)).2 c' hexpiry (of_decide_eq_true hrtt)

/-- A client that has sent its first packet, and whose handshake has not completed. -/
def handshaking : List Call :=
  [⟨1, .setKeepAliveTimeout 10⟩, ⟨1, .updateKeepAlive⟩]

/-- Before the handshake has completed, the expiry leaves the keep-alive timer out, which is nevertheless cancelled. -/
theorem keepAlive_cancelled :
    ¬∀ (server : Bool) (settings : Local) (initialPktNum : Int) (currentCidlen : Nat) (scid : ScidPool.Pool)
      (calls : List Call) (c : Conn) (env : LossEnv) (ts : Nat),
      Guarded step Allowed (init server settings initialPktNum currentCidlen scid) calls →
        run step (init server settings initialPktNum currentCidlen scid) calls = .ok c → ts < uint64Max → c.lastTs ≤ ts →
          c.ppePending = false → ts < c.getExpiry2 →
            ∃ c', c.handleExpiry env ts = .ok c' ∧ c'.keepAlive = c.keepAlive := by
  intro h
  let start : Conn := .init false ⟨0, 25000000, 0, uint64Max, 333000000⟩ 0 8 sample.scid
  let c : Conn := { start with lastTs := 1, keepAlive := ⟨1, 10, false⟩ }
  obtain ⟨c', hexpiry, hsame⟩ := h false ⟨0, 25000000, 0, uint64Max, 333000000⟩ 0 8 sample.scid handshaking c
    ⟨0, 0, 1200, false, 0, 0⟩ 20 (by decide) rfl (by decide) (by decide) rfl (by decide)
  have hcancelled : (c.handleExpiry ⟨0, 0, 1200, false, 0, 0⟩ 20).map (fun c => c.keepAlive.cancelled) = .ok true := by
    decide
  rw [hexpiry] at hcancelled
  simp only [Except.map, hsame, Except.ok.injEq] at hcancelled
  cases hcancelled

end Conn

end Zngtcp2.Timer
