import Zngtcp2.Timer.Expiry

namespace Zngtcp2.Timer

open Lib.Run
open ScidPool (tstampElapsed)

namespace Conn

variable {c c' : Conn} {ts : Nat}

/-- `ngtcp2_conn_compute_pto` -/
def pto (c : Conn) : SpaceId → Nat
  | .application => c.appPto
  | _ => c.hsPto

theorem pto_pos (c : Conn) (id : SpaceId) : 0 < c.pto id * 3 := by
  have hpos : ∀ maxAckDelay, 0 < c.computePto maxAckDelay * 3 := by
    intro maxAckDelay
    rw [computePto, granularity]
    omega
  cases id with
  | initial => exact hpos _
  | handshake => exact hpos _
  | application => exact hpos _

/-- The retransmission buffers are sound, and their losses were detected in the order of time up to `now`. -/
def SpacesOk (now : Nat) (c : Conn) : Prop :=
  ∀ id, ∀ s ∈ c.space id, s.rtb.Inv ∧ RtbTx.Aged now s.rtb.rtb.ents

/-- No packet has been lost for so long that it is to be removed. -/
def SpacesFresh (pto : SpaceId → Nat) (ts : Nat) (c : Conn) : Prop :=
  ∀ id, ∀ s ∈ c.space id, RtbTx.Fresh (pto id * 3) ts s.rtb.rtb.ents

theorem space_setSpace (c : Conn) (id i : SpaceId) (s : Space) :
    (c.setSpace id s).space i = if i = id then some s else c.space i := by
  cases id <;> cases i <;> rfl

theorem setSpace_only (c : Conn) (id : SpaceId) (s : Space) : c.setSpace id s = { c with
    inPktns := (c.setSpace id s).inPktns, hsPktns := (c.setSpace id s).hsPktns, pktns := (c.setSpace id s).pktns } := by
  cases id <;> rfl

theorem lt_lostPktExpiry (h : SpacesFresh c.pto ts c) (hts : ts < uint64Max) : ts < c.lostPktExpiry := by
  have hspace : ∀ id, ts < ((c.space id).map (·.lostPktExpiry (c.pto id))).getD uint64Max := by
    intro id
    cases hs : c.space id with
    | none => exact hts
    | some s => exact Space.lt_lostPktExpiry (h id s hs) hts
  exact Nat.lt_min.mpr ⟨Nat.lt_min.mpr ⟨hspace .initial, hspace .handshake⟩, hspace .application⟩

theorem mapM_ok {f : Space → Except Err Space} {o o' : Option Space} (h : o.mapM f = .ok o') :
    ∀ s' ∈ o', ∃ s ∈ o, f s = .ok s' := by
  cases o with
  | none =>
      cases h
      intro s' hs'
      cases hs'
  | some s =>
      change (some <$> f s : Except Err (Option Space)) = _ at h
      cases hf : f s with
      | error e =>
          rw [hf] at h
          cases h
      | ok s₁ =>
          rw [hf] at h
          cases h
          rintro _ ⟨⟩
          exact ⟨s, rfl, hf⟩

theorem removeLostPkt_ok (hrun : c.removeLostPkt ts = .ok c') :
    (∃ inPktns hsPktns pktns, c' = { c with inPktns := inPktns, hsPktns := hsPktns, pktns := pktns }) ∧
      ∀ id, ∀ s' ∈ c'.space id, ∃ s ∈ c.space id, s.removeExpiredLostPkt (c.pto id) ts = .ok s' := by
  obtain ⟨inPktns, hin, hrun⟩ := bind_ok hrun
  obtain ⟨hsPktns, hhs, hrun⟩ := bind_ok hrun
  obtain ⟨pktns, happ, hrun⟩ := bind_ok hrun
  cases hrun
  refine ⟨⟨inPktns, hsPktns, pktns, rfl⟩, ?_⟩
  intro id s' hs'
  cases id with
  | initial => exact mapM_ok hin s' hs'
  | handshake => exact mapM_ok hhs s' hs'
  | application =>
      cases hs'
      exact ⟨c.pktns, rfl, happ⟩

theorem rtb_step {rtb rtb' : RtbTx.State} {op : RtbTx.Op} (h : rtb.Inv) (haged : RtbTx.Aged ts rtb.rtb.ents)
    (hallowed : rtb.Allowed op) (hop : RtbTx.State.LossesAt ts op) (hrun : rtb.step op = .ok rtb') :
    rtb'.Inv ∧ RtbTx.Aged ts rtb'.rtb.ents := by
  have hinv := RtbTx.State.step_inv rtb op h hallowed
  have haged' := h.step_aged hallowed hop haged
  rw [hrun] at hinv haged'
  exact ⟨hinv, haged'⟩

/-- The spaces after the expired packets have been removed. -/
theorem removeLostPkt_spaces (h : SpacesOk ts c) (hts : ts < uint64Max) (hrun : c.removeLostPkt ts = .ok c') :
    SpacesOk ts c' ∧ SpacesFresh c.pto ts c' := by
  obtain ⟨-, hspaces⟩ := removeLostPkt_ok hrun
  constructor
  · intro id s' hs'
    obtain ⟨s, hs, hremove⟩ := hspaces id s' hs'
    obtain ⟨hinv, haged⟩ := h id s hs
    obtain ⟨-, -, hstep⟩ := Space.removeExpiredLostPkt_step hremove
    exact @rtb_step ts _ _ (.removeExpiredLostPkt (c.pto id * 3) ts) hinv haged trivial trivial hstep
  · intro id s' hs'
    obtain ⟨s, hs, hremove⟩ := hspaces id s' hs'
    obtain ⟨hinv, haged⟩ := h id s hs
    exact Space.removeExpiredLostPkt_fresh hinv haged hts hremove

theorem removeLostPkt_quiet (h : SpacesOk ts c) (hts : ts < uint64Max) (hlt : ts < c.lostPktExpiry) :
    c.removeLostPkt ts = .ok c := by
  obtain ⟨hlt', happ⟩ := Nat.lt_min.mp hlt
  obtain ⟨hin, hhs⟩ := Nat.lt_min.mp hlt'
  have hspace : ∀ id, ts < ((c.space id).map (·.lostPktExpiry (c.pto id))).getD uint64Max →
      (c.space id).mapM (·.removeExpiredLostPkt (c.pto id) ts) = .ok (c.space id) := by
    intro id hlt
    cases hs : c.space id with
    | none => rfl
    | some s =>
        rw [hs] at hlt
        obtain ⟨hinv, haged⟩ := h id s hs
        change (some <$> s.removeExpiredLostPkt (c.pto id) ts : Except Err (Option Space)) = _
        rw [Space.removeExpiredLostPkt_quiet hinv haged hts hlt]
        rfl
  have hpktns : c.pktns.removeExpiredLostPkt c.appPto ts = .ok c.pktns := by
    obtain ⟨hinv, haged⟩ := h .application c.pktns rfl
    exact Space.removeExpiredLostPkt_quiet hinv haged hts happ
  have hinPktns : c.inPktns.mapM (·.removeExpiredLostPkt c.hsPto ts) = .ok c.inPktns := hspace .initial hin
  have hhsPktns : c.hsPktns.mapM (·.removeExpiredLostPkt c.hsPto ts) = .ok c.hsPktns := hspace .handshake hhs
  rw [removeLostPkt, hinPktns, hhsPktns, hpktns]
  rfl

theorem handlePmtudExpiry_ok (hts : ts < uint64Max) (hrun : c.handlePmtudExpiry ts = .ok c') :
    c' = { c with pmtud := c'.pmtud } ∧ ts < c'.pmtudExpiry ∧
      ((∀ pmtud ∈ c.pmtud, pmtud.finished = false) → ∀ pmtud ∈ c'.pmtud, pmtud.finished = false) := by
  rw [handlePmtudExpiry] at hrun
  cases hp : c.pmtud with
  | none =>
      rw [hp] at hrun
      cases hrun
      refine ⟨rfl, ?_, fun _ => ?_⟩
      · rw [pmtudExpiry, hp]
        exact hts
      · rw [hp]
        exact fun _ h => by cases h
  | some pmtud =>
      rw [hp] at hrun
      simp only at hrun
      cases hfire : pmtud.handleExpiry ts with
      | error stop =>
          rw [hfire] at hrun
          cases hrun
      | ok pmtud' =>
          rw [hfire] at hrun
          cases hrun
          refine ⟨rfl, ?_, fun _ => ?_⟩
          · rw [pmtudExpiry]
            split
            · exact hts
            · exact pmtud_handleExpiry_later hts hfire
          · split
            · exact fun _ h => by cases h
            · rename_i hfin
              rintro _ ⟨⟩
              exact Bool.eq_false_iff.mpr hfin

theorem handlePmtudExpiry_quiet (h : ∀ pmtud ∈ c.pmtud, pmtud.finished = false) (hlt : ts < c.pmtudExpiry) :
    c.handlePmtudExpiry ts = .ok c := by
  rw [handlePmtudExpiry]
  rw [pmtudExpiry] at hlt
  cases hp : c.pmtud with
  | none => rfl
  | some pmtud =>
      rw [hp] at hlt
      have hlt : ts < pmtud.expiry := hlt
      have hquiet : pmtud.handleExpiry ts = .ok pmtud := by rw [Pmtud.handleExpiry, if_pos hlt]
      simp only [hquiet]
      rw [if_neg (Bool.eq_false_iff.mp (h pmtud hp)), ← hp]

/-- The space is as it was, but for its loss time and for losses that were detected at `ts`. -/
def Detects (ts : Nat) (s s' : Space) : Prop :=
  s'.acktr = s.acktr ∧ (s'.rtb = s.rtb ∨ ∃ l : RtbTx.Loss, l.ts = ts ∧ s.rtb.step (.detectLostPkt l) = .ok s'.rtb)

theorem Detects.refl (s : Space) : Detects ts s s :=
  ⟨rfl, Or.inl rfl⟩

theorem detectLostPkt_ok {env : LossEnv} {id : SpaceId} (hrun : c.detectLostPkt env id ts = .ok c') :
    c' = { c with inPktns := c'.inPktns, hsPktns := c'.hsPktns, pktns := c'.pktns, rtt := c'.rtt } ∧
      ∀ i, ∀ s' ∈ c'.space i, ∃ s ∈ c.space i, Detects ts s s' := by
  rw [detectLostPkt] at hrun
  cases hs : c.space id with
  | none =>
      rw [hs] at hrun
      cases hrun
  | some s =>
      rw [hs] at hrun
      simp only at hrun
      cases hstep : s.rtb.step (.detectLostPkt (c.loss env id ts)) with
      | error stop =>
          rw [hstep] at hrun
          cases hrun
      | ok rtb =>
          rw [hstep] at hrun
          cases hrun
          have hdetects : Detects ts s { s with rtb := rtb, lossTime := env.lossTime } := ⟨rfl, Or.inr ⟨_, rfl, hstep⟩⟩
          refine ⟨?_, fun i s' hs' => ?_⟩
          · rw [setSpace_only c id]
          · change s' ∈ (c.setSpace id { s with rtb := rtb, lossTime := env.lossTime }).space i at hs'
            rw [space_setSpace] at hs'
            split at hs'
            · rename_i hi
              cases hs'
              exact ⟨s, hi ▸ hs, hdetects⟩
            · exact ⟨s', hs', .refl s'⟩

theorem onLossDetectionTimer_ok {env : LossEnv} (hrun : c.onLossDetectionTimer env ts = .ok c') :
    c' = { c with
      inPktns := c'.inPktns, hsPktns := c'.hsPktns, pktns := c'.pktns, rtt := c'.rtt, ptoCount := c'.ptoCount
      lossDetectionTimer := c'.lossDetectionTimer } ∧
      ∀ id, ∀ s' ∈ c'.space id, ∃ s ∈ c.space id, Detects ts s s' := by
  rw [onLossDetectionTimer] at hrun
  split_ifs at hrun
  · cases hrun
    exact ⟨rfl, fun id s hs => ⟨s, hs, .refl s⟩⟩
  · obtain ⟨c₁, hdetect, hrun⟩ := bind_ok hrun
    cases hrun
    obtain ⟨hrest, hspaces⟩ := detectLostPkt_ok hdetect
    refine ⟨?_, hspaces⟩
    rw [hrest]
  · cases hrun
    exact ⟨rfl, fun id s hs => ⟨s, hs, .refl s⟩⟩

theorem detects_spacesOk (h : SpacesOk ts c) (hspaces : ∀ id, ∀ s' ∈ c'.space id, ∃ s ∈ c.space id, Detects ts s s') :
    SpacesOk ts c' := by
  intro id s' hs'
  obtain ⟨s, hs, -, heq | ⟨l, hl, hstep⟩⟩ := hspaces id s' hs'
  · rw [heq]
    exact h id s hs
  · obtain ⟨hinv, haged⟩ := h id s hs
    exact @rtb_step ts _ _ (.detectLostPkt l) hinv haged trivial hl hstep

theorem detects_spacesFresh {pto : SpaceId → Nat} (h : SpacesOk ts c) (hf : SpacesFresh pto ts c) (hpos : ∀ id, 0 < pto id * 3)
    (hspaces : ∀ id, ∀ s' ∈ c'.space id, ∃ s ∈ c.space id, Detects ts s s') : SpacesFresh pto ts c' := by
  intro id s' hs'
  obtain ⟨s, hs, -, heq | ⟨l, rfl, hstep⟩⟩ := hspaces id s' hs'
  · rw [heq]
    exact hf id s hs
  · obtain ⟨⟨r, n⟩, hdetect, hok⟩ := bind_ok hstep
    rw [Except.ok.injEq] at hok
    rw [← hok]
    exact (h id s hs).1.sound.detectLostPkt_fresh (hf id s hs) (hpos id) hdetect

/-- The connection IDs that were bound or retired have a time; a bound one may lack it where the peer uses connection
IDs of length 0. -/
structure DcidsTimed (currentCidlen : Nat) (dtr : Dcidtr) : Prop where
  bound : currentCidlen ≠ 0 → ∀ d ∈ dtr.bound, d.ts ≠ uint64Max
  retired : ∀ d ∈ dtr.retired, d.ts ≠ uint64Max

theorem DcidsTimed.subset {n : Nat} {dtr dtr' : Dcidtr} (h : DcidsTimed n dtr) (hb : dtr'.bound ⊆ dtr.bound)
    (hr : dtr'.retired ⊆ dtr.retired) : DcidsTimed n dtr' :=
  ⟨fun hn d hd => h.bound hn d (hb hd), fun d hd => h.retired d (hr hd)⟩

theorem retireStaleBoundDcid_ok {timeout : Nat} (hts : ts < uint64Max) (hrun : c.retireStaleBoundDcid timeout ts = .ok c') :
    c' = { c with dcidtr := c'.dcidtr } ∧ c'.dcidtr.bound ⊆ c.dcidtr.bound ∧ c'.dcidtr.retired = c.dcidtr.retired ∧
      (c.currentCidlen ≠ 0 → c'.dcidtr.earliestBoundTs ≠ uint64Max → ts < c'.dcidtr.earliestBoundTs + timeout) := by
  rw [retireStaleBoundDcid] at hrun
  split at hrun
  · obtain ⟨dcidtr, hretire, hrun⟩ := bind_ok hrun
    cases hrun
    obtain ⟨hlater, hsub, hretired⟩ := Dcidtr.retireStaleBoundDcid_later hts hretire
    exact ⟨rfl, hsub, hretired, fun _ => hlater⟩
  · rename_i hzero
    cases hrun
    exact ⟨rfl, List.Subset.refl _, rfl, fun hne => absurd hne hzero⟩

theorem retireStaleBoundDcid_quiet (h : DcidsTimed c.currentCidlen c.dcidtr) (hts : ts < uint64Max)
    (hlt : ts < c.boundDcidExpiry) : c.retireStaleBoundDcid (3 * c.appPto) ts = .ok c := by
  rw [retireStaleBoundDcid]
  split
  · rename_i hne
    rw [boundDcidExpiry] at hlt
    rw [Dcidtr.retireStaleBoundDcid_quiet (h.bound hne) (fun hsome => by rwa [if_pos ⟨hne, hsome⟩] at hlt) hts]
    rfl
  · rfl

theorem removeRetiredConnectionId_ok {pto : Nat} (hts : ts < uint64Max)
    (hrun : c.removeRetiredConnectionId pto ts = .ok c') :
    c' = { c with scid := c'.scid, dcidtr := c.dcidtr.removeStaleRetiredDcid pto ts } ∧
      ∀ scid ∈ ScidPool.pqTop c'.scid.usedScids, scid.retiredTs ≠ uint64Max → ts < scid.retiredTs + pto := by
  rw [removeRetiredConnectionId] at hrun
  cases hremove : c.scid.removeRetiredConnectionId pto ts with
  | error stop =>
      rw [hremove] at hrun
      cases hrun
  | ok scid =>
      rw [hremove] at hrun
      cases hrun
      exact ⟨rfl, removeLoop_later (Nat.le_refl _) hts hremove⟩

theorem removeRetiredConnectionId_quiet (h : DcidsTimed c.currentCidlen c.dcidtr) (hts : ts < uint64Max)
    (hscid : ts < c.scidExpiry) (hdcid : ts < c.retiredDcidExpiry) : c.removeRetiredConnectionId c.appPto ts = .ok c := by
  have hpool : c.scid.removeRetiredConnectionId c.appPto ts = .ok c.scid := by
    apply removeLoop_quiet
    intro scid htop hne
    rw [scidExpiry, Option.mem_def.mp htop] at hscid
    simp only at hscid
    rwa [if_pos hne] at hscid
  have hdtr : c.dcidtr.removeStaleRetiredDcid c.appPto ts = c.dcidtr := by
    refine Dcidtr.removeStaleRetiredDcid_quiet h.retired (fun hne => ?_) hts
    rwa [retiredDcidExpiry, if_pos hne] at hdcid
  rw [removeRetiredConnectionId, hpool, hdtr]

theorem discardStaleEarlyKey_quiet (hlt : ts < c.earlyExpiry) : c.discardStaleEarlyKey (3 * c.appPto) ts = c := by
  rw [discardStaleEarlyKey]
  rw [earlyExpiry] at hlt
  cases hkey : c.server && c.early.ckm with
  | false => rfl
  | true =>
      rw [tstampElapsed_eq_false]
      · rfl
      · by_cases hnone : c.early.discardStartedTs = uint64Max
        · exact Or.inl hnone
        · rw [hkey, Bool.true_and, decide_eq_true hnone, if_pos rfl] at hlt
          exact Or.inr hlt

theorem discardStaleEarlyKey_ok (timeout : Nat) (hts : ts < uint64Max) :
    c.discardStaleEarlyKey timeout ts = { c with early := (c.discardStaleEarlyKey timeout ts).early } ∧
      (c.server = true → (c.discardStaleEarlyKey timeout ts).early.ckm = true →
        (c.discardStaleEarlyKey timeout ts).early.discardStartedTs ≠ uint64Max →
          ts < (c.discardStaleEarlyKey timeout ts).early.discardStartedTs + timeout) := by
  rw [discardStaleEarlyKey]
  split
  · exact ⟨rfl, fun _ hckm => by cases hckm⟩
  · rename_i h
    refine ⟨rfl, fun hserver hckm hne => ?_⟩
    rw [hserver, hckm, Bool.and_self, Bool.true_and, Bool.not_eq_true] at h
    exact lt_of_not_elapsed h hne hts

end Conn

end Zngtcp2.Timer
