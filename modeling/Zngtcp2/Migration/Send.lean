import Zngtcp2.Migration.Write
import Zngtcp2.Migration.Recv

namespace Zngtcp2.Migration

open Lib.Run (Ends)

variable {s : Setup} {conn : Conn}

/-- A packet of `n` bytes may be sent to the path of the connection ID. -/
def Dcid.Fits (dcid : Dcid) (n : Nat) : Prop :=
  dcid.validated = false → dcid.bytesSent + n ≤ dcid.bytesRecv * 3

theorem Dcid.Fits.mono {dcid : Dcid} {m n : Nat} (h : dcid.Fits n) (hle : m ≤ n) : dcid.Fits m :=
  fun hv => Nat.le_trans (Nat.add_le_add_left hle _) (h hv)

theorem Dcid.Fits.rest {dcid : Dcid} {m n : Nat} (h : dcid.Fits (n + m)) : (dcid.grow 0 n).Fits m := by
  intro hv
  have := h hv
  simp only [Dcid.grow]
  omega

/-- More bytes have been sent to `path`. -/
def Ledger.send (l : Ledger) (path : Path) (n : Nat) : Ledger :=
  { l with sent := Function.update l.sent path (l.sent path + n) }

section
variable {l : Ledger} {owed : Path → Nat} {dcid : Dcid} {path : Path} {n : Nat}

theorem Account.elsewhere (h : Account l owed dcid) (hne : dcid.path ≠ path) : Account (l.send path n) owed dcid := by
  refine ⟨h.left, fun hp => ?_⟩
  have := h.paid hp
  simpa only [Ledger.send, Function.update_of_ne hne] using this

theorem Aside.elsewhere {current : Path} (h : Aside s l current dcid) (hne : dcid.path ≠ path) :
    Aside s (l.send path n) current dcid :=
  ⟨h.cid, h.current, h.account.elsewhere hne⟩

theorem Account.send (h : Account l owed dcid) (hfits : dcid.Fits n) : Account (l.send dcid.path n) owed (dcid.grow 0 n) := by
  refine ⟨hfits, fun hp => ?_⟩
  have := h.paid hp
  simp only [Ledger.send, Dcid.grow, Function.update_self]
  omega

/-- What fits is covered by what was received from the path. -/
theorem Account.total (h : Account l owed dcid) (hflag : dcid.validated = true → dcid.path ∈ l.answered) (hfits : dcid.Fits n)
    (htotal : ∀ path, path ∉ l.answered → l.sent path + owed path ≤ l.received path * 3) :
    ∀ path, path ∉ l.answered → (l.send dcid.path n).sent path + owed path ≤ l.received path * 3 := by
  intro path hp
  by_cases heq : path = dcid.path
  · subst heq
    have hv : dcid.validated = false := Bool.eq_false_iff.mpr fun hv => hp (hflag hv)
    have := h.paid hp
    have := hfits hv
    simp only [Ledger.send, Function.update_self]
    omega
  · simpa only [Ledger.send, Function.update_of_ne heq] using htotal path hp

end

theorem sendUncounted_inv {n : Nat} (h : Inv s conn) (hfits : s.server = true → conn.current.Fits n) :
    Inv s (conn.sendUncounted n) := by
  refine ⟨{ h.core with safe := fun hs => ?_ }, fun pv hpv => { h.pv pv hpv with safe := fun hs => { (h.pv pv hpv).safe hs with } }⟩
  have hsafe := h.core.safe hs
  refine { hsafe with peak := fun path hpath => ?_ }
  by_cases heq : path = conn.current.path
  · subst heq
    have htotal := hsafe.account.total h.core.current (hfits hs) (fun p hp => Nat.le_trans (Nat.le_add_right _ _) (hsafe.total p hp))
      _ hpath
    simp only [Ledger.send, Function.update_self] at htotal
    simp only [Conn.sendUncounted, Function.update_self]
    exact max_le (hsafe.peak _ hpath) htotal
  · simp only [Conn.sendUncounted, Function.update_of_ne heq]
    exact hsafe.peak path hpath

theorem sendCurrent_inv {n : Nat} (h : Inv s conn) (hsettled : s.owed = fun _ => 0) (hfits : s.server = true → conn.current.Fits n) :
    Inv s (conn.sendCurrent n) := by
  refine ⟨{ h.core with safe := fun hs => ?_ }, fun pv hpv => { h.pv pv hpv with safe := fun hs => ?_ }⟩
  · have hsafe := h.core.safe hs
    have htotal := hsafe.total
    rw [hsettled] at htotal
    refine { hsafe with
      account := hsafe.account.send (hfits hs)
      bound := fun d hd => (hsafe.bound d hd).elsewhere (hsafe.bound d hd).current
      total := ?_ }
    rw [hsettled]
    exact hsafe.account.total h.core.current (hfits hs) htotal
  · have hsafe := (h.pv pv hpv).safe hs
    exact { hsafe with
      account := fun hne => (hsafe.account hne).elsewhere hne
      fallback := fun d hd => ⟨(hsafe.fallback d hd).1.elsewhere (hsafe.fallback d hd).1.current, (hsafe.fallback d hd).2⟩ }

/-- The connection ID at a path that is not the current one covers what is sent to it. -/
theorem dcidAt_account {path : Path} {holder : Conn.Holder} {dcid : Dcid} (h : Inv s conn) (hs : s.server = true)
    (hne : conn.current.path ≠ dcid.path) (hat : conn.dcidAt path holder = some dcid) : Account conn.ledger s.owed dcid := by
  cases holder with
  | pv =>
      obtain ⟨pv, hpv, rfl⟩ := Option.map_eq_some_iff.mp hat
      exact ((h.pv pv hpv).safe hs).account hne.symm
  | fallback =>
      obtain ⟨pv, hpv, hfallback⟩ := Option.bind_eq_some_iff.mp hat
      exact (((h.pv pv hpv).safe hs).fallback dcid hfallback).1.account
  | bound => exact ((h.core.safe hs).bound dcid (Dcidtr.findBoundDcid_some hat).1).account

theorem dcidAt_flag {path : Path} {holder : Conn.Holder} {dcid : Dcid} (h : Inv s conn)
    (hat : conn.dcidAt path holder = some dcid) : dcid.validated = true → dcid.path ∈ conn.answered := by
  cases holder with
  | pv =>
      obtain ⟨pv, hpv, rfl⟩ := Option.map_eq_some_iff.mp hat
      exact (h.pv pv hpv).dcid
  | fallback =>
      obtain ⟨pv, hpv, hfallback⟩ := Option.bind_eq_some_iff.mp hat
      exact (h.pv pv hpv).fallback dcid hfallback
  | bound => exact fun hv => absurd ((h.core.bound dcid (Dcidtr.findBoundDcid_some hat).1).symm.trans hv) (by decide)

theorem sendAt_inv {path : Path} {n : Nat} {holder : Conn.Holder} {dcid : Dcid} (h : Inv s conn)
    (hat : conn.dcidAt path holder = some dcid) (hpath : dcid.path = path)
    (hsend : s.server = true → conn.current.path ≠ path ∧ dcid.Fits n) : Inv s (conn.sendAt path n holder) := by
  subst hpath
  have htotal : s.server = true → ∀ path, path ∉ conn.answered →
      (conn.ledger.send dcid.path n).sent path + s.owed path ≤ conn.received path * 3 := fun hs =>
    (dcidAt_account h hs (hsend hs).1 hat).total (dcidAt_flag h hat) (hsend hs).2 (h.core.safe hs).total
  refine growAt_inv h (fun hs => (h.core.safe hs).account.elsewhere (hsend hs).1) (fun hs d hne ha => ?_)
    (fun hs dcid' hat' ha => ?_) htotal
  · exact ha.elsewhere (hne dcid hat)
  · cases hat.symm.trans hat'
    exact ha.send (hsend hs).2

/-- The connection ID at which bytes sent to the path of `dcid` are counted. -/
def Conn.counted (conn : Conn) (dcid : Dcid) : Dcid :=
  if dcid.path = conn.current.path then conn.current else dcid

theorem txLeft_ends {server : Bool} {dcid : Dcid} (h : server = true → dcid.validated = false → dcid.bytesSent ≤ dcid.bytesRecv * 3) :
    Ends (Tolerated server True) (fun left => server = true → ∀ n, (∀ m ∈ left, n ≤ m) → dcid.Fits n) dcid.txLeft := by
  rw [Dcid.txLeft]
  split
  · rename_i hv
    exact fun _ n _ h => absurd (hv.symm.trans h) (by decide)
  · rename_i hv
    rw [Bool.not_eq_true] at hv
    refine (assert_ends fun hs => h hs hv).bind fun _ hle => ?_
    intro hs n hn _
    have := hn _ rfl
    omega

theorem serverTxLeft_ends {dcid : Dcid} (h : Inv s conn)
    (hd : s.server = true → dcid.path ≠ conn.current.path → Account conn.ledger s.owed dcid) :
    Ends (Tolerated s.server True) (fun left => s.server = true → ∀ n, (∀ m ∈ left, n ≤ m) → (conn.counted dcid).Fits n)
      (conn.serverTxLeft dcid) := by
  rw [Conn.serverTxLeft, Conn.counted]
  split
  · exact txLeft_ends fun hs => (h.core.safe hs).account.left
  · rename_i hne
    exact txLeft_ends fun hs => (hd hs hne).left

/-- What is left of `len` is not more than what may be sent. -/
theorem limit_ends {dcid : Dcid} (h : Inv s conn)
    (hd : s.server = true → dcid.path ≠ conn.current.path → Account conn.ledger s.owed dcid)
    (hv : s.server = true → dcid.path = conn.current.path → dcid.validated = true → conn.current.validated = true) (len : Nat) :
    Ends (Tolerated s.server True) (fun len' => s.server = true → (conn.counted dcid).Fits len') (conn.limit dcid len) := by
  rw [Conn.limit]
  split
  · refine (serverTxLeft_ends h hd).bind fun left hleft => ?_
    cases left with
    | none => exact fun hs => hleft hs len fun _ hm => nomatch hm
    | some left => exact fun hs => hleft hs _ fun m hm => Option.some.inj hm ▸ Nat.min_le_right len left
  · rename_i hnot
    intro hs
    rw [h.core.server, hs, Bool.true_and, Bool.not_eq_true, Bool.not_eq_false'] at hnot
    rw [Conn.counted]
    split
    · rename_i heq
      exact fun hf => absurd ((hv hs heq hnot).symm.trans hf) (by decide)
    · exact fun hf => absurd (hnot.symm.trans hf) (by decide)

theorem limit_current_ends (h : Inv s conn) (len : Nat) :
    Ends (Tolerated s.server True) (fun len' => s.server = true → conn.current.Fits len') (conn.limit conn.current len) := by
  have hcounted : conn.counted conn.current = conn.current := if_pos rfl
  simpa only [hcounted] using limit_ends h (fun _ hne => absurd rfl hne) (fun _ _ hv => hv) len

theorem respond_inv {path : Path} {holder : Conn.Holder} (h : Inv s conn) (w : WriteEnv)
    (hholder : holder = .bound ∨ conn.pvHolder path = some holder) (hne : conn.current.path ≠ path) :
    Ends (Tolerated s.server True) (fun r => Inv s r.1) (conn.respond w path holder) := by
  rw [Conn.respond.eq_def]
  cases hat : conn.dcidAt path holder with
  | none => exact h
  | some dcid =>
      have hpath := dcidAt_path hholder hat
      have hne' : dcid.path ≠ conn.current.path := hpath ▸ hne.symm
      refine (limit_ends h (fun hs _ => dcidAt_account h hs hne'.symm hat) (fun _ heq => absurd heq hne') _).bind fun len hlen => ?_
      dsimp only
      split
      · exact h
      · have hinv := h.withOther conn.handshakeConfirmed conn.pathChallenge.tail
        have hcounted : conn.counted dcid = dcid := if_neg hne'
        exact sendAt_inv hinv hat hpath fun hs => ⟨hne, (hcounted ▸ hlen hs).mono (Nat.min_le_right _ _)⟩

theorem writePathResponse_inv (w : WriteEnv) (entries : List (Path × List UInt8)) (h : Inv s conn) :
    Ends (Tolerated s.server True) (fun r => Inv s r.1) (Conn.writePathResponse w entries conn) := by
  induction entries generalizing conn with
  | nil => exact h
  | cons entry rest ih =>
      rw [Conn.writePathResponse]
      split
      · exact h
      · rename_i hne
        split
        · rename_i holder hholder
          exact respond_inv h w (Or.inr hholder) hne
        · rename_i hholder
          split
          · have hbind := @bindDcid_inv _ _ True h entry.1 w.ts (fun _ => inUse_false_of_holder hne hholder) fun _ => trivial
            cases hr : conn.bindDcid entry.1 w.ts with
            | error stop =>
                rw [hr] at hbind
                cases stop with
                | failed rv => exact h
                | assertion => exact hbind
                | unexpected unacked => exact hbind
            | ok r =>
                rw [hr] at hbind
                cases r with
                | none => exact h
                | some conn' =>
                    obtain ⟨hinv, hcurrent⟩ := hbind conn' rfl
                    exact respond_inv hinv w (Or.inl rfl) (hcurrent ▸ hne)
          · exact ih (h.withOther conn.handshakeConfirmed rest)

theorem PvInv.handleEntryExpiry {pv : Pv} (h : PvInv s conn pv) (ts : Nat) : PvInv s conn (pv.handleEntryExpiry ts) := by
  rw [Pv.handleEntryExpiry]
  split
  · exact h
  · split
    · exact h
    · exact { h with safe := fun hs => { h.safe hs with } }

/-- The data of the PATH_CHALLENGE frame is entered for the path. -/
theorem PvInv.addEntry {pv : Pv} (h : PvInv s conn pv) (data : List UInt8) (expiry : Nat) (undersized : Bool) (ts : Nat)
    (hprobe : pv.probePktLeft ≠ 0) :
    Ends (Tolerated s.server True) (fun pv' => pv'.dcid = pv.dcid ∧
      PvInv s { conn with pv := some pv', challenged := (pv.dcid.path, data) :: conn.challenged } pv')
      (pv.addEntry data expiry undersized ts) := by
  rw [Pv.addEntry]
  refine (assert_ends fun _ => hprobe).bind fun _ _ => ⟨rfl, ?_⟩
  obtain ⟨ents, hsub, heq⟩ := pushBack_eq 8 pv.ents ⟨expiry, undersized, data⟩
  refine { h with
    ents := fun ent hent => ?_
    safe := fun hs => { h.safe hs with started := fun _ => ?_ } }
  · simp only [heq, List.mem_append, List.mem_singleton] at hent
    rcases hent with hent | rfl
    · exact List.mem_cons_of_mem _ (h.ents ent (hsub.subset hent))
    · exact List.mem_cons_self
  · simp only [heq]
    exact List.append_ne_nil_of_right_ne_nil ents (List.cons_ne_nil _ [])

theorem challenge_inv {pv : Pv} (h : Inv s conn) (hsettled : s.owed = fun _ => 0) (hpv : PvInv s conn pv)
    (hprobe : pv.probePktLeft ≠ 0) (w : WriteEnv) : Ends (Tolerated s.server True) (fun r => Inv s r.1) (conn.challenge w pv) := by
  rw [Conn.challenge]
  refine (limit_ends h (fun hs => (hpv.safe hs).account) (fun hs => (hpv.safe hs).validated) _).bind fun len hlen => ?_
  split
  · refine ⟨h.core.withPv _, fun p hp => ?_⟩
    cases hp
    exact hpv.withPv _
  · refine (hpv.addEntry _ _ _ _ hprobe).bind ?_
    rintro pv' ⟨hdcid, hinv⟩
    have hconn : Inv s { conn with pv := some pv', challenged := (pv.dcid.path, w.challengeData) :: conn.challenged } := by
      refine ⟨{ h.core with
        answered := fun path hpath => ?_
        safe := fun hs => { h.core.safe hs with } }, fun p hp => ?_⟩
      · exact (h.core.answered path hpath).imp_right fun ⟨data, hdata, hmem⟩ => ⟨data, hdata, List.mem_cons_of_mem _ hmem⟩
      · cases hp
        exact hinv
    dsimp only
    rw [hdcid]
    split
    · exact hconn
    · split
      · rename_i heq
        have hcounted : conn.counted pv.dcid = conn.current := if_pos heq
        exact sendCurrent_inv hconn hsettled fun hs => (hcounted ▸ hlen hs).mono (Nat.min_le_right _ _)
      · rename_i hne
        have hcounted : conn.counted pv.dcid = pv.dcid := if_neg hne
        refine sendAt_inv hconn rfl (congrArg Dcid.path hdcid) fun hs => ⟨Ne.symm hne, ?_⟩
        exact hdcid ▸ (hcounted ▸ hlen hs).mono (Nat.min_le_right _ _)

theorem writePathChallenge_inv (h : Inv s conn) (hsettled : s.owed = fun _ => 0) (w : WriteEnv) :
    Ends (Tolerated s.server True) (fun r => Inv s r.1) (conn.writePathChallenge w) := by
  rw [Conn.writePathChallenge.eq_def]
  cases hpv : conn.pv with
  | none => exact h
  | some pv =>
      have hinv := h.pv pv hpv
      refine Ends.bind (show Ends (Tolerated s.server True) (fun _ => True) _ from ?_) fun timedOut _ => ?_
      · rw [Pv.validationTimedOut]
        split
        · trivial
        · rename_i started hstarted
          split
          · rename_i hents
            intro hs
            have hne := (hinv.safe hs).started fun h => nomatch hstarted.symm.trans h
            exact absurd (List.getLast?_eq_none_iff.mp hents) hne
          · trivial
      · split
        · exact (Conn.onPathValidationFailed_inv h hpv w.ts).bind fun conn' h' => h'
        · have hexpired := hinv.handleEntryExpiry w.ts
          dsimp only
          split
          · refine ⟨h.core.withPv _, fun p hp => ?_⟩
            cases hp
            exact hexpired.withPv _
          · rename_i hprobe
            exact challenge_inv h hsettled hexpired hprobe w

theorem writePathFrames_inv (h : Inv s conn) (hsettled : s.owed = fun _ => 0) (w : WriteEnv) :
    Ends (Tolerated s.server True) (fun r => Inv s r.1) (conn.writePathFrames w) := by
  rw [Conn.writePathFrames]
  refine (writePathResponse_inv w conn.pathChallenge h).bind ?_
  rintro ⟨conn₁, n₁⟩ h₁
  dsimp only at h₁ ⊢
  split
  · exact h₁
  · refine (writePathChallenge_inv h₁ hsettled w).bind ?_
    rintro ⟨conn₂, n₂⟩ h₂
    dsimp only at h₂ ⊢
    split
    · exact h₂
    · split
      · rename_i hprobe
        rw [Bool.and_eq_true] at hprobe
        exact sendUncounted_inv h₂ fun _ hv => absurd (hprobe.2.symm.trans hv) (by decide)
      · exact h₂

theorem writeShortPkt_inv {destlen origlen : Nat} (h : Inv s conn) (hsettled : s.owed = fun _ => 0)
    (hfits : s.server = true → conn.current.Fits destlen) (horig : s.server = true → conn.current.Fits origlen) (w : WriteEnv) :
    Inv s (conn.writeShortPkt w destlen origlen) := by
  rw [Conn.writeShortPkt]
  split
  · exact sendUncounted_inv h fun hs => (horig hs).mono (Nat.min_le_right _ _)
  · exact sendCurrent_inv h hsettled fun hs => (hfits hs).mono (Nat.min_le_right _ _)

theorem writePkts_inv (h : Inv s conn) (hsettled : s.owed = fun _ => 0) (w : WriteEnv) (res destlen : Nat) :
    Ends (Tolerated s.server True) (Inv s) (conn.writePkts w res destlen) := by
  rw [Conn.writePkts]
  refine (limit_current_ends h w.shaped).bind fun origlen horig => ?_
  refine (limit_current_ends h destlen).bind fun destlen hdest => ?_
  have hhandshake : s.server = true → conn.current.Fits (if w.exceedCwnd then origlen else destlen) := by
    intro hs
    split
    · exact horig hs
    · exact hdest hs
  generalize (if w.exceedCwnd then origlen else destlen) = handshakeLen at hhandshake
  dsimp only
  split
  · have hsent := sendCurrent_inv h hsettled fun hs => (hhandshake hs).mono (Nat.min_le_right w.handshakeLen handshakeLen)
    split
    · split
      · exact hsent
      · refine sendCurrent_inv hsent hsettled fun hs => ((hhandshake hs).mono ?_).rest
        omega
    · rename_i hzero
      rw [not_not] at hzero
      have hrest : ∀ len, (s.server = true → conn.current.Fits len) →
          s.server = true → (conn.sendCurrent (min w.handshakeLen handshakeLen)).current.Fits len :=
        fun len hlen hs => ((hlen hs).mono (by omega)).rest
      split
      · exact sendCurrent_inv hsent hsettled fun hs => (hrest origlen horig hs).mono (Nat.min_le_right _ _)
      · exact writeShortPkt_inv hsent hsettled (hrest handshakeLen hhandshake) (hrest origlen horig) w
  · split
    · exact writeShortPkt_inv h hsettled hdest horig w
    · exact sendCurrent_inv h hsettled fun hs => (hdest hs).mono (Nat.min_le_right _ _)

theorem writeRest_inv (h : Inv s conn) (hsettled : s.owed = fun _ => 0) (w : WriteEnv) (res : Nat) :
    Ends (Tolerated s.server True) (Inv s) (conn.writeRest w res) := by
  rw [Conn.writeRest]
  split
  · exact writePkts_inv h hsettled w res 0
  · split
    · refine (writePathFrames_inv h hsettled w).bind ?_
      rintro ⟨conn', n⟩ h'
      dsimp only at h' ⊢
      split
      · exact h'
      · exact writePkts_inv h' hsettled w res _
    · exact writePkts_inv h hsettled w res _

theorem writeVmsg_inv (h : Inv s conn) (hsettled : s.owed = fun _ => 0) (w : WriteEnv) :
    Ends (Tolerated s.server True) (Inv s) (conn.writeVmsg w) := by
  rw [Conn.writeVmsg.eq_def]
  split
  · exact h
  · refine (limit_current_ends h w.shaped).bind fun len hlen => ?_
    refine (limit_current_ends h 1).bind fun one _ => ?_
    split
    · exact h
    · have hsent : ∀ n, Inv s (conn.sendCurrent (min n len)) := fun n =>
        sendCurrent_inv h hsettled fun hs => (hlen hs).mono (Nat.min_le_right n len)
      split
      · dsimp only
        split
        · exact writeRest_inv (hsent _) hsettled w _
        · exact hsent _
      · exact hsent _
  · split
    · exact writeRest_inv h hsettled w 0
    · exact (limit_current_ends h w.shaped).bind fun len hlen =>
        sendUncounted_inv h fun hs => (hlen hs).mono (Nat.min_le_right _ _)

end Zngtcp2.Migration
