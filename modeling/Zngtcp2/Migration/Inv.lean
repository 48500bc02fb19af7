import Mathlib.Data.List.Perm.Subperm
import Zngtcp2.Migration.Step

namespace Zngtcp2.Migration

open Lib.Run (Ends)

section
variable {α : Type}

theorem pushBack_eq (size : Nat) (xs : List α) (x : α) : ∃ ys, ys.Sublist xs ∧ pushBack size xs x = ys ++ [x] := by
  rw [pushBack]
  split
  · exact ⟨xs, List.Sublist.refl xs, rfl⟩
  · exact ⟨xs.tail, List.tail_sublist xs, rfl⟩

theorem mem_pushBack {size : Nat} {xs : List α} {x y : α} (h : y ∈ pushBack size xs x) : y ∈ xs ∨ y = x := by
  obtain ⟨ys, hsub, heq⟩ := pushBack_eq size xs x
  rw [heq, List.mem_append, List.mem_singleton] at h
  exact h.imp_left fun h => hsub.subset h

theorem mem_pushFront {size : Nat} {xs : List α} {x y : α} (h : y ∈ pushFront size xs x) : y = x ∨ y ∈ xs :=
  List.mem_cons.mp (List.mem_of_mem_take h)

theorem removeAt_perm {xs : List α} {i : Nat} {x : α} (h : xs[i]? = some x) : (x :: removeAt xs i).Perm xs := by
  rw [removeAt]
  split
  · subst i
    cases xs with
    | nil => cases h
    | cons y ys =>
        cases h
        exact List.Perm.refl _
  · rcases List.eq_nil_or_concat' xs with rfl | ⟨ys, last, rfl⟩
    · cases h
    · have hi : i < (ys ++ [last]).length := (List.getElem?_eq_some_iff.mp h).1
      rw [List.length_append, List.length_singleton] at hi
      rw [List.getLast?_concat]
      simp only
      rcases Nat.lt_succ_iff_lt_or_eq.mp hi with hlt | rfl
      · rw [List.getElem?_append_left hlt] at h
        rw [List.set_append_left i last hlt, List.dropLast_concat]
        obtain ⟨hlt, rfl⟩ := List.getElem?_eq_some_iff.mp h
        have hset := (List.set_perm_cons_eraseIdx hlt last).cons ys[i]
        have hall := (List.getElem_cons_eraseIdx_perm hlt).cons last
        exact hset.trans ((List.Perm.swap _ _ _).trans (hall.trans (List.perm_append_singleton last ys).symm))
      · rw [List.getElem?_append_right (Nat.le_refl _), Nat.sub_self] at h
        cases h
        rw [List.set_append_right ys.length _ (Nat.le_refl _), Nat.sub_self, List.set_cons_zero, List.dropLast_concat]
        exact (List.perm_append_singleton _ ys).symm

end

/-- What a server may end with, when an error is only returned if `full` holds. -/
def Stop.Expected (full : Prop) : Stop → Prop
  | .failed _ => full
  | .assertion => False
  | .unexpected unacked => 15 ≤ unacked

theorem expected_iff {stop : Stop} :
    stop.Expected True ↔ stop ≠ .assertion ∧ ∀ unacked, stop = .unexpected unacked → 15 ≤ unacked := by
  cases stop with
  | failed rv => exact ⟨fun _ => ⟨fun h => (nomatch h), fun _ h => nomatch h⟩, fun _ => trivial⟩
  | assertion => exact ⟨False.elim, fun h => h.1 rfl⟩
  | unexpected unacked => exact ⟨fun h => ⟨fun h => (nomatch h), fun _ heq => Stop.unexpected.inj heq ▸ h⟩, fun h => h.2 unacked rfl⟩

def Tolerated (server : Bool) (full : Prop) (stop : Stop) : Prop :=
  server = true → stop.Expected full

theorem assert_ends {server : Bool} {full p : Prop} [Decidable p] (h : server = true → p) :
    Ends (Tolerated server full) (fun _ => p) (assert p) := by
  rw [assert]
  split
  · assumption
  · rename_i hp
    exact fun hs => absurd (h hs) hp

namespace Dcidtr

/-- Only the connection IDs that are retired change. -/
structure Same (dtr' dtr : Dcidtr) : Prop where
  unused : dtr'.unused = dtr.unused
  bound : dtr'.bound = dtr.bound

/-- Connection IDs are only removed. -/
structure Within (dtr' dtr : Dcidtr) : Prop where
  unused : ∀ d ∈ dtr'.unused, d ∈ dtr.unused
  bound : dtr'.bound.Subperm dtr.bound

variable {dtr : Dcidtr} {server : Bool} {full : Prop}

theorem Same.refl (dtr : Dcidtr) : Same dtr dtr :=
  ⟨rfl, rfl⟩

theorem Same.trans {dtr₁ dtr₂ dtr₃ : Dcidtr} (h : Same dtr₁ dtr₂) (h' : Same dtr₂ dtr₃) : Same dtr₁ dtr₃ :=
  ⟨h.unused.trans h'.unused, h.bound.trans h'.bound⟩

theorem Same.within {dtr' : Dcidtr} (h : Same dtr' dtr) : Within dtr' dtr :=
  ⟨fun _ hd => h.unused ▸ hd, h.bound ▸ List.Subperm.refl _⟩

theorem Within.trans {dtr₁ dtr₂ dtr₃ : Dcidtr} (h : Within dtr₁ dtr₂) (h' : Within dtr₂ dtr₃) : Within dtr₁ dtr₃ :=
  ⟨fun d hd => h'.unused d (h.unused d hd), h.bound.trans h'.bound⟩

/-- One more retired sequence number may be tracked. -/
def Retires (dtr' dtr : Dcidtr) : Prop :=
  Same dtr' dtr ∧ dtr'.retireUnacked.length ≤ dtr.retireUnacked.length + 1

theorem trackRetiredSeq_ends (dtr : Dcidtr) (seq : Nat) (hfull : 16 ≤ dtr.retireUnacked.length → full) :
    Ends (Tolerated server full) (fun dtr' => Retires dtr' dtr) (dtr.trackRetiredSeq seq) := by
  rw [trackRetiredSeq]
  split
  · rename_i h
    exact fun _ => hfull h
  · refine ⟨⟨rfl, rfl⟩, ?_⟩
    rw [List.length_append, List.length_singleton]

theorem onRetire_ends (dtr : Dcidtr) (dcid : Dcid) (hfull : 16 ≤ dtr.retireUnacked.length → full) :
    Ends (Tolerated server full) (fun dtr' => Retires dtr' dtr) (dtr.onRetire dcid) := by
  rw [onRetire]
  split
  · exact ⟨Same.refl dtr, Nat.le_succ _⟩
  · exact (trackRetiredSeq_ends dtr dcid.seq hfull).bind fun dtr' h => show Retires _ dtr from ⟨⟨h.1.unused, h.1.bound⟩, h.2⟩

theorem retireActiveDcid_ends {dcid : Dcid} (hcid : server = true → dcid.cid ≠ []) (dtr : Dcidtr) (ts : Nat)
    (hfull : 16 ≤ dtr.retireUnacked.length → full) :
    Ends (Tolerated server full) (fun dtr' => Retires dtr' dtr) (dtr.retireActiveDcid dcid ts) := by
  rw [retireActiveDcid]
  refine (assert_ends hcid).bind fun _ _ => ?_
  refine Ends.bind (show Ends _ (fun dtr' => Retires dtr' dtr) _ from ?_) fun dtr' h => ?_
  · split
    · exact ⟨⟨rfl, rfl⟩, Nat.le_succ _⟩
    · refine (trackRetiredSeq_ends _ dcid.seq ?_).mono fun dtr' h => ⟨⟨h.1.unused, h.1.bound⟩, h.2⟩
      exact hfull
  · exact show Retires _ dtr from ⟨⟨h.1.unused, h.1.bound⟩, h.2⟩

theorem retireWhere_ends (stale : Dcid → Bool) (fuel : Nat) (rb : List Dcid) (i : Nat) (dtr : Dcidtr) :
    Ends (Tolerated server True) (fun r => r.1.Subperm rb ∧ Same r.2 dtr) (retireWhere stale fuel rb i dtr) := by
  induction fuel generalizing rb i dtr with
  | zero => exact ⟨List.Subperm.refl rb, Same.refl dtr⟩
  | succ fuel ih =>
      rw [retireWhere]
      cases hget : rb[i]? with
      | none => exact ⟨List.Subperm.refl rb, Same.refl dtr⟩
      | some dcid =>
          simp only
          split
          · refine (onRetire_ends dtr dcid fun _ => trivial).bind fun dtr' h => (ih (removeAt rb i) i dtr').mono fun r hr => ?_
            have hsub : (removeAt rb i).Subperm rb :=
              (List.sublist_cons_self dcid _).subperm.trans (removeAt_perm hget).subperm
            exact ⟨hr.1.trans hsub, hr.2.trans h.1⟩
          · exact ih rb (i + 1) dtr

theorem retireInactiveDcidPriorTo_ends (dtr : Dcidtr) (seq : Nat) :
    Ends (Tolerated server True) (fun dtr' => Within dtr' dtr) (dtr.retireInactiveDcidPriorTo seq) := by
  rw [retireInactiveDcidPriorTo]
  refine (retireWhere_ends _ _ _ _ _).bind fun ⟨bound, dtr₁⟩ h₁ => ?_
  refine (retireWhere_ends _ _ _ _ _).bind fun ⟨unused, dtr₂⟩ h₂ => ⟨fun d hd => ?_, ?_⟩
  · exact h₁.2.unused ▸ h₂.1.subset hd
  · exact h₂.2.bound ▸ h₁.1

theorem retireStaleBoundDcid_ends (h : server = true → ∀ d ∈ dtr.bound, d.cid ≠ []) (timeout ts : Nat) :
    Ends (Tolerated server True) (fun dtr' => Within dtr' dtr) (dtr.retireStaleBoundDcid timeout ts) := by
  rw [retireStaleBoundDcid]
  refine (assert_ends h).bind fun _ _ => ?_
  refine (retireWhere_ends _ _ _ _ _).bind fun ⟨bound, dtr'⟩ h' => ⟨fun d hd => ?_, h'.1⟩
  exact h'.2.unused ▸ hd

theorem popBoundDcid_spec {path : Path} {dcid : Dcid} {dtr' : Dcidtr} (h : dtr.popBoundDcid path = some (dcid, dtr')) :
    dcid.path = path ∧ dtr'.unused = dtr.unused ∧ dtr'.retireUnacked = dtr.retireUnacked ∧ (dcid :: dtr'.bound).Perm dtr.bound := by
  rw [popBoundDcid] at h
  split at h
  · cases h
  · rename_i i hi
    obtain ⟨d, hget, heq⟩ := Option.map_eq_some_iff.mp h
    cases heq
    refine ⟨?_, rfl, rfl, removeAt_perm hget⟩
    obtain ⟨hlt, hp, -⟩ := List.findIdx?_eq_some_iff_getElem.mp hi
    obtain ⟨hlt, rfl⟩ := List.getElem?_eq_some_iff.mp hget
    exact of_decide_eq_true hp

theorem popBoundDcid_none {path : Path} (h : dtr.popBoundDcid path = none) : ∀ d ∈ dtr.bound, d.path ≠ path := by
  rw [popBoundDcid] at h
  split at h
  · rename_i hnone
    exact fun d hd => of_decide_eq_false (List.findIdx?_eq_none_iff.mp hnone d hd)
  · rename_i i hi
    obtain ⟨hlt, -⟩ := List.findIdx?_eq_some_iff_getElem.mp hi
    rw [List.getElem?_eq_getElem hlt] at h
    cases h

theorem findBoundDcid_none {path : Path} (h : (dtr.findBoundDcid path).isSome = false) : ∀ d ∈ dtr.bound, d.path ≠ path := by
  rw [findBoundDcid, Option.isSome_eq_false_iff, Option.isNone_iff_eq_none, List.find?_eq_none] at h
  exact fun d hd heq => h d hd (decide_eq_true heq)

theorem findBoundDcid_some {path : Path} {dcid : Dcid} (h : dtr.findBoundDcid path = some dcid) :
    dcid ∈ dtr.bound ∧ dcid.path = path :=
  ⟨List.mem_of_find?_eq_some h, of_decide_eq_true (@List.find?_some _ (fun d : Dcid => d.path = path) _ _ h)⟩

theorem findBoundDcid_eq {path : Path} {dcid : Dcid} (hpaths : (dtr.bound.map Dcid.path).Nodup) (hmem : dcid ∈ dtr.bound)
    (hpath : dcid.path = path) : dtr.findBoundDcid path = some dcid := by
  cases hfind : dtr.findBoundDcid path with
  | none =>
      have hnone : (dtr.findBoundDcid path).isSome = false := by rw [hfind]; rfl
      exact absurd hpath (findBoundDcid_none hnone dcid hmem)
  | some found =>
      obtain ⟨hfound, hsame⟩ := findBoundDcid_some hfind
      rw [List.inj_on_of_nodup_map hpaths hfound hmem (hsame.trans hpath.symm)]

theorem popUnused_ends (h : server = true → dtr.unused ≠ []) :
    Ends (Tolerated server full) (fun r => r.1 ∈ dtr.unused ∧ r.2.Within dtr ∧ r.2.bound = dtr.bound ∧
      r.2.retireUnacked = dtr.retireUnacked) dtr.popUnused := by
  rw [popUnused]
  cases hunused : dtr.unused with
  | nil => exact fun hs => absurd hunused (h hs)
  | cons dcid unused =>
      refine ⟨List.mem_cons_self, ⟨fun d hd => ?_, List.Subperm.refl _⟩, rfl, rfl⟩
      rw [hunused]
      exact List.mem_cons_of_mem dcid hd

theorem untrackRetiredSeq_same (dtr : Dcidtr) (seq : Nat) : Same (dtr.untrackRetiredSeq seq) dtr := by
  rw [untrackRetiredSeq]
  split
  · exact Same.refl dtr
  · exact ⟨rfl, rfl⟩

theorem foldl_untrackRetiredSeq_same (seqs : List Nat) (dtr : Dcidtr) : Same (seqs.foldl untrackRetiredSeq dtr) dtr := by
  induction seqs generalizing dtr with
  | nil => exact Same.refl dtr
  | cons seq seqs ih => exact (ih _).trans (untrackRetiredSeq_same dtr seq)

end Dcidtr

/-- What stays the same while an input is processed. `owed` is three times what has been received from
a path in the datagram, which is not yet entered at the connection ID of the path. A path is validated
because it is trusted, or because of the data of a PATH_RESPONSE frame. -/
structure Setup where
  server : Bool
  zerolen : Bool
  state : State
  owed : Path → Nat
  trusted : Path → Prop
  responded : List UInt8 → Prop

/-- There is a reason for which the path is validated. -/
def Setup.Validates (s : Setup) (challenged : List (Path × List UInt8)) (path : Path) : Prop :=
  s.trusted path ∨ ∃ data, s.responded data ∧ (path, data) ∈ challenged

/-- The paths that were validated, and the bytes received and sent. -/
structure Ledger where
  answered : List Path
  received : Path → Nat
  sent : Path → Nat

def Conn.ledger (conn : Conn) : Ledger :=
  ⟨conn.answered, conn.received, conn.sent⟩

/-- The bytes entered at a connection ID cover what may still be sent to its path. -/
structure Account (l : Ledger) (owed : Path → Nat) (dcid : Dcid) : Prop where
  left : dcid.validated = false → dcid.bytesSent ≤ dcid.bytesRecv * 3
  paid : dcid.path ∉ l.answered →
    dcid.bytesRecv * 3 + l.sent dcid.path + owed dcid.path ≤ l.received dcid.path * 3 + dcid.bytesSent

/-- A connection ID at a path that is not the current one. -/
structure Aside (s : Setup) (l : Ledger) (current : Path) (dcid : Dcid) : Prop where
  cid : dcid.cid = [] ↔ s.zerolen = true
  current : dcid.path ≠ current
  account : Account l s.owed dcid

/-- The gaps of the sequence numbers; those that no frame can have remain in the last one. -/
structure SeqGaps (gaps : Gaptr.Gaps) : Prop where
  sorted : Gaptr.Sorted gaps
  lt : ∀ x, Gaptr.Mem (Gaptr.initialized gaps) x → x < uint64Max
  last : Gaptr.Mem (Gaptr.initialized gaps) (uint64Max - 1)

structure Safe (s : Setup) (conn : Conn) : Prop where
  cid : conn.current.cid = [] ↔ s.zerolen = true
  account : Account conn.ledger (fun _ => 0) conn.current
  zerolen : s.zerolen = true → conn.dtr.unused = [] ∧ conn.retirePriorTo = 0
  unused : ∀ d ∈ conn.dtr.unused, d.cid ≠ []
  bound : ∀ d ∈ conn.dtr.bound, Aside s conn.ledger conn.current.path d
  paths : (conn.dtr.bound.map Dcid.path).Nodup
  total : ∀ path, path ∉ conn.answered → conn.sent path + s.owed path ≤ conn.received path * 3
  peak : ∀ path, path ∉ conn.answered → conn.peak path ≤ conn.received path * 3
  seqgap : SeqGaps conn.seqgap
  pmtud : s.state = .handshake → conn.pmtud = false

/-- The flags of the connection IDs that are not in the path validation, and what a server needs. -/
structure Core (s : Setup) (conn : Conn) : Prop where
  server : conn.server = s.server
  state : conn.state = s.state
  current : conn.current.validated = true → conn.current.path ∈ conn.answered
  unused : ∀ d ∈ conn.dtr.unused, d.validated = false ∧ d.bytesSent = 0 ∧ d.bytesRecv = 0
  bound : ∀ d ∈ conn.dtr.bound, d.validated = false
  history : ∀ ent ∈ conn.pathHistory, ent.path ∈ conn.answered
  answered : ∀ path ∈ conn.answered, s.Validates conn.challenged path
  safe : s.server = true → Safe s conn

structure PvSafe (s : Setup) (conn : Conn) (pv : Pv) : Prop where
  state : s.state ≠ .handshake
  started : pv.startedTs ≠ none → pv.ents ≠ []
  cid : pv.dcid.cid = [] ↔ s.zerolen = true
  free : ∀ d ∈ conn.dtr.bound, d.path ≠ pv.dcid.path
  account : pv.dcid.path ≠ conn.current.path → Account conn.ledger s.owed pv.dcid
  validated : pv.dcid.path = conn.current.path → pv.dcid.validated = true → conn.current.validated = true
  dontCare : pv.dontCare = true → pv.dcid.path ≠ conn.current.path
  fallback : ∀ dcid ∈ pv.fallback,
    Aside s conn.ledger conn.current.path dcid ∧ dcid.path ≠ pv.dcid.path ∧ ∀ d ∈ conn.dtr.bound, d.path ≠ dcid.path
  pmtud : pv.fallback.isSome = true → conn.pmtud = false

structure PvInv (s : Setup) (conn : Conn) (pv : Pv) : Prop where
  dcid : pv.dcid.validated = true → pv.dcid.path ∈ conn.answered
  fallback : ∀ dcid ∈ pv.fallback, dcid.validated = true → dcid.path ∈ conn.answered
  ents : ∀ ent ∈ pv.ents, (pv.dcid.path, ent.data) ∈ conn.challenged
  safe : s.server = true → PvSafe s conn pv

structure Inv (s : Setup) (conn : Conn) : Prop where
  core : Core s conn
  pv : ∀ pv ∈ conn.pv, PvInv s conn pv

section
variable {l : Ledger} {owed : Path → Nat} {dcid : Dcid}

theorem Account.of_validated (hv : dcid.validated = true) (hp : dcid.path ∈ l.answered) : Account l owed dcid :=
  ⟨fun h => absurd (hv.symm.trans h) (by decide), fun h => absurd hp h⟩

theorem Account.of_zero (hsent : dcid.bytesSent = 0) (hrecv : dcid.bytesRecv = 0)
    (htotal : ∀ path, path ∉ l.answered → l.sent path + owed path ≤ l.received path * 3) : Account l owed dcid := by
  refine ⟨fun _ => by omega, fun hp => ?_⟩
  have := htotal dcid.path hp
  omega

theorem Account.mono {owed' : Path → Nat} (h : Account l owed dcid) (hle : ∀ path, owed' path ≤ owed path) :
    Account l owed' dcid := by
  refine ⟨h.left, fun hp => ?_⟩
  have := h.paid hp
  have := hle dcid.path
  omega

/-- The bytes of the datagram are entered at the connection ID of its path. -/
theorem Account.credit {n : Nat} (h : Account l owed dcid) (howed : owed dcid.path = n * 3) :
    Account l (fun _ => 0) (dcid.grow n 0) := by
  refine ⟨fun hv => ?_, fun hp => ?_⟩
  · have := h.left hv
    simp only [Dcid.grow]
    omega
  · have := h.paid hp
    simp only [Dcid.grow]
    omega

theorem Account.answer (h : Account l owed dcid) (paths : List Path) :
    Account { l with answered := paths ++ l.answered } owed dcid :=
  ⟨h.left, fun hp => h.paid fun hmem => hp (List.mem_append_right paths hmem)⟩

theorem Aside.answer {s : Setup} {current : Path} (h : Aside s l current dcid) (paths : List Path) :
    Aside s { l with answered := paths ++ l.answered } current dcid :=
  ⟨h.cid, h.current, h.account.answer paths⟩

end

variable {s : Setup} {conn : Conn}

theorem Inv.answer (h : Inv s conn) {paths : List Path} (hpaths : ∀ path ∈ paths, s.Validates conn.challenged path) :
    Inv s { conn with answered := paths ++ conn.answered } := by
  have hmem : ∀ path ∈ conn.answered, path ∈ paths ++ conn.answered := fun _ hp => List.mem_append_right paths hp
  refine ⟨{ h.core with
    current := fun hv => hmem _ (h.core.current hv)
    history := fun ent hent => hmem _ (h.core.history ent hent)
    answered := List.forall_mem_append.mpr ⟨hpaths, h.core.answered⟩
    safe := fun hs => ?_ }, fun pv hpv => ?_⟩
  · have hsafe := h.core.safe hs
    exact { hsafe with
      account := hsafe.account.answer paths
      bound := fun d hd => (hsafe.bound d hd).answer paths
      total := fun path hp => hsafe.total path fun hin => hp (hmem path hin)
      peak := fun path hp => hsafe.peak path fun hin => hp (hmem path hin) }
  · have hinv := h.pv pv hpv
    refine ⟨fun hv => hmem _ (hinv.dcid hv), fun d hd hv => hmem _ (hinv.fallback d hd hv), hinv.ents, fun hs => ?_⟩
    have hsafe := hinv.safe hs
    exact { hsafe with
      account := fun hne => (hsafe.account hne).answer paths
      fallback := fun d hd => ⟨(hsafe.fallback d hd).1.answer paths, (hsafe.fallback d hd).2⟩ }

theorem Core.withPv (h : Core s conn) (pv : Option Pv) : Core s { conn with pv := pv } :=
  { h with safe := fun hs => { h.safe hs with } }

theorem Core.withDtr {dtr : Dcidtr} (h : Core s conn) (hdtr : dtr.Within conn.dtr) : Core s { conn with dtr := dtr } := by
  refine { h with
    unused := fun d hd => h.unused d (hdtr.unused d hd)
    bound := fun d hd => h.bound d (hdtr.bound.subset hd)
    safe := fun hs => ?_ }
  have hsafe := h.safe hs
  refine { hsafe with
    zerolen := fun hz => ⟨?_, (hsafe.zerolen hz).2⟩
    unused := fun d hd => hsafe.unused d (hdtr.unused d hd)
    bound := fun d hd => hsafe.bound d (hdtr.bound.subset hd)
    paths := ?_ }
  · apply List.eq_nil_iff_forall_not_mem.mpr
    intro d hd
    have := hdtr.unused d hd
    rw [(hsafe.zerolen hz).1] at this
    exact List.not_mem_nil this
  · obtain ⟨l, hperm, hsub⟩ := hdtr.bound
    exact ((hperm.map Dcid.path).nodup_iff).mp ((hsub.map Dcid.path).nodup hsafe.paths)

theorem PvInv.withDtr {dtr : Dcidtr} {pv : Pv} (h : PvInv s conn pv) (hdtr : dtr.Within conn.dtr) :
    PvInv s { conn with dtr := dtr } pv := by
  refine { h with safe := fun hs => ?_ }
  have hsafe := h.safe hs
  exact { hsafe with
    free := fun d hd => hsafe.free d (hdtr.bound.subset hd)
    fallback := fun d hd => ⟨(hsafe.fallback d hd).1, (hsafe.fallback d hd).2.1,
      fun b hb => (hsafe.fallback d hd).2.2 b (hdtr.bound.subset hb)⟩ }

theorem Inv.withDtr {dtr : Dcidtr} (h : Inv s conn) (hdtr : dtr.Within conn.dtr) : Inv s { conn with dtr := dtr } :=
  ⟨h.core.withDtr hdtr, fun pv hpv => (h.pv pv hpv).withDtr hdtr⟩

theorem Core.stopped {dtr : Dcidtr} (h : Core s conn) (hdtr : dtr.Within conn.dtr) : Inv s { conn with pv := none, dtr := dtr } :=
  ⟨(h.withPv none).withDtr hdtr, fun _ hpv => nomatch hpv⟩

theorem Core.withHistory {pathHistory : List PathHistoryEntry} (h : Core s conn)
    (hmem : ∀ ent ∈ pathHistory, ent.path ∈ conn.answered) : Core s { conn with pathHistory := pathHistory } :=
  { h with history := hmem, safe := fun hs => { h.safe hs with } }

theorem Core.withPmtud (h : Core s conn) (pmtud : Bool) (hstate : s.server = true → s.state ≠ .handshake) :
    Core s { conn with pmtud := pmtud } :=
  { h with safe := fun hs => { h.safe hs with pmtud := fun heq => absurd heq (hstate hs) } }

theorem Core.withCurrent {dcid : Dcid} (h : Core s conn) (hflag : dcid.validated = true → dcid.path ∈ conn.answered)
    (hsafe : s.server = true → (dcid.cid = [] ↔ s.zerolen = true) ∧ Account conn.ledger (fun _ => 0) dcid ∧
      ∀ d ∈ conn.dtr.bound, d.path ≠ dcid.path) : Core s { conn with current := dcid } := by
  refine { h with
    current := hflag
    safe := fun hs => ?_ }
  obtain ⟨hcid, haccount, hfree⟩ := hsafe hs
  exact { h.safe hs with
    cid := hcid
    account := haccount
    bound := fun d hd => { (h.safe hs).bound d hd with current := hfree d hd } }

theorem Inv.withOther (h : Inv s conn) (handshakeConfirmed : Bool) (pathChallenge : List (Path × List UInt8)) :
    Inv s { conn with
      handshakeConfirmed := handshakeConfirmed
      pathChallenge := pathChallenge } :=
  ⟨{ h.core with safe := fun hs => { h.core.safe hs with } },
    fun pv hpv => { h.pv pv hpv with safe := fun hs => { (h.pv pv hpv).safe hs with } }⟩

theorem Inv.settle (h : Inv s conn) : Inv { s with owed := fun _ => 0 } conn := by
  refine ⟨{ h.core with safe := fun hs => ?_ }, fun pv hpv => { h.pv pv hpv with safe := fun hs => ?_ }⟩
  · have hsafe := h.core.safe hs
    exact { hsafe with
      bound := fun d hd => { hsafe.bound d hd with account := (hsafe.bound d hd).account.mono fun _ => Nat.zero_le _ }
      total := fun path hp => Nat.le_trans (Nat.le_add_right _ _) (hsafe.total path hp) }
  · have hsafe := (h.pv pv hpv).safe hs
    exact { hsafe with
      account := fun hne => (hsafe.account hne).mono fun _ => Nat.zero_le _
      fallback := fun d hd => ⟨{ (hsafe.fallback d hd).1 with
        account := (hsafe.fallback d hd).1.account.mono fun _ => Nat.zero_le _ }, (hsafe.fallback d hd).2⟩ }

namespace Conn

theorem findPathHistory_mem {path : Path} {ts i : Nat} (h : conn.findPathHistory path ts = some i) :
    ∃ ent ∈ conn.pathHistory, ent.path = path := by
  rw [findPathHistory] at h
  generalize conn.pathHistory = pathHistory at h ⊢
  induction pathHistory generalizing i with
  | nil => cases h
  | cons ent rest ih =>
      rw [findPathHistory.go] at h
      split at h
      · cases h
      · split at h
        · exact ⟨ent, List.mem_cons_self, by assumption⟩
        · obtain ⟨j, hj, -⟩ := Option.map_eq_some_iff.mp h
          obtain ⟨ent', hent', heq⟩ := ih hj
          exact ⟨ent', List.mem_cons_of_mem ent hent', heq⟩

theorem addCurrentToHistory_spec (h : Core s conn) (ts i : Nat) :
    ∃ pathHistory, (conn.addCurrentToHistory ts i).1 = { conn with pathHistory := pathHistory } ∧
      ∀ ent ∈ pathHistory, ent.path ∈ conn.answered := by
  rw [addCurrentToHistory]
  split
  · rename_i hv
    refine ⟨_, rfl, fun ent hent => ?_⟩
    rcases mem_pushFront hent with rfl | hent
    · exact h.current hv
    · exact h.history ent hent
  · exact ⟨conn.pathHistory, rfl, h.history⟩

theorem startPmtudIf_ends {full : Prop} (h : s.server = true → conn.pmtud = false) (env : Env) :
    Ends (Tolerated s.server full) (fun conn' => ∃ pmtud, conn' = { conn with pmtud := pmtud }) (conn.startPmtudIf env) := by
  rw [startPmtudIf]
  split
  · exact ⟨conn.pmtud, rfl⟩
  · exact (assert_ends h).bind fun _ _ => ⟨_, rfl⟩

theorem retireUnless_ends {full : Prop} (server : Bool) (dcid : Dcid) (kept : List Nat) (ts : Nat)
    (hfull : 16 ≤ conn.dtr.retireUnacked.length → full) :
    Ends (Tolerated server full) (fun conn' => ∃ dtr, dtr.Retires conn.dtr ∧ conn' = { conn with dtr := dtr })
      (conn.retireUnless dcid kept ts) := by
  rw [retireUnless]
  split
  · rename_i h
    exact (Dcidtr.retireActiveDcid_ends (fun _ => h.1) conn.dtr ts hfull).bind fun dtr hdtr => ⟨dtr, hdtr, rfl⟩
  · exact ⟨conn.dtr, ⟨Dcidtr.Same.refl _, Nat.le_succ _⟩, rfl⟩

/-- Two connection IDs are retired at most. -/
theorem stopPv_ends {full : Prop} (server : Bool) (conn : Conn) (ts : Nat) (hfull : 15 ≤ conn.dtr.retireUnacked.length → full) :
    Ends (Tolerated server full) (fun conn' => ∃ dtr, dtr.Same conn.dtr ∧ conn' = { conn with pv := none, dtr := dtr })
      (conn.stopPv ts) := by
  rw [stopPv]
  split
  · rename_i hpv
    exact ⟨conn.dtr, Dcidtr.Same.refl _, by rw [← hpv]⟩
  · rename_i pv hpv
    refine (retireUnless_ends server pv.dcid [conn.current.seq] ts fun h => hfull (by omega)).bind fun conn₁ h₁ => ?_
    obtain ⟨dtr₁, ⟨hdtr₁, hlen⟩, rfl⟩ := h₁
    refine Ends.bind (show Ends _ (fun conn₂ => ∃ dtr₂, Dcidtr.Same dtr₂ conn.dtr ∧ conn₂ = { conn with dtr := dtr₂ }) _ from ?_) ?_
    · split
      · exact ⟨dtr₁, hdtr₁, rfl⟩
      · refine (retireUnless_ends server _ _ ts ?_).mono ?_
        · exact fun h => hfull (Nat.le_of_succ_le_succ (Nat.le_trans h hlen))
        · rintro conn₂ ⟨dtr₂, hdtr₂, heq⟩
          exact ⟨dtr₂, hdtr₂.1.trans hdtr₁, heq⟩
    · rintro conn₂ ⟨dtr₂, hdtr₂, rfl⟩
      exact ⟨dtr₂, hdtr₂, rfl⟩

theorem abortPv_ends {server : Bool} {full : Prop} (h : server = true → conn.pv.isSome = true) (ts : Nat)
    (hfull : 15 ≤ conn.dtr.retireUnacked.length → full) :
    Ends (Tolerated server full) (fun conn' => ∃ dtr, dtr.Same conn.dtr ∧ conn' = { conn with pv := none, dtr := dtr })
      (conn.abortPv ts) :=
  (assert_ends h).bind fun _ _ => stopPv_ends server conn ts hfull

theorem abortIf_ends {full : Prop} (server : Bool) (conn : Conn) (ts : Nat) (hfull : 15 ≤ conn.dtr.retireUnacked.length → full) :
    Ends (Tolerated server full) (fun conn' => ∃ dtr, dtr.Same conn.dtr ∧ conn' = { conn with pv := none, dtr := dtr })
      (if conn.pv.isSome then conn.abortPv ts else .ok conn) := by
  split
  · rename_i hsome
    exact abortPv_ends (fun _ => hsome) ts hfull
  · rename_i hnone
    rw [Bool.not_eq_true, Option.isSome_eq_false_iff, Option.isNone_iff_eq_none] at hnone
    exact ⟨conn.dtr, Dcidtr.Same.refl _, by rw [← hnone]⟩

/-- The connection goes on at the path of the fallback, or where it is. -/
theorem onPathValidationFailed_inv (h : Inv s conn) {pv : Pv} (hpv : conn.pv = some pv) (ts : Nat) :
    Ends (Tolerated s.server True) (Inv s) (conn.onPathValidationFailed pv ts) := by
  rw [onPathValidationFailed]
  split
  · refine (stopPv_ends s.server conn ts fun _ => trivial).mono ?_
    rintro conn' ⟨dtr, hdtr, rfl⟩
    exact h.core.stopped hdtr.within
  · rename_i fallback hfallback
    refine (stopPv_ends s.server _ ts fun _ => trivial).mono ?_
    rintro conn' ⟨dtr, hdtr, rfl⟩
    have hinv := h.pv pv hpv
    refine Core.stopped (h.core.withCurrent (hinv.fallback fallback hfallback) fun hs => ?_) hdtr.within
    obtain ⟨haside, -, hfree⟩ := (hinv.safe hs).fallback fallback hfallback
    exact ⟨haside.cid, haside.account.mono fun _ => Nat.zero_le _, hfree⟩

end Conn

end Zngtcp2.Migration
