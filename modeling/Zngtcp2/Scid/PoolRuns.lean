import Mathlib.Data.List.Perm.Basic
import Zngtcp2.Scid.Pool

namespace Zngtcp2.ScidPool

open Control Lib.Run
open Strm (Stop)

/-- The set, the priority queue and the counter of the retired entries agree. -/
structure Consistent (set : List Scid) (used : List Cid) (numRetired lastSeq limit : Nat) : Prop where
  cids : (set.map Scid.cid).Nodup
  seqs : (set.map Scid.seq).Nodup
  seq_le : ∀ x ∈ set, x.seq ≤ lastSeq
  retired : numRetired = set.countP Scid.retired
  queued : ∀ x ∈ set, x.queued = (x.used || x.retired)
  used : used.Perm ((set.filter Scid.queued).map Scid.cid)
  ts : ∀ x ∈ set, x.retired = false → x.retiredTs = uint64Max
  active : set.length ≤ limit + numRetired
  size : set.length ≤ maxScidPoolSize

variable {set set' : List Scid} {used used' : List Cid} {numRetired lastSeq limit : Nat}

theorem Consistent.perm (h : Consistent set used numRetired lastSeq limit) (hp : set'.Perm set) (hu : used'.Perm used) :
    Consistent set' used' numRetired lastSeq limit where
  cids := (hp.map Scid.cid).nodup_iff.mpr h.cids
  seqs := (hp.map Scid.seq).nodup_iff.mpr h.seqs
  seq_le := fun x hx => h.seq_le x (hp.subset hx)
  retired := by rw [hp.countP_eq, h.retired]
  queued := fun x hx => h.queued x (hp.subset hx)
  used := hu.trans (h.used.trans ((hp.filter _).map _).symm)
  ts := fun x hx => h.ts x (hp.subset hx)
  active := hp.length_eq ▸ h.active
  size := hp.length_eq ▸ h.size

/-- The entry of a connection ID can be taken out of the set and changed. -/
theorem perm_of_mem {x : Scid} (hc : (set.map Scid.cid).Nodup) (hx : x ∈ set) :
    set.Perm (x :: set.filter (fun y => decide (y.cid ≠ x.cid))) ∧
      ∀ f, (update set x.cid f).Perm (f x :: set.filter (fun y => decide (y.cid ≠ x.cid))) := by
  induction set with
  | nil => cases hx
  | cons y ys ih =>
      obtain ⟨hy, hys⟩ := List.nodup_cons.mp hc
      rcases List.mem_cons.mp hx with rfl | hmem
      · have hne : ∀ z ∈ ys, z.cid ≠ x.cid := fun z hz heq => hy (heq ▸ List.mem_map_of_mem hz)
        have hfilter : ys.filter (fun y => decide (y.cid ≠ x.cid)) = ys :=
          List.filter_eq_self.mpr (fun z hz => decide_eq_true (hne z hz))
        have hupdate : ∀ f : Scid → Scid, ys.map (fun z => if z.cid = x.cid then f z else z) = ys := fun f =>
          (List.map_congr_left (fun z hz => if_neg (hne z hz))).trans (List.map_id ys)
        rw [List.filter_cons_of_neg (by simp), hfilter]
        refine ⟨List.Perm.refl _, fun f => ?_⟩
        rw [update, List.map_cons, if_pos rfl, hupdate f]
      · have hne : y.cid ≠ x.cid := fun heq => hy (heq ▸ List.mem_map_of_mem hmem)
        obtain ⟨hset, hupd⟩ := ih hys hmem
        rw [List.filter_cons_of_pos (by simpa using hne)]
        refine ⟨(hset.cons y).trans (List.Perm.swap x y _), fun f => ?_⟩
        rw [update, List.map_cons, if_neg hne]
        exact ((hupd f).cons y).trans (List.Perm.swap (f x) y _)

theorem Consistent.issue (h : Consistent set used numRetired lastSeq limit) {cid : Cid} (hcid : cid ∉ set.map Scid.cid)
    (hactive : set.length < limit + numRetired) (hsize : set.length < maxScidPoolSize) :
    Consistent (.init (lastSeq + 1) cid :: set) used numRetired (lastSeq + 1) limit where
  cids := List.nodup_cons.mpr ⟨hcid, h.cids⟩
  seqs := by
    refine List.nodup_cons.mpr ⟨fun hmem => ?_, h.seqs⟩
    obtain ⟨x, hx, heq⟩ := List.mem_map.mp hmem
    have hle := h.seq_le x hx
    rw [heq] at hle
    exact absurd hle (Nat.not_succ_le_self lastSeq)
  seq_le := List.forall_mem_cons.mpr ⟨Nat.le_refl _, fun x hx => Nat.le_succ_of_le (h.seq_le x hx)⟩
  retired := by rw [List.countP_cons_of_neg (by simp [Scid.init]), h.retired]
  queued := List.forall_mem_cons.mpr ⟨rfl, h.queued⟩
  used := by
    rw [List.filter_cons_of_neg (by simp [Scid.init])]
    exact h.used
  ts := List.forall_mem_cons.mpr ⟨fun _ => rfl, h.ts⟩
  active := hactive
  size := hsize

theorem Consistent.use {x : Scid} (h : Consistent (x :: set) used numRetired lastSeq limit) :
    Consistent ({ x with used := true, queued := true } :: set) (if x.queued then used else x.cid :: used) numRetired lastSeq limit where
  cids := h.cids
  seqs := h.seqs
  seq_le := List.forall_mem_cons.mpr (List.forall_mem_cons.mp h.seq_le)
  retired := by
    rw [h.retired, List.countP_cons, List.countP_cons]
  queued := List.forall_mem_cons.mpr ⟨rfl, (List.forall_mem_cons.mp h.queued).2⟩
  used := by
    have hused := h.used
    rw [List.filter_cons_of_pos rfl, List.map_cons]
    split
    · rename_i hq
      rwa [List.filter_cons_of_pos hq, List.map_cons] at hused
    · rename_i hq
      rw [List.filter_cons_of_neg hq] at hused
      exact hused.cons x.cid
  ts := List.forall_mem_cons.mpr (List.forall_mem_cons.mp h.ts)
  active := h.active
  size := h.size

theorem Consistent.retire {x : Scid} (h : Consistent (x :: set) used numRetired lastSeq limit) (now : Nat) :
    Consistent ({ x with retired := true, queued := true, retiredTs := now } :: set)
      (x.cid :: (if x.queued then used.erase x.cid else used)) (if x.retired then numRetired else numRetired + 1) lastSeq limit where
  cids := h.cids
  seqs := h.seqs
  seq_le := List.forall_mem_cons.mpr (List.forall_mem_cons.mp h.seq_le)
  retired := by
    have hretired := h.retired
    rw [List.countP_cons_of_pos rfl]
    split
    · rename_i hr
      rwa [List.countP_cons_of_pos hr] at hretired
    · rename_i hr
      rw [List.countP_cons_of_neg hr] at hretired
      rw [hretired]
  queued := List.forall_mem_cons.mpr ⟨by simp, (List.forall_mem_cons.mp h.queued).2⟩
  used := by
    have hused := h.used
    rw [List.filter_cons_of_pos rfl, List.map_cons]
    refine List.Perm.cons _ ?_
    split
    · rename_i hq
      rw [List.filter_cons_of_pos hq, List.map_cons] at hused
      have herase := hused.erase x.cid
      rwa [List.erase_cons_head] at herase
    · rename_i hq
      rwa [List.filter_cons_of_neg hq] at hused
  ts := List.forall_mem_cons.mpr ⟨fun hr => (nomatch hr), (List.forall_mem_cons.mp h.ts).2⟩
  active := by
    have hactive := h.active
    split
    · exact hactive
    · exact Nat.le_trans hactive (Nat.le_succ _)
  size := h.size

theorem Consistent.remove {x : Scid} (h : Consistent (x :: set) used numRetired lastSeq limit) (hr : x.retired = true) :
    0 < numRetired ∧ Consistent set (used.erase x.cid) (numRetired - 1) lastSeq limit := by
  have hretired := h.retired
  rw [List.countP_cons_of_pos hr] at hretired
  have hq : x.queued = true := by rw [h.queued x List.mem_cons_self, hr, Bool.or_true]
  refine ⟨by omega, (List.nodup_cons.mp h.cids).2, (List.nodup_cons.mp h.seqs).2, (List.forall_mem_cons.mp h.seq_le).2, by omega,
    (List.forall_mem_cons.mp h.queued).2, ?_, (List.forall_mem_cons.mp h.ts).2, ?_, Nat.le_of_succ_le h.size⟩
  · have hused := h.used
    rw [List.filter_cons_of_pos hq, List.map_cons] at hused
    have herase := hused.erase x.cid
    rwa [List.erase_cons_head] at herase
  · have hactive := h.active
    rw [List.length_cons] at hactive
    omega

/-- What holds of the pool in every run. -/
structure Inv (s : Pool) : Prop where
  consistent : Consistent s.set s.used s.numRetired s.lastSeq s.limit
  tracks : s.frames.Tracks s.issued s.acked
  issued_le : ∀ n ∈ s.issued, n ≤ s.lastSeq
  nodup : s.issued.Nodup
  inFlight : s.numInFlight + s.acked.length = s.issued.length
  inFlight_le : s.numInFlight ≤ maxScidPoolSize

theorem consistent_init (seq : Nat) (cid : Cid) (limit : Limit) : Consistent [.init seq cid] [] 0 seq limit where
  cids := List.nodup_singleton _
  seqs := List.nodup_singleton _
  seq_le := List.forall_mem_singleton.mpr (Nat.le_refl _)
  retired := rfl
  queued := List.forall_mem_singleton.mpr rfl
  used := List.Perm.nil
  ts := List.forall_mem_singleton.mpr (fun _ => rfl)
  active := Nat.le_trans (Nat.le_succ 1) limit.property
  size := Nat.le_add_left 1 7

theorem new_inv {oscid : Cid} {preferredAddr : Option Cid} {limit : Limit} {s : Pool}
    (h : Pool.new oscid preferredAddr limit = .ok s) : Inv s := by
  cases preferredAddr with
  | none =>
    cases h
    exact ⟨consistent_init 0 oscid limit, Queue.new_tracks, by simp, List.nodup_nil, rfl, Nat.zero_le _⟩
  | some cid =>
    rw [Pool.new] at h
    split at h
    · cases h
    · rename_i hne
      cases h
      refine ⟨(consistent_init 0 oscid limit).issue ?_ ?_ (Nat.le_add_left 2 6), Queue.new_tracks, by simp, List.nodup_nil, rfl, Nat.zero_le _⟩
      · simpa [Scid.init] using hne
      · exact limit.property

/-- The number of connection IDs that may be issued; the subtraction does not wrap. -/
theorem Inv.requiredNumNewConnectionId {s : Pool} (h : Inv s) :
    ∃ n, s.requiredNumNewConnectionId = .ok n ∧ s.numInFlight + n ≤ maxScidPoolSize ∧
      s.set.length + n ≤ s.limit + s.numRetired ∧ s.set.length + n ≤ maxScidPoolSize := by
  have hactive := h.consistent.active
  have hsize := h.consistent.size
  have hflight := h.inFlight_le
  rw [Pool.requiredNumNewConnectionId]
  split
  · exact ⟨0, rfl, hflight, hactive, hsize⟩
  · rw [if_neg (by omega)]
    split
    · exact ⟨0, rfl, hflight, hactive, hsize⟩
    · have hle : s.set.length ≤ min maxScidPoolSize (s.limit + s.numRetired) := by omega
      have hlt : min maxScidPoolSize (s.limit + s.numRetired) < 2 ^ 64 := by
        have : maxScidPoolSize < 2 ^ 64 := by decide
        omega
      rw [sub64_of_le hle hlt]
      exact ⟨_, rfl, by omega, by omega, by omega⟩

theorem Inv.issue {s : Pool} (h : Inv s) {cid : Cid} (hcid : cid ∉ s.set.map Scid.cid)
    (hactive : s.set.length < s.limit + s.numRetired) (hsize : s.set.length < maxScidPoolSize)
    (hflight : s.numInFlight < maxScidPoolSize) : Inv (s.issue cid) := by
  have hfresh : s.lastSeq + 1 ∉ s.issued := fun hmem => absurd (h.issued_le _ hmem) (Nat.not_succ_le_self _)
  refine ⟨h.consistent.issue hcid hactive hsize, h.tracks.push hfresh, ?_, List.nodup_cons.mpr ⟨hfresh, h.nodup⟩, ?_, hflight⟩
  · exact List.forall_mem_cons.mpr ⟨Nat.le_refl _, fun n hn => Nat.le_succ_of_le (h.issued_le n hn)⟩
  · have hinFlight := h.inFlight
    simp only [Pool.issue, List.length_cons]
    omega

/-- The run may end with an error code, never with a failing assertion. -/
def Tolerated : Stop → Prop
  | .failed _ => True
  | .fault _ => False

theorem Inv.issueLoop {n : Nat} {cids : List Cid} {s : Pool} (h : Inv s) (hflight : s.numInFlight + n ≤ maxScidPoolSize)
    (hactive : s.set.length + n ≤ s.limit + s.numRetired) (hsize : s.set.length + n ≤ maxScidPoolSize) :
    Ends Tolerated Inv (Pool.issueLoop n cids s) := by
  induction n generalizing cids s with
  | zero => exact h
  | succ n ih =>
      cases cids with
      | nil => trivial
      | cons cid cids =>
          rw [Pool.issueLoop]
          split
          · trivial
          · split
            · trivial
            · rename_i hany
              have hcid : cid ∉ s.set.map Scid.cid := by
                intro hmem
                obtain ⟨x, hx, heq⟩ := List.mem_map.mp hmem
                exact hany (List.any_eq_true.mpr ⟨x, hx, decide_eq_true heq⟩)
              rw [if_neg (by omega)]
              apply ih (h.issue hcid (by omega) (by omega) (by omega))
              · simp only [Pool.issue]
                omega
              · simp only [Pool.issue, List.length_cons]
                omega
              · simp only [Pool.issue, List.length_cons]
                omega

theorem Inv.verifyDcid {s s' : Pool} (h : Inv s) {dcid : Cid} (hs : s.verifyDcid dcid = some s') : Inv s' := by
  rw [Pool.verifyDcid] at hs
  split at hs
  · cases hs
  · rename_i x hfind
    have hx := List.mem_of_find?_eq_some hfind
    have hdcid : x.cid = dcid := by simpa using List.find?_some hfind
    subst hdcid
    split at hs
    · cases hs
      exact h
    · cases hs
      obtain ⟨hset, hupdate⟩ := perm_of_mem h.consistent.cids hx
      have huse := (h.consistent.perm hset.symm (List.Perm.refl _)).use
      exact ⟨huse.perm (hupdate _) (List.Perm.refl _), h.tracks, h.issued_le, h.nodup, h.inFlight, h.inFlight_le⟩

theorem Inv.recvRetireConnectionId {s : Pool} (h : Inv s) (dcid : Cid) (ts seq : Nat) :
    Ends Tolerated Inv (s.recvRetireConnectionId dcid ts seq) := by
  rw [Pool.recvRetireConnectionId]
  split
  · trivial
  · split
    · exact h
    · rename_i x hfind
      split
      · trivial
      · obtain ⟨hset, hupdate⟩ := perm_of_mem h.consistent.cids (List.mem_of_find?_eq_some hfind)
        have hretire := (h.consistent.perm hset.symm (List.Perm.refl _)).retire ts
        exact ⟨hretire.perm (hupdate _) (List.Perm.refl _), h.tracks, h.issued_le, h.nodup, h.inFlight, h.inFlight_le⟩

theorem Inv.recvRetireFrames {s : Pool} (h : Inv s) (dcid : Cid) (ts : Nat) (seqs : List Nat) :
    Ends Tolerated Inv (Pool.recvRetireFrames dcid ts seqs s) := by
  induction seqs generalizing s with
  | nil => exact h
  | cons seq seqs ih => exact (h.recvRetireConnectionId dcid ts seq).bind (fun s' hs' => ih hs')

theorem Inv.recvPkt {s : Pool} (h : Inv s) (dcid : Cid) (ts : Nat) (seqs : List Nat) :
    Ends Tolerated Inv (s.recvPkt dcid ts seqs) := by
  rw [Pool.recvPkt]
  split
  · exact h
  · rename_i s' hs'
    exact (h.verifyDcid hs').recvRetireFrames dcid ts seqs

theorem pqTop_mem {l : List Scid} {x : Scid} (h : pqTop l = some x) : x ∈ l := by
  induction l generalizing x with
  | nil => cases h
  | cons y ys ih =>
      rw [pqTop] at h
      split at h
      · cases h
        exact List.mem_cons_self
      · rename_i z hz
        split at h
        · cases h
          exact List.mem_cons_of_mem y (ih hz)
        · cases h
          exact List.mem_cons_self

theorem mem_usedScids {s : Pool} {x : Scid} (h : x ∈ s.usedScids) : x ∈ s.set := by
  obtain ⟨cid, _, hfind⟩ := List.mem_filterMap.mp h
  exact List.mem_of_find?_eq_some hfind

theorem Inv.removeLoop {n : Nat} {s : Pool} (h : Inv s) (pto ts : Nat) : Ends Tolerated Inv (Pool.removeLoop pto ts n s) := by
  induction n generalizing s with
  | zero => exact h
  | succ n ih =>
      rw [Pool.removeLoop]
      split
      · exact h
      · rename_i x htop
        split
        · exact h
        · rename_i helapsed
          have hx := mem_usedScids (pqTop_mem htop)
          -- only a retired entry has a timestamp
          have hretired : x.retired = true := by
            cases hr : x.retired with
            | true => rfl
            | false =>
                rw [h.consistent.ts x hx hr] at helapsed
                simp [tstampElapsed] at helapsed
          obtain ⟨hset, _⟩ := perm_of_mem h.consistent.cids hx
          obtain ⟨hpos, hremove⟩ := (h.consistent.perm hset.symm (List.Perm.refl _)).remove hretired
          rw [hretired, if_neg (by simp), if_neg (by omega)]
          exact ih ⟨hremove, h.tracks, h.issued_le, h.nodup, h.inFlight, h.inFlight_le⟩

theorem ackFrames_ok {seqs : List Nat} {s : Pool} (h : seqs.length ≤ s.numInFlight) :
    Pool.ackFrames seqs s = .ok { s with numInFlight := s.numInFlight - seqs.length, acked := seqs.reverse ++ s.acked } := by
  induction seqs generalizing s with
  | nil => rfl
  | cons seq seqs ih =>
      rw [List.length_cons] at h
      rw [Pool.ackFrames, if_neg (by omega), ih (by simp only; omega)]
      simp only [List.reverse_cons, List.append_assoc, List.singleton_append, List.length_cons]
      congr 2
      omega

theorem Inv.acked {s : Pool} (h : Inv s) (i : Nat) : Ends Tolerated Inv (step s (.acked i)) := by
  have htracks := h.tracks.processAckedPkt i
  rw [step]
  generalize s.frames.processAckedPkt i = r at htracks ⊢
  have hle := (htracks.nodup.subperm (fun n hn => htracks.sub n hn)).length_le
  have hinFlight := h.inFlight
  rw [List.length_append, List.length_reverse] at hle
  rw [ackFrames_ok (by simp only; omega)]
  refine ⟨h.consistent, htracks, h.issued_le, h.nodup, ?_, Nat.le_trans (Nat.sub_le _ _) h.inFlight_le⟩
  simp only [List.length_append, List.length_reverse]
  omega

theorem step_inv (s : Pool) (input : Input) (h : Inv s) : Ends Tolerated Inv (step s input) := by
  have hframes : ∀ {frames : Queue Nat}, frames.Tracks s.issued s.acked → Inv { s with frames := frames } :=
    fun hf => ⟨h.consistent, hf, h.issued_le, h.nodup, h.inFlight, h.inFlight_le⟩
  cases input with
  | enqueue cids =>
      rw [step]
      split
      · exact h
      · obtain ⟨n, hn, hflight, hactive, hsize⟩ := h.requiredNumNewConnectionId
        rw [Pool.enqueueNewConnectionId, hn]
        exact h.issueLoop hflight hactive hsize
  | recvPkt dcid ts seqs => exact h.recvPkt dcid ts seqs
  | removeRetired pto ts => exact h.removeLoop pto ts
  | write k => exact hframes (h.tracks.write k)
  | acked i => exact h.acked i
  | lost i => exact hframes (h.tracks.onPktLost i)
  | pto i => exact hframes (h.tracks.reclaimOnPto i)
  | removeLost i => exact hframes (h.tracks.removeLostPkt i)

/-- The pool and its counters agree. The queue `used` has the entries that the peer uses or retired. -/
structure PoolOk (s : Pool) : Prop where
  retired : s.numRetired = (s.set.filter Scid.retired).length
  used : s.used.Perm ((s.set.filter (fun x => x.used || x.retired)).map Scid.cid)
  active : (s.set.filter (fun x => !x.retired)).length ≤ s.limit
  size : s.set.length ≤ maxScidPoolSize
  noWrap : s.set.length ≤ min maxScidPoolSize (s.limit + s.numRetired)
  inFlight : s.numInFlight = (s.issued.filter (fun n => decide (n ∉ s.acked))).length
  seqs : (s.set.map Scid.seq).Nodup ∧ s.issued.Nodup
  seq_le : (∀ x ∈ s.set, x.seq ≤ s.lastSeq) ∧ ∀ n ∈ s.issued, n ≤ s.lastSeq

theorem length_filter_not_mem {issued acked : List Nat} (hi : issued.Nodup) (ha : acked.Nodup) (hsub : ∀ a ∈ acked, a ∈ issued) :
    (issued.filter (fun n => decide (n ∉ acked))).length + acked.length = issued.length := by
  have hperm : acked.Perm (issued.filter (fun n => decide (n ∈ acked))) := by
    rw [List.perm_ext_iff_of_nodup ha (hi.filter _)]
    intro a
    rw [List.mem_filter, decide_eq_true_eq]
    exact ⟨fun h => ⟨hsub a h, h⟩, And.right⟩
  have hcount := List.length_eq_countP_add_countP (fun n => decide (n ∈ acked)) (l := issued)
  rw [List.countP_eq_length_filter, List.countP_eq_length_filter, ← hperm.length_eq] at hcount
  simp only [decide_not] at hcount ⊢
  simp only [decide_eq_true_eq] at hcount
  omega

theorem Inv.poolOk {s : Pool} (h : Inv s) : PoolOk s := by
  have hc := h.consistent
  have hretired : s.numRetired = (s.set.filter Scid.retired).length := by rw [hc.retired, List.countP_eq_length_filter]
  have hfilter : s.set.filter Scid.queued = s.set.filter (fun x => x.used || x.retired) :=
    List.filter_congr (fun x hx => hc.queued x hx)
  refine ⟨hretired, hfilter ▸ hc.used, ?_, hc.size, ?_, ?_, ⟨hc.seqs, h.nodup⟩, hc.seq_le, h.issued_le⟩
  · have hcount := List.length_eq_length_filter_add Scid.retired (l := s.set)
    have hactive := hc.active
    omega
  · exact Nat.le_min.mpr ⟨hc.size, hc.active⟩
  · have hlen := length_filter_not_mem h.nodup h.tracks.nodup h.tracks.sub
    have hinFlight := h.inFlight
    omega

/-- Every run of a pool keeps the counters right, and no assertion fails in it. -/
theorem run_poolOk (oscid : Cid) (preferredAddr : Option Cid) (limit : Limit) (inputs : List Input) :
    Ends Tolerated PoolOk (Pool.new oscid preferredAddr limit >>= fun s => run step s inputs) := by
  cases hnew : Pool.new oscid preferredAddr limit with
  | error e =>
      cases preferredAddr with
      | none => cases hnew
      | some cid =>
          rw [Pool.new] at hnew
          split at hnew
          · cases hnew
            trivial
          · cases hnew
  | ok s =>
      change Ends Tolerated PoolOk (run step s inputs)
      have hends := @run_ends _ _ _ step (fun _ _ => True) Inv Tolerated (fun s i h _ => step_inv s i h) s (new_inv hnew) inputs
        (guarded_of_forall (fun _ _ _ => trivial) s)
      cases hrun : run step s inputs with
      | error e =>
          rw [hrun] at hends
          exact hends
      | ok s' =>
          rw [hrun] at hends
          exact hends.poolOk

/-- The packet that retires the connection ID 1 uses 0, which is in the queue then as well. -/
theorem used_not_retired :
    ¬∀ (oscid : Cid) (preferredAddr : Option Cid) (limit : Limit) (inputs : List Input),
      Ends (fun _ => True) (fun s => s.numRetired = s.used.length)
        (Pool.new oscid preferredAddr limit >>= fun s => run step s inputs) := by
  intro hall
  have h := hall [0] none ⟨2, Nat.le_refl 2⟩ [.enqueue [[1]], .recvPkt [0] 5 [1]]
  exact absurd (show 1 = 2 from h) (by decide)

end Zngtcp2.ScidPool
