import Zngtcp2.Rtb.Runs

namespace Zngtcp2.RtbTx

open Lib.Run PktnsRx
open Strm (Stop)

/-- Of two lost entries the older one was lost first, and none is lost later than now. -/
structure Aged (now : Nat) (es : List Entry) : Prop where
  older : es.Pairwise fun a b => a.lostRetransmitted = true → b.lostRetransmitted = true → b.lostTs ≤ a.lostTs
  lostTs_le : ∀ e ∈ es, e.lostRetransmitted = true → e.lostTs ≤ now

/-- No lost entry is old enough to be removed. -/
def Fresh (timeout ts : Nat) (es : List Entry) : Prop :=
  ∀ e ∈ es, e.lostRetransmitted = true → ts < e.lostTs + timeout

/-- The entry is as it was, or it has become lost at `ts`. -/
def Marks (ts : Nat) (e e' : Entry) : Prop :=
  e' = e ∨ e.lostRetransmitted = false ∧ e'.lostRetransmitted = true ∧ e'.lostTs = ts

section

variable {now timeout ts : Nat} {es es' : List Entry}

theorem Aged.nil (now : Nat) : Aged now [] :=
  ⟨List.Pairwise.nil, fun _ he => by cases he⟩

theorem Aged.sublist (h : Aged now es) (hs : es'.Sublist es) : Aged now es' :=
  ⟨h.older.sublist hs, fun e he => h.lostTs_le e (hs.subset he)⟩

theorem Aged.mono {now' : Nat} (h : Aged now es) (hle : now ≤ now') : Aged now' es :=
  ⟨h.older, fun e he hlost => (h.lostTs_le e he hlost).trans hle⟩

theorem Aged.of_keys (h : Aged now es) (hk : es'.map Entry.key = es.map Entry.key) : Aged now es' := by
  have holder : (es.map Entry.key).Pairwise fun a b => a.2.1 = true → b.2.1 = true → b.2.2 ≤ a.2.2 :=
    List.pairwise_map.mpr h.older
  have hle : ∀ k ∈ es.map Entry.key, k.2.1 = true → k.2.2 ≤ now := by
    intro k hk
    obtain ⟨e, he, rfl⟩ := List.mem_map.mp hk
    exact h.lostTs_le e he
  rw [← hk] at holder hle
  exact ⟨List.pairwise_map.mp holder, fun e he => hle _ (List.mem_map_of_mem he)⟩

theorem Aged.cons_live {e : Entry} (h : Aged now es) (he : e.lostRetransmitted = false) : Aged now (e :: es) := by
  have hlive : ∀ {p : Prop}, e.lostRetransmitted = true → p := by
    intro p hlost
    rw [he] at hlost
    cases hlost
  exact ⟨List.pairwise_cons.mpr ⟨fun _ _ hlost => hlive hlost, h.older⟩, List.forall_mem_cons.mpr ⟨hlive, h.lostTs_le⟩⟩

theorem Fresh.sublist (h : Fresh timeout ts es) (hs : es'.Sublist es) : Fresh timeout ts es' :=
  fun e he => h e (hs.subset he)

theorem marks_mem (h : List.Forall₂ (Marks ts) es es') {e' : Entry} (he : e' ∈ es') : ∃ e ∈ es, Marks ts e e' := by
  induction h with
  | nil => cases he
  | @cons a a' as as' hm _ ih =>
      obtain rfl | he := List.mem_cons.mp he
      · exact ⟨a, List.mem_cons_self, hm⟩
      · obtain ⟨e, hmem, hm⟩ := ih he
        exact ⟨e, List.mem_cons_of_mem a hmem, hm⟩

theorem marks_refl (es : List Entry) : List.Forall₂ (Marks ts) es es :=
  List.forall₂_same.mpr fun _ _ => Or.inl rfl

/-- What becomes lost now is lost after everything that was lost before. -/
theorem marks_aged (hm : List.Forall₂ (Marks ts) es es') (h : Aged now es) (ho : Ordered es) (hle : now ≤ ts) : Aged ts es' := by
  induction hm with
  | nil => exact .nil ts
  | @cons a a' as as' hma hms ih =>
      obtain ⟨hfirst, -⟩ := List.pairwise_cons.mp h.older
      obtain ⟨hbehind, -⟩ := List.pairwise_cons.mp ho.lost
      have hrest := ih (h.sublist (List.sublist_cons_self a as)) (ho.sublist (List.sublist_cons_self a as))
      obtain rfl | ⟨-, -, hts⟩ := hma
      · refine ⟨List.pairwise_cons.mpr ⟨fun b' hb' hlost hlost' => ?_, hrest.older⟩,
          List.forall_mem_cons.mpr ⟨fun hlost => (h.lostTs_le a' List.mem_cons_self hlost).trans hle, hrest.lostTs_le⟩⟩
        obtain ⟨b, hb, rfl | ⟨hlive, -⟩⟩ := marks_mem hms hb'
        · exact hfirst b' hb hlost hlost'
        · rw [hbehind b hb hlost] at hlive
          cases hlive
      · refine ⟨List.pairwise_cons.mpr ⟨fun b' hb' _ hlost' => ?_, hrest.older⟩,
          List.forall_mem_cons.mpr ⟨fun _ => hts.le, hrest.lostTs_le⟩⟩
        rw [hts]
        exact hrest.lostTs_le b' hb' hlost'

theorem marks_fresh (hm : List.Forall₂ (Marks ts) es es') (h : Fresh timeout ts es) (hpos : 0 < timeout) :
    Fresh timeout ts es' := by
  intro e' he' hlost
  obtain ⟨e, he, rfl | ⟨-, -, hts⟩⟩ := marks_mem hm he'
  · exact h e' he hlost
  · rw [hts]
    exact Nat.lt_add_of_pos_right hpos

end

namespace Rtb

theorem onPktLost_marks {c c' : Counters} {e e' : Entry} {ts : Nat} (h : c.onPktLost e ts = .ok (c', e'))
    (hlive : e.lostRetransmitted = false) : Marks ts e e' := by
  unfold Counters.onPktLost at h
  split_ifs at h
  cases h
  exact Or.inr ⟨hlive, rfl, rfl⟩

theorem markLost_marks {ccPktNum : Int} {c c' : Counters} {l : Loss} {run : LostRun} {n n' : Nat} {es es' : List Entry}
    (h : markLost ccPktNum l c run n es = .ok (c', es', n')) : List.Forall₂ (Marks l.ts) es es' := by
  induction es generalizing c run n es' with
  | nil =>
      cases h
      exact .nil
  | cons e es ih =>
      rw [markLost] at h
      simp only at h
      split at h
      · split at h
        · cases h
          exact marks_refl _
        · obtain ⟨⟨c₁, es₁, n₁⟩, hrun, h⟩ := bind_ok h
          cases h
          exact .cons (Or.inl rfl) (ih hrun)
      · rename_i hlive
        rw [Bool.not_eq_true] at hlive
        obtain ⟨⟨c₁, n₁⟩, -, h⟩ := bind_ok h
        obtain ⟨⟨c₂, e₁⟩, hmark, h⟩ := bind_ok h
        obtain ⟨⟨c₃, es₁, n₂⟩, hrun, h⟩ := bind_ok h
        cases h
        exact .cons (onPktLost_marks hmark hlive) (ih hrun)

theorem detectMark_marks {r r' : Rtb} {l : Loss} {before es : List Entry} {n : Nat}
    (h : r.detectMark l before es = .ok (r', n)) : List.Forall₂ (Marks l.ts) (before ++ es) r'.ents := by
  cases es with
  | nil =>
      cases h
      rw [List.append_nil]
      exact marks_refl before
  | cons e es =>
      obtain ⟨⟨c, es', n'⟩, hrun, h⟩ := bind_ok h
      cases h
      exact List.rel_append (marks_refl before) (markLost_marks hrun)

theorem Sound.detectLostPkt_marks {r r' : Rtb} {l : Loss} {n : Nat} (h : Sound r) (hrun : r.detectLostPkt l = .ok (r', n)) :
    ∃ es, List.Forall₂ (Marks l.ts) r.ents es ∧ r'.ents.Sublist es := by
  obtain ⟨r₁, r₂, n', hmark, -, -, hdetect, hpruned⟩ := h.detectLostPkt_parts l
  rw [hrun, Except.ok.injEq, Prod.mk.injEq] at hdetect
  obtain ⟨rfl, rfl⟩ := hdetect
  exact ⟨r₁.ents, r.detected_append l ▸ detectMark_marks hmark, hpruned.sublist⟩

theorem Sound.detectLostPkt_aged {r r' : Rtb} {l : Loss} {n now : Nat} (h : Sound r) (ha : Aged now r.ents)
    (hle : now ≤ l.ts) (hrun : r.detectLostPkt l = .ok (r', n)) : Aged l.ts r'.ents := by
  obtain ⟨es, hmarks, hsub⟩ := h.detectLostPkt_marks hrun
  exact (marks_aged hmarks ha h.ordered hle).sublist hsub

theorem Sound.detectLostPkt_fresh {r r' : Rtb} {l : Loss} {n timeout : Nat} (h : Sound r) (hf : Fresh timeout l.ts r.ents)
    (hpos : 0 < timeout) (hrun : r.detectLostPkt l = .ok (r', n)) : Fresh timeout l.ts r'.ents := by
  obtain ⟨es, hmarks, hsub⟩ := h.detectLostPkt_marks hrun
  exact (marks_fresh hmarks hf hpos).sublist hsub

theorem Sound.recvAck_aged {r : Rtb} {now : Nat} (h : Sound r) (ha : Aged now r.ents) (fr : AckFrame) {l : Loss}
    (hle : now ≤ l.ts) : Ends Failed (fun p => Aged l.ts p.1.ents) (r.recvAck fr l) := by
  rw [Rtb.recvAck]
  simp only
  have h₁ : Sound { r with largestAckedTxPktNum := max r.largestAckedTxPktNum fr.largestAck } := ⟨h.counts, h.ordered⟩
  split
  · exact ha.mono hle
  · refine Ends.bind (h₁.ackRange _ _ _ fun e he => ?_) ?_
    · simpa using dropWhile_le h₁.ordered _ e he
    · rintro ⟨r₂, acked⟩ hpruned₂
      refine Ends.bind (hpruned₂.sound.ackRanges _ fr.ranges) ?_
      rintro ⟨r₃, acked'⟩ hpruned₃
      have ha₃ : Aged now r₃.ents := ha.sublist (hpruned₃.sublist.trans hpruned₂.sublist)
      simp only
      split
      · exact ha₃.mono hle
      · obtain ⟨r₄, n, hdetect, -⟩ := hpruned₃.sound.detectLostPkt l
        rw [hdetect]
        exact hpruned₃.sound.detectLostPkt_aged ha₃ hle hdetect

theorem Sound.reclaimOnPto_aged {r r' : Rtb} {reclaimed : Entry → Nat} {numPkts n now : Nat} (h : Sound r) (ha : Aged now r.ents)
    (hrun : r.reclaimOnPto reclaimed numPkts = .ok (r', n)) : Aged now r'.ents := by
  have hcounts : Counts r.ccPktNum r.counters (r.ents.reverse ++ []) := by
    rw [List.append_nil]
    exact h.counts.perm r.ents.reverse_perm.symm
  obtain ⟨n', c, es, hloop, -, hk⟩ := reclaimLoop_ok reclaimed numPkts hcounts
  rw [Rtb.reclaimOnPto, hloop] at hrun
  cases hrun
  refine ha.of_keys ?_
  rw [List.map_reverse, hk, List.map_reverse, List.reverse_reverse]

theorem dropStale_stops {keep : Nat} {fresh : Entry → Bool} {c c' : Counters} {es es' : List Entry}
    (h : dropStale keep fresh c es = .ok (c', es')) : c'.numLostPkts ≤ keep ∨ ∃ e rest, es' = e :: rest ∧ fresh e = true := by
  induction es generalizing c with
  | nil =>
      rw [dropStale] at h
      split_ifs at h with hle
      cases h
      exact Or.inl hle
  | cons e es ih =>
      rw [dropStale] at h
      split_ifs at h with hle hlive hfresh
      · cases h
        exact Or.inl hle
      · cases h
        exact Or.inr ⟨e, es, rfl, hfresh⟩
      · obtain ⟨n, -, hrun⟩ := bind_ok h
        exact ih hrun

theorem Sound.numLostPkts {r : Rtb} (h : Sound r) (hnone : r.counters.numLostPkts ≤ 0) :
    ∀ e ∈ r.ents, ¬e.lostRetransmitted = true := by
  have hcount := h.counts.lost
  rw [Nat.le_zero.mp hnone] at hcount
  exact List.countP_eq_zero.mp hcount.symm

/-- After the expired entries are removed, the oldest lost one is fresh, and so are all. -/
theorem Sound.removeExpired_fresh {r r' : Rtb} {timeout ts : Nat} (h : Sound r) (ha : Aged ts r.ents) (hts : ts < 2 ^ 64)
    (hrun : r.removeExpiredLostPkt timeout ts = .ok r') : Fresh timeout ts r'.ents := by
  obtain ⟨r₁, hrun₁, hpruned⟩ := h.removeStale 0 fun e => sub64 ts e.lostTs < timeout
  rw [removeExpiredLostPkt] at hrun
  rw [hrun, Except.ok.injEq] at hrun₁
  subst hrun₁
  have ha' := ha.sublist hpruned.sublist
  obtain ⟨⟨c, es⟩, hdrop, hrun⟩ := bind_ok hrun
  cases hrun
  intro a hmem hlost
  obtain hnone | ⟨e, rest, rfl, hfresh⟩ := dropStale_stops hdrop
  · exact absurd hlost (hpruned.sound.numLostPkts hnone a hmem)
  · have hend : e.lostRetransmitted = true ∧ e.lostTs ≤ a.lostTs := by
      have holder := ha'.older
      have hbehind := hpruned.sound.ordered.lost
      simp only [List.reverse_cons] at hmem holder hbehind
      rcases List.mem_append.mp hmem with ha | ha
      · have he := (List.pairwise_append.mp hbehind).2.2 a ha e List.mem_cons_self hlost
        exact ⟨he, (List.pairwise_append.mp holder).2.2 a ha e List.mem_cons_self hlost he⟩
      · obtain rfl := List.mem_singleton.mp ha
        exact ⟨hlost, le_rfl⟩
    have hle := ha'.lostTs_le e (List.mem_reverse.mpr List.mem_cons_self) hend.1
    rw [decide_eq_true_eq, sub64_of_le hle hts] at hfresh
    omega

/-- Nothing happens unless the oldest entry is a lost one whose time has come. -/
theorem Sound.removeExpired_quiet {r : Rtb} {timeout ts : Nat} (h : Sound r) (ha : Aged ts r.ents) (hts : ts < 2 ^ 64)
    (hlast : ∀ e ∈ r.ents.getLast?, e.lostRetransmitted = true → ts < e.lostTs + timeout) :
    r.removeExpiredLostPkt timeout ts = .ok r := by
  have hsame : dropStale 0 (fun e => decide (sub64 ts e.lostTs < timeout)) r.counters r.ents.reverse =
      .ok (r.counters, r.ents.reverse) := by
    by_cases hnone : r.counters.numLostPkts ≤ 0
    · cases r.ents.reverse with
      | nil => rw [dropStale, if_pos hnone]
      | cons e es => rw [dropStale, if_pos hnone]
    · obtain ⟨a, hmem, hlost⟩ : ∃ a ∈ r.ents, a.lostRetransmitted = true := by
        apply List.countP_pos_iff.mp
        rw [← h.counts.lost]
        omega
      obtain hnil | ⟨es, e, hes⟩ := r.ents.eq_nil_or_concat
      · rw [hnil] at hmem
        cases hmem
      have hbehind := h.ordered.lost
      rw [hes, List.concat_eq_append] at hmem hbehind
      have he : e.lostRetransmitted = true := by
        rcases List.mem_append.mp hmem with ha | ha
        · exact (List.pairwise_append.mp hbehind).2.2 a ha e List.mem_cons_self hlost
        · exact List.mem_singleton.mp ha ▸ hlost
      have hlt := hlast e (by rw [hes, List.concat_eq_append, List.getLast?_concat]; rfl) he
      have hle := ha.lostTs_le e (by rw [hes, List.concat_eq_append]; exact List.mem_concat_self) he
      have hfresh : sub64 ts e.lostTs < timeout := by
        rw [sub64_of_le hle hts]
        omega
      rw [hes, List.concat_eq_append, List.reverse_append, List.reverse_singleton, List.singleton_append, dropStale,
        if_neg hnone, if_neg (by rw [he]; exact Bool.false_ne_true), if_pos (decide_eq_true hfresh)]
  rw [removeExpiredLostPkt, Rtb.removeStale, hsame]
  simp only [bind, Except.bind, List.reverse_reverse]

end Rtb

namespace State

open Rtb

/-- The losses that the operation detects are detected at `ts`. -/
def LossesAt (ts : Nat) : Op → Prop
  | .recvAck _ loss | .detectLostPkt loss => loss.ts = ts
  | _ => True

theorem Inv.step_aged {s : State} {op : Op} {ts : Nat} (h : Inv s) (hallowed : s.Allowed op) (hop : LossesAt ts op)
    (ha : Aged ts s.rtb.ents) : Ends Failed (fun s' => Aged ts s'.rtb.ents) (s.step op) := by
  cases op with
  | add pktNum type now pktlen sent =>
      obtain ⟨hlt, hcc⟩ := hallowed
      have hnew : ∀ a ∈ s.rtb.ents, a.pktNum < pktNum := fun a ha => Int.lt_of_le_of_lt (h.used a ha) hlt
      obtain ⟨r, hadd, -, hents⟩ := h.sound.add hnew hcc type now pktlen sent
      rw [step, hadd]
      change Aged ts r.ents
      rw [hents]
      exact ha.cons_live rfl
  | recvAck fr loss =>
      apply Ends.bind (h.sound.recvAck_aged ha fr (Nat.le_of_eq hop.symm))
      rintro ⟨r, n⟩ hr
      exact hop ▸ hr
  | detectLostPkt loss =>
      obtain ⟨r, n, hrun, -⟩ := h.sound.detectLostPkt loss
      rw [step, hrun]
      exact hop ▸ h.sound.detectLostPkt_aged ha (Nat.le_of_eq hop.symm) hrun
  | reclaimOnPto reclaimed numPkts =>
      obtain ⟨r, n, hrun, -⟩ := h.sound.reclaimOnPto reclaimed numPkts
      rw [step, hrun]
      exact h.sound.reclaimOnPto_aged ha hrun
  | removeExcessiveLostPkt n =>
      obtain ⟨r, hrun, hpruned⟩ := h.sound.removeStale n fun _ => false
      rw [step, Rtb.removeExcessiveLostPkt, hrun]
      exact ha.sublist hpruned.sublist
  | removeExpiredLostPkt timeout now =>
      obtain ⟨r, hrun, hpruned⟩ := h.sound.removeStale 0 fun e => sub64 now e.lostTs < timeout
      rw [step, Rtb.removeExpiredLostPkt, hrun]
      exact ha.sublist hpruned.sublist
  | removeEarlyData =>
      obtain ⟨r, hrun, hpruned⟩ := h.sound.removeEarlyData
      rw [step, hrun]
      exact ha.sublist hpruned.sublist
  | resetCcState => exact ha
  | others bytes => exact ha

end State

end Zngtcp2.RtbTx
