import Zngtcp2.Strm.Queue
import Zngtcp2.Tx.Crypto

namespace Zngtcp2.CryptoTx

open Strm TxStrm Lib.Segment Lib.Run Gaptr
open Reorder (Range)

/-- A CRYPTO frame that holds the submitted bytes of its range. -/
structure Good (S : List UInt8) (fr : TxFrame) : Prop where
  ok : fr.Ok
  fin : fr.fin = false
  pos : 0 < fr.datalen
  slice : Slice S fr.offset fr.bytes

theorem Good.le {S : List UInt8} {fr : TxFrame} (h : Good S fr) : fr.endOff ≤ S.length :=
  h.slice.le

theorem Good.extend {S : List UInt8} {fr : TxFrame} (h : Good S fr) (T : List UInt8) : Good (S ++ T) fr :=
  ⟨h.ok, h.fin, h.pos, h.slice.extend T⟩

theorem Good.cut {S : List UInt8} {missing : Nat → Prop} {fr p : TxFrame} {q : Option TxFrame} (h : Good S fr)
    (hcut : fr.Cut missing p q) (hpos : 0 < p.datalen) : Good S p ∧ ∀ r ∈ q, Good S r := by
  have hle := hcut.le
  have hend := hcut.endOff
  simp only [TxFrame.endOff] at hend
  have hslice : Slice S p.offset (p.bytes ++ (q.map TxFrame.bytes).getD []) := by
    rw [← hcut.bytes]
    have hn : p.offset - fr.offset ≤ fr.bytes.length := by
      simp only [TxFrame.datalen] at hend
      omega
    have := h.slice.drop hn
    rwa [Nat.add_sub_cancel' hle] at this
  refine ⟨⟨hcut.ok, ?_, hpos, hslice.left⟩, ?_⟩
  · cases q with
    | none => rw [hcut.last rfl, h.fin]
    | some r => exact (hcut.next r rfl).1
  · intro r hr
    cases hr
    obtain ⟨_, hfin, hoff, _, hrpos, hrok, _⟩ := hcut.next r rfl
    refine ⟨hrok, hfin.trans h.fin, hrpos, ?_⟩
    rw [hoff]
    exact hslice.right

def firstWanted (acked : Acked) (queue : List TxFrame) : Option TxFrame :=
  queue.find? (wanted acked)

/-- What `strm_streamfrq_unacked_pop` does with CRYPTO frames. -/
theorem unackedPop_good {S : List UInt8} {s : TxStrm} (hs : s.acked.Wf S.length) {queue queue' : List TxFrame}
    {p : TxFrame} (hq : ∀ fr ∈ queue, Good S fr) (h : s.unackedPop queue = .ok (some (p, queue'))) :
    Good S p ∧ (∀ fr ∈ queue', Good S fr) ∧
      ∃ fr, firstWanted s.acked queue = some fr ∧ (p.txbuf.isSome ↔ fr.txbuf.isSome) ∧
        fr.offset ≤ p.offset ∧ (∀ x, fr.offset ≤ x → x < p.offset → ¬s.acked.Missing x) ∧ s.acked.Missing p.offset := by
  rcases unackedPop_outcome hs (fun fr hfr => ⟨(hq fr hfr).ok, (hq fr hfr).le⟩) with ⟨_, hnone⟩ | hex
  · rw [h] at hnone
    cases hnone
  · obtain ⟨gone, fr, rest, rfl, hgone, hout, _⟩ := hex
    have hfr := hq fr (List.mem_append_right _ List.mem_cons_self)
    have hrest : ∀ g ∈ rest, Good S g := fun g hg => hq g (List.mem_append_right _ (List.mem_cons_of_mem fr hg))
    have hfirst : ¬fr.AllAcked s.acked.Missing → firstWanted s.acked (gone ++ fr :: rest) = some fr := by
      intro hnot
      rw [firstWanted, List.find?_append]
      have hnone : gone.find? (wanted s.acked) = none := by
        rw [List.find?_eq_none]
        intro d hd
        rw [wanted_iff hs (hq d (List.mem_append_left _ hd)).le]
        exact not_not.mpr (hgone d hd).1.acked
      rw [hnone, Option.none_or, List.find?_cons_of_pos ((wanted_iff hs hfr.le).mpr hnot)]
    have hdone : ∀ q, fr.Cut s.acked.Missing p q → 0 < p.datalen → (∀ g ∈ queue', g ∈ q.toList ∨ g ∈ rest) →
        Good S p ∧ (∀ g ∈ queue', Good S g) ∧
          ∃ fr', firstWanted s.acked (gone ++ fr :: rest) = some fr' ∧ (p.txbuf.isSome ↔ fr'.txbuf.isSome) ∧
            fr'.offset ≤ p.offset ∧ (∀ x, fr'.offset ≤ x → x < p.offset → ¬s.acked.Missing x) ∧
              s.acked.Missing p.offset := by
      intro q hcut hpos hmem
      obtain ⟨hp, hqg⟩ := hfr.cut hcut hpos
      have hmissing : s.acked.Missing p.offset := hcut.inside _ (Nat.le_refl _) (Nat.lt_add_of_pos_right hpos)
      have hend := hcut.endOff
      refine ⟨hp, ?_, fr, hfirst ?_, hcut.retained hpos, hcut.le, hcut.before, hmissing⟩
      · intro g hg
        rcases hmem g hg with hg | hg
        · exact hqg g (by simpa using hg)
        · exact hrest g hg
      · intro hall
        refine hall p.offset hcut.le ?_ hmissing
        simp only [TxFrame.endOff] at hend ⊢
        omega
    generalize hr : s.unackedPop (gone ++ fr :: rest) = r at hout h
    cases hout with
    | deleted => cases h
    | notLast => cases h
    | whole p' hcut hpos =>
        cases h
        have hend := hcut.endOff
        have hfpos := hfr.pos
        refine hdone none hcut ?_ (fun g hg => Or.inr hg)
        rcases hpos with hpos | ⟨hfin, _⟩ | hopens
        · exact hpos
        · rw [hcut.last rfl, hfr.fin] at hfin
          cases hfin
        · have hle := hcut.le
          have h0 := hopens.1
          have hz := hopens.2.1
          simp only [TxFrame.endOff, Option.map_none, Option.getD_none] at hend
          omega
    | split p' q hcut =>
        cases hput : putBack rest q with
        | error e =>
            rw [hput] at h
            cases h
        | ok queue'' =>
            rw [hput] at h
            cases h
            refine hdone (some q) hcut (hcut.next q rfl).2.2.2.1 ?_
            intro g hg
            simpa using (kslInsert_mem (putBack_ok hput)).mp hg

theorem unackedOffset_good {S : List UInt8} {s : TxStrm} (hs : s.acked.Wf S.length) {queue : List TxFrame} {off : Nat}
    (hq : ∀ fr ∈ queue, Good S fr) (h : s.unackedOffset queue = .ok (some off)) :
    ∃ fr, firstWanted s.acked queue = some fr ∧ fr.offset ≤ off ∧
      (∀ x, fr.offset ≤ x → x < off → ¬s.acked.Missing x) ∧ s.acked.Missing off := by
  induction queue with
  | nil => cases h
  | cons fr rest ih =>
      have hfr := hq fr List.mem_cons_self
      have hpos := hfr.pos
      have hoff : fr.endOff = fr.offset + fr.datalen := rfl
      obtain ⟨gap, hgap, hfirst⟩ := hs.unackedRangeAfter_spec (Nat.le_trans (Nat.le_add_right fr.offset fr.datalen) hfr.le)
      have hlt := hfirst.lt
      have hafter := hfirst.after
      have hwant : wanted s.acked fr = decide (max fr.offset gap.begin < min fr.endOff gap.endOff) := by
        simp only [wanted, hgap, meetsGap]
      rw [unackedOffset, hgap] at h
      simp only at h
      split at h
      · rename_i hle
        cases h
        refine ⟨fr, List.find?_cons_of_pos (by rw [hwant, decide_eq_true_eq]; omega), Nat.le_refl _, ?_, ?_⟩
        · intro x hx hx'
          omega
        · exact hfirst.inside _ hle hafter
      · rename_i hgt
        split at h
        · rename_i hin
          cases h
          refine ⟨fr, List.find?_cons_of_pos (by rw [hwant, decide_eq_true_eq]; omega), by omega, ?_, ?_⟩
          · exact hfirst.before
          · exact hfirst.inside _ (Nat.le_refl _) hlt
        · rename_i hout
          rw [if_neg (by simp [hfr.fin])] at h
          obtain ⟨g, hg, hrest⟩ := ih (fun g hg => hq g (List.mem_cons_of_mem fr hg)) h
          refine ⟨g, ?_, hrest⟩
          rw [firstWanted, List.find?_cons_of_neg (by rw [hwant, decide_eq_true_eq]; omega)]
          exact hg

/-- The frame that is popped starts at the offset that was asked for. -/
theorem unackedPop_offset {S : List UInt8} {s : TxStrm} (hs : s.acked.Wf S.length) {queue queue' : List TxFrame}
    {p : TxFrame} {off : Nat} (hq : ∀ fr ∈ queue, Good S fr) (hoff : s.unackedOffset queue = .ok (some off))
    (h : s.unackedPop queue = .ok (some (p, queue'))) : p.offset = off := by
  obtain ⟨_, _, fr, hfr, _, hle, hbefore, hmiss⟩ := unackedPop_good hs hq h
  obtain ⟨fr', hfr', hle', hbefore', hmiss'⟩ := unackedOffset_good hs hq hoff
  rw [hfr] at hfr'
  cases hfr'
  rcases Nat.lt_trichotomy p.offset off with hlt | heq | hgt
  · exact absurd hmiss (hbefore' _ hle hlt)
  · exact heq
  · exact absurd hmiss' (hbefore _ hle' hgt)

theorem good_copied {S : List UInt8} {fr : TxFrame} (htx : fr.txbuf = none) (hfin : fr.fin = false)
    (hok : VecsOk maxStreamDatacnt fr.data) (hslice : Slice S fr.offset (vecBytes fr.data)) : Good S fr :=
  ⟨ok_of_copied htx hok, hfin, by rw [TxFrame.datalen_of_data htx]; exact hok.len_pos,
    by rw [TxFrame.bytes_of_data htx]; exact hslice⟩

theorem good_retained {S : List UInt8} {fr : TxFrame} {txbuf : List UInt8} (htx : fr.txbuf = some txbuf)
    (hfin : fr.fin = false) (hdata : fr.data = []) (hpos : 0 < txbuf.length) (hslice : Slice S fr.offset txbuf) :
    Good S fr :=
  ⟨ok_of_retained htx hpos hdata, hfin, by rw [TxFrame.datalen, TxFrame.bytes_of_txbuf htx]; exact hpos,
    by rw [TxFrame.bytes_of_txbuf htx]; exact hslice⟩

theorem Good.vecsOk {S : List UInt8} {fr : TxFrame} (h : Good S fr) (htx : fr.txbuf = none) :
    VecsOk maxStreamDatacnt fr.data := by
  refine h.ok.copied (fun hnil => ?_)
  have := h.pos
  rw [TxFrame.datalen_of_data htx, hnil, vecLen_nil] at this
  exact Nat.lt_irrefl 0 this

theorem Good.vecSlice {S : List UInt8} {fr : TxFrame} (h : Good S fr) (htx : fr.txbuf = none) :
    Slice S fr.offset (vecBytes fr.data) := by
  have := h.slice
  rwa [TxFrame.bytes_of_data htx] at this

theorem putBack_good {S : List UInt8} {queue queue' : List TxFrame} {fr : TxFrame} (hfr : Good S fr)
    (hq : ∀ g ∈ queue, Good S g) (h : putBack queue fr = .ok queue') : ∀ g ∈ queue', Good S g := by
  intro g hg
  rcases (kslInsert_mem (putBack_ok h)).mp hg with rfl | hg
  · exact hfr
  · exact hq g hg

/-- What `ngtcp2_vec_merge` makes of the vectors so far and of a frame that follows them. -/
theorem vecMerge_good {S : List UInt8} {offset : Nat} (left : Nat) {data : List Vec} {nfr : TxFrame} (hnfr : Good S nfr)
    (htx : nfr.txbuf = none) (hdata : VecsOk maxStreamDatacnt data) (hslice : Slice S offset (vecBytes data))
    (hcont : nfr.offset = offset + vecLen data) :
    let m := vecMerge maxStreamDatacnt data nfr.data left
    VecsOk maxStreamDatacnt m.dst ∧ Slice S offset (vecBytes m.dst) ∧ vecLen m.dst = vecLen data + m.nmerged ∧
      m.nmerged ≤ left ∧ (m.nmerged = 0 ∨ m.src ≠ [] → Good S { nfr with offset := nfr.offset + m.nmerged, data := m.src }) := by
  intro m
  have hvecs := hnfr.vecsOk htx
  have hm := vecMerge_spec hdata hvecs.pos left
  have hnslice := hnfr.vecSlice htx
  have hle := hm.nmerged_len
  refine ⟨hm.ok, ?_, ?_, hm.nmerged_le, ?_⟩
  · rw [hm.dst_bytes]
    refine hslice.append ?_
    rw [← List.take_append_drop m.nmerged (vecBytes nfr.data), hcont] at hnslice
    exact hnslice.left
  · rw [← vecBytes_length, hm.dst_bytes, List.length_append, List.length_take, vecBytes_length, vecBytes_length,
      Nat.min_eq_left hle]
  · intro hsome
    refine good_copied htx hnfr.fin ⟨?_, Nat.le_trans hm.src_length hvecs.length_le, hm.src_pos⟩ ?_
    · rcases hsome with h0 | hne
      · intro hnil
        have hsrc : vecBytes m.src = (vecBytes nfr.data).drop m.nmerged := hm.src_bytes
        have hpos := hvecs.len_pos
        rw [show m.src = [] from hnil, h0, List.drop_zero] at hsrc
        rw [← vecBytes_length, ← hsrc] at hpos
        exact Nat.lt_irrefl 0 hpos
      · exact hne
    · simp only [m, hm.src_bytes]
      exact hnslice.drop hle

/-- The loop that merges the following frames keeps the vectors a part of the submitted bytes, and takes no more than
`left` of them. -/
theorem mergeFrames_good {S : List UInt8} {s : TxStrm} (hs : s.acked.Wf S.length) {fuel : Nat} {fr fr' : TxFrame}
    {data data' : List Vec} {left : Nat} {queue queue' : List TxFrame} (hfin : fr.fin = false)
    (hdata : VecsOk maxStreamDatacnt data) (hslice : Slice S fr.offset (vecBytes data)) (hq : ∀ g ∈ queue, Good S g)
    (h : s.mergeFrames fuel fr data (vecLen data) left queue = .ok (fr', data', queue')) :
    fr'.fin = false ∧ fr'.offset = fr.offset ∧ fr'.txbuf = fr.txbuf ∧ VecsOk maxStreamDatacnt data' ∧
      Slice S fr.offset (vecBytes data') ∧ vecLen data' ≤ vecLen data + left ∧ ∀ g ∈ queue', Good S g := by
  induction fuel generalizing fr data left queue with
  | zero =>
      cases h
      exact ⟨hfin, rfl, rfl, hdata, hslice, Nat.le_add_right _ _, hq⟩
  | succ fuel ih =>
      rw [mergeFrames] at h
      split at h
      · cases h
        exact ⟨hfin, rfl, rfl, hdata, hslice, Nat.le_add_right _ _, hq⟩
      · obtain ⟨off, hoff, h⟩ := bind_ok h
        cases off with
        | none =>
            cases h
            exact ⟨hfin, rfl, rfl, hdata, hslice, Nat.le_add_right _ _, hq⟩
        | some off =>
            simp only at h
            split at h
            · split at h
              · cases h
                exact ⟨hfin, rfl, rfl, hdata, hslice, Nat.le_add_right _ _, hq⟩
              · cases h
            · rename_i hcont
              obtain ⟨r, hpop, h⟩ := bind_ok h
              cases r with
              | none =>
                  cases h
                  exact ⟨hfin, rfl, rfl, hdata, hslice, Nat.le_add_right _ _, by simp⟩
              | some r =>
                  obtain ⟨nfr, queue₁⟩ := r
                  obtain ⟨hnfr, hq₁, _⟩ := unackedPop_good hs hq hpop
                  have hnoff := unackedPop_offset hs hq hoff hpop
                  simp only at h
                  split at h
                  · obtain ⟨queue₂, hput, h⟩ := bind_ok h
                    cases h
                    exact ⟨hfin, rfl, rfl, hdata, hslice, Nat.le_add_right _ _, putBack_good hnfr hq₁ hput⟩
                  · rename_i hcopied
                    have htx : nfr.txbuf = none := by simpa using hcopied
                    rw [if_neg (by simp [hnfr.fin])] at h
                    obtain ⟨hmok, hmslice, hmlen, hmle, hmrest⟩ :=
                      vecMerge_good left hnfr htx hdata hslice (hnoff.trans (not_not.mp hcont))
                    generalize vecMerge maxStreamDatacnt data nfr.data left = m at h hmok hmslice hmlen hmle hmrest
                    split at h
                    · rename_i h0
                      obtain ⟨queue₂, hput, h⟩ := bind_ok h
                      cases h
                      have hsame := hmrest (Or.inl h0)
                      rw [h0, Nat.add_zero] at hsame
                      exact ⟨hfin, rfl, rfl, hmok, hmslice, by omega, putBack_good hsame hq₁ hput⟩
                    · split at h
                      · rw [← hmlen] at h
                        obtain ⟨hfin', hoff', htx', hvecs', hslice', hlen', hq'⟩ :=
                          @ih { fr with fin := nfr.fin } m.dst (left - m.nmerged) queue₁ hnfr.fin hmok hmslice hq₁ h
                        exact ⟨hfin', hoff', htx', hvecs', hslice', by omega, hq'⟩
                      · rename_i hsrcne
                        split at h
                        · rename_i queue₂ hins
                          cases h
                          refine ⟨hfin, rfl, rfl, hmok, hmslice, by omega, ?_⟩
                          intro g hg
                          rcases (kslInsert_mem hins).mp hg with rfl | hg
                          · exact hmrest (Or.inr hsrcne)
                          · exact hq₁ g hg
                        · cases h

theorem Good.split_retained {S : List UInt8} {fr : TxFrame} {txbuf : List UInt8} (h : Good S fr)
    (htx : fr.txbuf = some txbuf) {left : Nat} (hpos : 0 < left) (hlt : left < fr.datalen) :
    Good S { fr with fin := false, txbuf := some (txbuf.take left) } ∧
      Good S ⟨fr.offset + left, fr.fin, [], some (txbuf.drop left)⟩ := by
  have hlen : fr.datalen = txbuf.length := by rw [TxFrame.datalen, TxFrame.bytes_of_txbuf htx]
  have hslice := h.slice
  rw [TxFrame.bytes_of_txbuf htx] at hslice
  constructor
  · refine good_retained rfl rfl (h.ok.retained txbuf htx).2 ?_ ?_
    · rw [List.length_take]
      omega
    · rw [← List.take_append_drop left txbuf] at hslice
      exact hslice.left
  · refine @good_retained S ⟨fr.offset + left, fr.fin, [], _⟩ _ rfl h.fin rfl ?_ (hslice.drop (by omega))
    rw [List.length_drop]
    omega

theorem Good.split_copied {S : List UInt8} {fr : TxFrame} (h : Good S fr) (htx : fr.txbuf = none) {left : Nat}
    (hlt : left < fr.datalen) (hfst : (vecSplit maxStreamDatacnt fr.data left).1 ≠ [])
    (hsnd : (vecSplit maxStreamDatacnt fr.data left).2 ≠ []) :
    Good S { fr with fin := false, data := (vecSplit maxStreamDatacnt fr.data left).1 } ∧
      Good S ⟨fr.offset + left, fr.fin, (vecSplit maxStreamDatacnt fr.data left).2, none⟩ := by
  have hvecs := h.vecsOk htx
  have hlen := TxFrame.datalen_of_data htx
  have hslice := h.vecSlice htx
  obtain ⟨hb₁, hb₂⟩ := vecSplit_spec hvecs.length_le left
  obtain ⟨hcnt₁, hcnt₂⟩ := vecSplit_length hvecs.length_le left
  obtain ⟨hpos₁, hpos₂⟩ := vecSplit_pos maxStreamDatacnt hvecs.pos left
  constructor
  · refine good_copied htx rfl ⟨hfst, Nat.le_trans hcnt₁ hvecs.length_le, hpos₁⟩ ?_
    rw [← List.take_append_drop left (vecBytes fr.data)] at hslice
    simp only [hb₁]
    exact hslice.left
  · refine @good_copied S ⟨fr.offset + left, fr.fin, _, none⟩ rfl h.fin
      ⟨hsnd, Nat.le_trans hcnt₂ hvecs.length_le, hpos₂⟩ ?_
    simp only [hb₂]
    exact hslice.drop (by rw [vecBytes_length]; omega)

/-- What `ngtcp2_strm_streamfrq_pop` does with CRYPTO frames: the frame to send holds submitted
bytes, and it is copied data if the first frame of the queue with something to send is. It starts where the data to send
does, and is no longer than `left`. -/
theorem streamfrqPop_good {S : List UInt8} {s : TxStrm} (hs : s.acked.Wf S.length) {left : Nat} {queue : List TxFrame}
    {res : Option TxFrame} (hq : ∀ fr ∈ s.queue, Good S fr) (h : s.streamfrqPop left = .ok (res, queue)) :
    (∀ g ∈ queue, Good S g) ∧
      ∀ fr ∈ res, Good S fr ∧ (∃ g, firstWanted s.acked s.queue = some g ∧ (g.txbuf = none → fr.txbuf = none)) ∧
        fr.datalen ≤ left ∧ ∀ off, s.unackedOffset s.queue = .ok (some off) → fr.offset = off := by
  rw [streamfrqPop] at h
  obtain ⟨r, hpop, h⟩ := bind_ok h
  cases r with
  | none =>
      cases h
      exact ⟨by simp, by simp⟩
  | some r =>
      obtain ⟨fr, queue₁⟩ := r
      obtain ⟨hfr, hq₁, g, hg, hkind, _⟩ := unackedPop_good hs hq hpop
      have hcopied : g.txbuf = none → fr.txbuf = none := by
        intro hnone
        rw [hnone, Option.isSome_none] at hkind
        simpa using hkind
      have hoff : ∀ off, s.unackedOffset s.queue = .ok (some off) → fr.offset = off := fun off hoff =>
        unackedPop_offset hs hq hoff hpop
      simp only at h
      split at h
      · obtain ⟨queue₂, hput, h⟩ := bind_ok h
        cases h
        exact ⟨putBack_good hfr hq₁ hput, by simp⟩
      · rename_i hroom
        have hleft : fr.datalen ≠ 0 → 0 < left := fun hne => Nat.pos_of_ne_zero fun h0 => hroom (Or.inr ⟨h0, hne⟩)
        have hpos := hleft (Nat.ne_of_gt hfr.pos)
        split at h
        · rename_i hlt
          cases htx : fr.txbuf with
          | some txbuf =>
              rw [htx] at h
              obtain ⟨queue₂, hput, h⟩ := bind_ok h
              cases h
              obtain ⟨hfst, hsnd⟩ := hfr.split_retained htx hpos hlt
              refine ⟨putBack_good hsnd hq₁ hput, ?_⟩
              intro p hp
              cases hp
              refine ⟨hfst, ⟨g, hg, fun h => ?_⟩, ?_, hoff⟩
              · rw [hcopied h] at htx
                cases htx
              · rw [TxFrame.datalen, TxFrame.bytes_of_txbuf rfl]
                exact List.length_take_le left txbuf
          | none =>
              rw [htx] at h
              simp only at h
              split at h
              · cases h
              · rename_i hne
                obtain ⟨queue₂, hput, h⟩ := bind_ok h
                cases h
                rw [not_or] at hne
                obtain ⟨hfst, hsnd⟩ := hfr.split_copied htx hlt hne.1 hne.2
                rw [htx] at hfst
                refine ⟨putBack_good hsnd hq₁ hput, ?_⟩
                intro p hp
                cases hp
                refine ⟨hfst, ⟨g, hg, fun _ => rfl⟩, ?_, hoff⟩
                have hsplit := (vecSplit_spec (hfr.vecsOk htx).length_le left).1
                rw [TxFrame.datalen_of_data rfl, ← vecBytes_length, hsplit]
                exact List.length_take_le left _
        · rename_i hge
          split at h
          · cases h
            refine ⟨hq₁, ?_⟩
            intro p hp
            cases hp
            exact ⟨hfr, ⟨g, hg, hcopied⟩, Nat.not_lt.mp hge, hoff⟩
          · rename_i hsome
            have htx : fr.txbuf = none := by simpa using hsome
            obtain ⟨⟨fr', data', queue₂⟩, hmerge, h⟩ := bind_ok h
            cases h
            rw [TxFrame.datalen_of_data htx] at hmerge
            obtain ⟨hfin', hoff', htx', hvecs', hslice', hlen', hq₂⟩ :=
              mergeFrames_good hs hfr.fin (hfr.vecsOk htx) (hfr.vecSlice htx) hq₁ hmerge
            refine ⟨hq₂, ?_⟩
            intro p hp
            cases hp
            refine ⟨good_copied (htx'.trans htx) hfin' hvecs' ?_, ⟨g, hg, fun _ => htx'.trans htx⟩, ?_, ?_⟩
            · simp only [hoff']
              exact hslice'
            · have hdatalen := TxFrame.datalen_of_data htx
              have hdatalen' : TxFrame.datalen { fr' with data := data' } = vecLen data' := TxFrame.datalen_of_data (htx'.trans htx)
              simp only [hdatalen']
              omega
            · exact fun off h => hoff'.trans (hoff off h)

end Zngtcp2.CryptoTx
