import Zngtcp2.Strm.Conservation

namespace Zngtcp2.Strm

open TxFrame

namespace TxStrm

variable {s : TxStrm} {bound : Nat}

/-- What merging at most `left` bytes of the queue into the frame `f` makes of them. -/
structure Merges (s : TxStrm) (left : Nat) (f : TxFrame) (queue : List TxFrame) (f' : TxFrame) (queue' : List TxFrame) :
    Prop where
  length_le : f'.datalen ≤ f.datalen + left
  unacked : ∀ x, f'.offset ≤ x → x < f'.endOff → s.acked.Missing x
  same : Same s (f' :: queue') (f :: queue)

theorem Merges.stop {left : Nat} {f : TxFrame} {queue queue' : List TxFrame}
    (hin : ∀ x, f.offset ≤ x → x < f.endOff → s.acked.Missing x) (hsame : Same s queue' queue) :
    Merges s left f queue f queue' :=
  ⟨Nat.le_add_right _ _, hin, (Same.refl [f]).append hsame⟩

/-- The vectors after `ngtcp2_vec_merge`, as a longer frame in front and what is left of the one
behind it. -/
structure MergedPair (f p f' p' : TxFrame) (n : Nat) : Prop where
  offset : f'.offset = f.offset
  bytes : f'.bytes = f.bytes ++ p.bytes.take n
  rest : p'.bytes = p.bytes.drop n
  restOffset : p'.offset = p.offset + n
  le : n ≤ p.datalen
  fin : p'.fin = p.fin

theorem MergedPair.datalen {f p f' p' : TxFrame} {n : Nat} (h : MergedPair f p f' p' n) : f'.datalen = f.datalen + n := by
  have := h.le
  rw [TxFrame.datalen, h.bytes, List.length_append, List.length_take]
  simp only [TxFrame.datalen] at this ⊢
  omega

theorem MergedPair.endOff {f p f' p' : TxFrame} {n : Nat} (h : MergedPair f p f' p' n) : f'.endOff = f.endOff + n := by
  rw [TxFrame.endOff, h.offset, h.datalen, TxFrame.endOff, Nat.add_assoc]

theorem MergedPair.same {f p f' p' : TxFrame} {n : Nat} (h : MergedPair f p f' p' n) (hcont : p.offset = f.endOff)
    (hfin : f.fin = false) (hfin' : f'.fin = false) : Same s [f', p'] [f, p] := by
  refine Same.of_pair h.offset hcont ?_ ?_ hfin hfin' h.fin
  · rw [h.restOffset, h.endOff, hcont]
  · rw [h.bytes, h.rest, List.append_assoc, List.take_append_drop]

theorem MergedPair.unacked {f p f' p' : TxFrame} {n : Nat} (h : MergedPair f p f' p' n) (hcont : p.offset = f.endOff)
    (hf : ∀ x, f.offset ≤ x → x < f.endOff → s.acked.Missing x) (hp : ∀ x, p.offset ≤ x → x < p.endOff → s.acked.Missing x) :
    ∀ x, f'.offset ≤ x → x < f'.endOff → s.acked.Missing x := by
  intro x hx hx'
  have hle := h.le
  have hoff := h.offset
  have hend := h.endOff
  have hplen : p.endOff = p.offset + p.datalen := rfl
  rcases Nat.lt_or_ge x f.endOff with hlt | hge
  · exact hf x (by omega) hlt
  · exact hp x (by omega) (by omega)

theorem vecMerge_pair {fr nfr : TxFrame} {data : List Vec} (left : Nat) (htx : fr.txbuf = none) (hntx : nfr.txbuf = none)
    (hdata : VecsOk maxStreamDatacnt data) (hsrc : VecsOk maxStreamDatacnt nfr.data) :
    let m := vecMerge maxStreamDatacnt data nfr.data left
    ∀ fin, MergedPair { fr with data := data } nfr { fr with fin := fin, data := m.dst }
      { nfr with offset := nfr.offset + m.nmerged, data := m.src } m.nmerged := by
  intro m fin
  have hm := vecMerge_spec hdata hsrc.pos left
  refine ⟨rfl, ?_, ?_, rfl, ?_, rfl⟩
  · simp only [bytes, htx, hntx, Option.getD_none]
    exact hm.dst_bytes
  · simp only [bytes, hntx, Option.getD_none]
    exact hm.src_bytes
  · rw [datalen_of_data hntx]
    exact hm.nmerged_len

/-- What is left of a merged frame goes back in front of the others. -/
theorem MergedPair.insert {f p f' p' : TxFrame} {n : Nat} {queue : List TxFrame} (h : MergedPair f p f' p' n)
    (hline : InLine bound (p :: queue)) (hpos : n = 0 ∨ n < p.datalen) : kslInsert p' queue = some (p' :: queue) := by
  refine kslInsert_head fun g hg => ?_
  obtain ⟨hlt, hle, _⟩ := hline.behind g hg
  have hoff := h.restOffset
  have hend : p.endOff = p.offset + p.datalen := rfl
  omega

theorem MergedPair.inLine {f p f' p' : TxFrame} {n : Nat} {queue : List TxFrame} (h : MergedPair f p f' p' n)
    (hf : InLine bound (f :: queue)) (hp : InLine bound (p :: queue)) (hcont : p.offset = f.endOff) (hall : n = p.datalen)
    (hok : f'.Ok) (hfin : f'.fin = p.fin) : InLine bound (f' :: queue) := by
  have hend : f'.endOff = p.endOff := by rw [h.endOff, hall, ← hcont, TxFrame.endOff]
  have hq := hp.sublist (List.sublist_cons_self p queue)
  refine ⟨List.forall_mem_cons.mpr ⟨⟨hok, hend ▸ (hp.frames p List.mem_cons_self).2⟩, hq.frames⟩,
    List.pairwise_cons.mpr ⟨fun g hg => ?_, hq.apart⟩⟩
  obtain ⟨_, hle, hpfin⟩ := hp.behind g hg
  exact ⟨h.offset ▸ (hf.behind g hg).1, hend ▸ hle, hfin.trans hpfin⟩

/-- What `ngtcp2_vec_merge` leaves behind it, in each of the three ways the loop goes on. -/
structure MergeRound (s : TxStrm) (bound left : Nat) (fr : TxFrame) (data : List Vec) (p : TxFrame) (queue : List TxFrame)
    (m : Merged) : Prop where
  le : m.nmerged ≤ left
  none : m.nmerged = 0 → kslInsert { p with data := m.src } queue = some ({ p with data := m.src } :: queue) ∧
    Merges s left { fr with data := data } (p :: queue) { fr with data := m.dst } ({ p with data := m.src } :: queue)
  part : m.src ≠ [] → kslInsert { p with offset := p.offset + m.nmerged, data := m.src } queue =
      some ({ p with offset := p.offset + m.nmerged, data := m.src } :: queue) ∧
    Merges s left { fr with data := data } (p :: queue) { fr with data := m.dst }
      ({ p with offset := p.offset + m.nmerged, data := m.src } :: queue)
  whole : m.src = [] → ∀ f', f' = { fr with fin := p.fin, data := m.dst } → InLine bound (f' :: queue) ∧
    Filled (f' :: queue) ∧ (∀ x, f'.offset ≤ x → x < f'.endOff → s.acked.Missing x) ∧
      f'.datalen = vecLen data + m.nmerged ∧ Same s (f' :: queue) ({ fr with data := data } :: p :: queue)

theorem vecMerge_round {fr p : TxFrame} {data : List Vec} {queue : List TxFrame} (left : Nat) (htx : fr.txbuf = none)
    (hptx : p.txbuf = none) (hfin : fr.fin = false) (hdata : VecsOk maxStreamDatacnt data)
    (hsrc : VecsOk maxStreamDatacnt p.data) (hf : InLine bound ({ fr with data := data } :: queue))
    (hp : InLine bound (p :: queue)) (hfilled : Filled (p :: queue))
    (hcont : p.offset = TxFrame.endOff { fr with data := data })
    (hin : ∀ x, fr.offset ≤ x → x < TxFrame.endOff { fr with data := data } → s.acked.Missing x)
    (hpin : ∀ x, p.offset ≤ x → x < p.endOff → s.acked.Missing x) :
    MergeRound s bound left fr data p queue (vecMerge maxStreamDatacnt data p.data left) := by
  have hm := vecMerge_spec hdata hsrc.pos left
  have hpair := vecMerge_pair left htx hptx hdata hsrc
  generalize vecMerge maxStreamDatacnt data p.data left = m at hm hpair
  have hflen : TxFrame.datalen { fr with data := data } = vecLen data := datalen_of_data htx
  have hrest : vecLen m.src = p.datalen - m.nmerged := by
    rw [← vecBytes_length, hm.src_bytes, List.length_drop, vecBytes_length, datalen_of_data hptx]
  have hle := hm.nmerged_le
  have hmerges : Merges s left { fr with data := data } (p :: queue) { fr with data := m.dst }
      ({ p with offset := p.offset + m.nmerged, data := m.src } :: queue) := by
    refine ⟨?_, (hpair fr.fin).unacked hcont hin hpin, ((hpair fr.fin).same hcont hfin hfin).append (Same.refl queue)⟩
    have := (hpair fr.fin).datalen
    omega
  refine ⟨hle, ?_, ?_, ?_⟩
  · intro h0
    have hins := (hpair fr.fin).insert hp (Or.inl h0)
    rw [h0, Nat.add_zero] at hins hmerges
    exact ⟨hins, hmerges⟩
  · intro hne
    have hpos := vecLen_pos hne hm.src_pos
    exact ⟨(hpair fr.fin).insert hp (Or.inr (by omega)), hmerges⟩
  · rintro hnil f' rfl
    have hn := (hpair p.fin).le
    have hall : m.nmerged = p.datalen := by
      rw [hnil, vecLen_nil] at hrest
      omega
    have hline := (hpair p.fin).inLine hf hp hcont hall (ok_of_copied htx hm.ok) rfl
    refine ⟨hline, hfilled.head hline ?_ fun _ _ => hptx, (hpair p.fin).unacked hcont hin hpin, ?_, ?_⟩
    · rw [(hpair p.fin).endOff, hall, ← hcont, TxFrame.endOff]
    · rw [(hpair p.fin).datalen, hflen]
    · have hbytes := (hpair p.fin).bytes
      rw [hall, TxFrame.datalen, List.take_length] at hbytes
      have hone : Same s [{ fr with data := data }, p] [{ fr with fin := p.fin, data := m.dst }] :=
        Same.of_split rfl hcont hbytes.symm hfin rfl
      exact (hone.append (Same.refl queue)).symm

theorem mergeFrames_merges (hs : s.acked.Wf bound) {fuel : Nat} {fr : TxFrame} {data : List Vec} {left : Nat}
    {queue : List TxFrame} (htx : fr.txbuf = none) (hline : InLine bound ({ fr with data := data } :: queue))
    (hfilled : Filled ({ fr with data := data } :: queue))
    (hin : ∀ x, fr.offset ≤ x → x < TxFrame.endOff { fr with data := data } → s.acked.Missing x) :
    ∃ fr' data' queue', s.mergeFrames fuel fr data (vecLen data) left queue = .ok (fr', data', queue') ∧
      Merges s left { fr with data := data } queue { fr' with data := data' } queue' := by
  induction fuel generalizing fr data left queue with
  | zero => exact ⟨fr, data, queue, rfl, Merges.stop hin (Same.refl _)⟩
  | succ fuel ih =>
      set f : TxFrame := { fr with data := data } with hf
      have hftx : f.txbuf = none := htx
      have hflen : f.datalen = vecLen data := datalen_of_data hftx
      have hfend : f.endOff = fr.offset + vecLen data := by rw [TxFrame.endOff, hflen]
      have hstop : ∀ queue', Same s queue' queue → Merges s left f queue f queue' := fun _ => Merges.stop hin
      rw [mergeFrames]
      split
      · exact ⟨fr, data, queue, rfl, hstop _ (Same.refl _)⟩
      · have hqline := hline.sublist (List.sublist_cons_self f queue)
        obtain ⟨r, hr, hfound⟩ := unackedOffset_spec hs fun g hg => (hqline.frames g hg).2
        rw [hr]
        cases r with
        | none => exact ⟨fr, data, queue, rfl, hstop _ (Same.refl _)⟩
        | some off =>
            have hfound := hfound off rfl
            simp only [bind, Except.bind]
            rw [← hfend]
            split
            · rename_i hne
              have hlt : f.endOff < off := by
                obtain ⟨g, hg, hcase⟩ := hfound
                have := (hline.behind g hg).2.1
                omega
              rw [if_pos hlt]
              exact ⟨fr, data, queue, rfl, hstop _ (Same.refl _)⟩
            · rename_i heq
              rw [not_not.mp heq] at hfound
              obtain ⟨g, rest, rfl, hgoff, hmiss⟩ := unackedOffset_next hline hfound
              rcases unackedPop_pops hs hqline with ⟨hnone, hsame⟩ | ⟨p, queue', hpop, hpops⟩
              · rw [hnone]
                exact ⟨fr, data, [], rfl, hstop _ hsame⟩
              · rw [hpop]
                obtain ⟨hcont, hpos⟩ := hpops.next hline hfilled hftx hgoff hmiss
                obtain ⟨hflt, _, hffin⟩ := hline.behind g List.mem_cons_self
                have hsame : Same s (f :: p :: queue') (f :: g :: rest) := (Same.refl [f]).append hpops.same
                simp only
                split
                · rw [hpops.inLine.putBack]
                  exact ⟨fr, data, p :: queue', rfl, hstop _ hpops.same⟩
                · rename_i hptx
                  have hptx : p.txbuf = none := by simpa using hptx
                  split
                  · rename_i hfin
                    have hpb : p.bytes = [] := by rw [bytes_of_data hptx, hfin.2, vecBytes_nil]
                    have hone : Same s [f, p] [{ f with fin := true }] :=
                      Same.of_split rfl hcont (by rw [hpb, List.append_nil]; rfl) hffin hfin.1
                    exact ⟨{ fr with fin := true }, data, queue', rfl, Nat.le_add_right _ _, hin,
                      (hone.append (Same.refl queue')).symm.trans hsame⟩
                  · rename_i hnfin
                    have hpvecs : VecsOk maxStreamDatacnt p.data := by
                      refine (hpops.inLine.frames p List.mem_cons_self).1.copied fun hnil => ?_
                      have hp0 : p.datalen = 0 := by rw [datalen_of_data hptx, hnil, vecLen_nil]
                      rcases hpos with hpos | ⟨hfin, _⟩
                      · omega
                      · exact hnfin ⟨hfin, hnil⟩
                    have hfvecs : VecsOk maxStreamDatacnt data := by
                      refine (hline.frames f List.mem_cons_self).1.copied fun hnil => ?_
                      have hf0 : f.datalen = 0 := by rw [datalen_of_data hftx, hnil, vecLen_nil]
                      rw [TxFrame.endOff, hf0] at hgoff
                      omega
                    have hfline := (hline.frames f List.mem_cons_self)
                    have hround := vecMerge_round left htx hptx hffin hfvecs hpvecs
                      (hpops.inLine.instead hfline.1 hfline.2 hffin hcont) hpops.inLine
                      (hpops.filled (hfilled.sublist (List.sublist_cons_self f _))) hcont hin hpops.unacked
                    generalize vecMerge maxStreamDatacnt data p.data left = m at hround
                    split
                    · rename_i h0
                      obtain ⟨hins, hmerges⟩ := hround.none h0
                      rw [putBack, hins]
                      exact ⟨fr, m.dst, _, rfl, hmerges.length_le, hmerges.unacked, hmerges.same.trans hsame⟩
                    · split
                      · rename_i hnil
                        obtain ⟨hline', hfilled', hin', hlen', hsame'⟩ := hround.whole hnil _ rfl
                        have hdst : vecLen m.dst = vecLen data + m.nmerged := by
                          rw [← hlen']
                          exact (@datalen_of_data { fr with fin := p.fin, data := m.dst } htx).symm
                        rw [← hdst]
                        obtain ⟨fr', data', queue'', hrun, hmerges⟩ :=
                          @ih { fr with fin := p.fin } m.dst (left - m.nmerged) queue' htx hline' hfilled' hin'
                        refine ⟨fr', data', queue'', hrun, ?_, hmerges.unacked, hmerges.same.trans (hsame'.trans hsame)⟩
                        have hle : TxFrame.datalen { fr' with data := data' } ≤
                            TxFrame.datalen { fr with fin := p.fin, data := m.dst } + (left - m.nmerged) := hmerges.length_le
                        have := hround.le
                        omega
                      · rename_i hne
                        obtain ⟨hins, hmerges⟩ := hround.part hne
                        rw [hins]
                        exact ⟨fr, m.dst, _, rfl, hmerges.length_le, hmerges.unacked, hmerges.same.trans hsame⟩

/-- What popping a frame of at most `left` bytes must leave as it is. -/
structure Conserves (s : TxStrm) (left : Nat) (popped : Option TxFrame) (queue : List TxFrame) : Prop where
  length_le : ∀ p ∈ popped, p.datalen ≤ left
  unacked : ∀ p ∈ popped, ∀ x, p.offset ≤ x → x < p.endOff → s.acked.Missing x
  cells : unackedCells s.acked (popped.toList ++ queue) = unackedCells s.acked s.queue
  fin : s.finAcked = false → finEnds (popped.toList ++ queue) = finEnds s.queue

def PopConserves (s : TxStrm) (left : Nat) : Prop :=
  ∃ popped queue, s.streamfrqPop left = .ok (popped, queue) ∧ Conserves s left popped queue

theorem Conserves.of_frame {left : Nat} {p : TxFrame} {queue : List TxFrame} (hle : p.datalen ≤ left)
    (hin : ∀ x, p.offset ≤ x → x < p.endOff → s.acked.Missing x) (hsame : Same s (p :: queue) s.queue) :
    Conserves s left (some p) queue := by
  refine ⟨?_, ?_, hsame.cells, hsame.fin⟩
  · intro q hq
    cases hq
    exact hle
  · intro q hq
    cases hq
    exact hin

theorem Conserves.of_none {left : Nat} {queue : List TxFrame} (hsame : Same s queue s.queue) :
    Conserves s left none queue :=
  ⟨by simp, by simp, hsame.cells, hsame.fin⟩

/-- A frame that is cut at `left` bytes, the rest going back to the queue. -/
theorem Pops.cutAt {left : Nat} {p : TxFrame} {queue queue' : List TxFrame} (h : Pops s bound queue p queue')
    (a b : TxFrame) (hlt : left < p.datalen) (hoff : a.offset = p.offset) (hb : b.offset = p.offset + left)
    (habytes : a.bytes = p.bytes.take left) (hbbytes : b.bytes = p.bytes.drop left) (hafin : a.fin = false)
    (hbfin : b.fin = p.fin) :
    putBack queue' b = .ok (b :: queue') ∧ a.datalen ≤ left ∧ (∀ x, a.offset ≤ x → x < a.endOff → s.acked.Missing x) ∧
      Same s (a :: b :: queue') queue := by
  have hend : p.endOff = p.offset + p.datalen := rfl
  have hlen : a.datalen = left := by
    rw [TxFrame.datalen, habytes, List.length_take]
    exact Nat.min_eq_left (Nat.le_of_lt hlt)
  have haend : a.endOff = p.offset + left := by rw [TxFrame.endOff, hoff, hlen]
  refine ⟨?_, Nat.le_of_eq hlen, ?_, ?_⟩
  · rw [putBack, kslInsert_head fun g hg => ?_]
    have := (h.inLine.behind g hg).2.1
    omega
  · intro x hx hx'
    exact h.unacked x (by omega) (by omega)
  · have hcut : Same s [a, b] [p] :=
      Same.of_split hoff (hb.trans haend.symm) (by rw [habytes, hbbytes, List.take_append_drop]) hafin hbfin
    exact (hcut.append (Same.refl queue')).trans h.same

theorem streamfrqPop_conserves (hs : s.acked.Wf bound) (hline : InLine bound s.queue) (hfilled : Filled s.queue)
    (left : Nat) : s.PopConserves left := by
  rw [PopConserves, streamfrqPop]
  rcases unackedPop_pops hs hline with ⟨hnone, hsame⟩ | ⟨p, queue, hpop, hpops⟩
  · rw [hnone]
    exact ⟨none, [], rfl, Conserves.of_none hsame⟩
  · rw [hpop]
    simp only [bind, Except.bind]
    split
    · rw [hpops.inLine.putBack]
      exact ⟨none, p :: queue, rfl, Conserves.of_none hpops.same⟩
    · rename_i hroom
      split
      · rename_i hlt
        cases htx : p.txbuf with
        | some txbuf =>
            have hb := bytes_of_txbuf htx
            obtain ⟨hput, hle, hin, hsame⟩ := hpops.cutAt { p with fin := false, txbuf := some (txbuf.take left) }
              ⟨p.offset + left, p.fin, [], some (txbuf.drop left)⟩ hlt rfl rfl (by rw [hb]; rfl) (by rw [hb]; rfl) rfl rfl
            simp only [hput]
            exact ⟨_, _, rfl, Conserves.of_frame hle hin hsame⟩
        | none =>
            have hpos : 0 < left := Nat.pos_of_ne_zero fun h0 => hroom (Or.inr ⟨h0, by omega⟩)
            have hb := bytes_of_data htx
            have hlen := datalen_of_data htx
            have hvecs : VecsOk maxStreamDatacnt p.data := by
              refine (hpops.inLine.frames p List.mem_cons_self).1.copied fun hnil => ?_
              rw [hnil, vecLen_nil] at hlen
              omega
            obtain ⟨hfst, hsnd⟩ := vecSplit_spec hvecs.length_le left
            generalize vecSplit maxStreamDatacnt p.data left = r at hfst hsnd
            have hfne : r.1 ≠ [] := by
              intro hnil
              have := congrArg List.length hfst
              rw [hnil, vecBytes_nil, List.length_take, vecBytes_length, List.length_nil] at this
              omega
            have hsne : r.2 ≠ [] := by
              intro hnil
              have := congrArg List.length hsnd
              rw [hnil, vecBytes_nil, List.length_drop, vecBytes_length, List.length_nil] at this
              omega
            obtain ⟨hput, hle, hin, hsame⟩ := hpops.cutAt { p with fin := false, data := r.1 }
              ⟨p.offset + left, p.fin, r.2, none⟩ hlt rfl rfl (by rw [hb, ← hfst]; exact bytes_of_data htx)
                (by rw [hb, ← hsnd]; exact bytes_of_data rfl) rfl rfl
            rw [htx] at hle hin hsame
            simp only [hput, if_neg (not_or.mpr ⟨hfne, hsne⟩)]
            exact ⟨_, _, rfl, Conserves.of_frame hle hin hsame⟩
      · rename_i hge
        split
        · exact ⟨some p, queue, rfl, Conserves.of_frame (Nat.not_lt.mp hge) hpops.unacked hpops.same⟩
        · rename_i htx
          have htx : p.txbuf = none := by simpa using htx
          have hsame : ({ p with data := p.data } : TxFrame) = p := rfl
          obtain ⟨fr, data, queue', hmerge, hm⟩ := @mergeFrames_merges s bound hs (left - p.datalen) p p.data
            (left - p.datalen) queue htx hpops.inLine (hpops.filled hfilled) hpops.unacked
          rw [datalen_of_data htx] at hmerge ⊢
          rw [hmerge]
          have hle : TxFrame.datalen { fr with data := data } ≤ p.datalen + (left - p.datalen) := hm.length_le
          exact ⟨some { fr with data := data }, queue', rfl,
            Conserves.of_frame (by omega) hm.unacked (hm.same.trans hpops.same)⟩

/-- A frame with copied data, a hole that is acknowledged, another one that goes on, and the FIN. -/
theorem streamfrqPop_conserves_hole :
    let s : TxStrm := { TxStrm.new .stream with
      offset := 6, acked := ⟨0, some [⟨0, 2⟩, ⟨3, uint64Max⟩]⟩,
      queue := [⟨0, false, [⟨0, [1, 2, 3, 4]⟩], none⟩, ⟨4, false, [], some [5, 6]⟩, ⟨6, true, [], none⟩] }
    s.streamfrqPop 300 =
        .ok (some ⟨0, false, [⟨0, [1, 2]⟩], none⟩,
          [⟨2, false, [⟨2, [3, 4]⟩], none⟩, ⟨4, false, [], some [5, 6]⟩, ⟨6, true, [], none⟩]) ∧
      s.PopConserves 300 := by
  intro s
  refine ⟨by decide, @streamfrqPop_conserves s 6 ⟨by decide, ?_, ?_, ?_⟩ ⟨?_, by decide⟩ ?_ 300⟩
  · intro gaps h
    cases h
    exact ⟨by decide, by decide⟩
  · intro x hx hlt
    exact ⟨⟨3, uint64Max⟩, by simp, by simp only; omega, hlt⟩
  · rintro x ⟨k, hk, hx⟩
    have hmax : 2 < uint64Max := by decide
    simp only [List.mem_cons, List.not_mem_nil, or_false] at hk
    rcases hk with rfl | rfl
    · exact Nat.lt_trans hx.2 hmax
    · exact hx.2
  · intro f hf
    simp only [s, List.mem_cons, List.not_mem_nil, or_false] at hf
    rcases hf with rfl | rfl | rfl
    · exact ⟨ok_of_copied rfl ⟨by decide, by decide, by decide⟩, by decide⟩
    · exact ⟨ok_of_retained rfl (by decide) rfl, by decide⟩
    · exact ⟨⟨by simp, by simp⟩, by decide⟩
  · intro a b c habc
    cases habc.eq_of_length rfl
    decide

/-- The frame without data at the offset 2 is the next one by its offset but is thrown away when it
is popped, so the byte at the offset 4 is sent as the one at the offset 2. -/
theorem streamfrqPop_closes_hole :
    let s : TxStrm := { TxStrm.new .stream with
      offset := 5,
      queue := [⟨0, false, [⟨0, [1, 2]⟩], none⟩, ⟨2, false, [], none⟩, ⟨4, false, [⟨100, [5]⟩], none⟩] }
    s.acked.Wf 5 ∧ InLine 5 s.queue ∧
      s.streamfrqPop 300 = .ok (some ⟨0, false, [⟨0, [1, 2]⟩, ⟨100, [5]⟩], none⟩, []) ∧ ¬s.PopConserves 300 := by
  intro s
  have hpop : s.streamfrqPop 300 = .ok (some ⟨0, false, [⟨0, [1, 2]⟩, ⟨100, [5]⟩], none⟩, []) := by decide
  refine ⟨Acked.new_wf (by decide), ⟨?_, by decide⟩, hpop, ?_⟩
  · intro f hf
    simp only [s, List.mem_cons, List.not_mem_nil, or_false] at hf
    rcases hf with rfl | rfl | rfl
    · exact ⟨ok_of_copied rfl ⟨by decide, by decide, by decide⟩, by decide⟩
    · exact ⟨⟨by simp, by simp⟩, by decide⟩
    · exact ⟨ok_of_copied rfl ⟨by decide, by decide, by decide⟩, by decide⟩
  · rintro ⟨popped, queue, h, hc⟩
    rw [hpop] at h
    cases h
    exact absurd hc.cells (by decide)

end TxStrm

end Zngtcp2.Strm
