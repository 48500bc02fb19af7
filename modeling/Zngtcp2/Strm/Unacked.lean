import Zngtcp2.Strm.Tx

namespace Zngtcp2.Strm

open Gaptr

namespace TxFrame

/-- The shapes a frame can have: retained data, copied data, or none. -/
structure Ok (fr : TxFrame) : Prop where
  retained : ∀ txbuf, fr.txbuf = some txbuf → txbuf ≠ [] ∧ fr.data = []
  copied : fr.data ≠ [] → VecsOk maxStreamDatacnt fr.data

theorem bytes_of_txbuf {fr : TxFrame} {txbuf : List UInt8} (h : fr.txbuf = some txbuf) : fr.bytes = txbuf := by
  rw [bytes, h, Option.getD_some]

theorem bytes_of_data {fr : TxFrame} (h : fr.txbuf = none) : fr.bytes = vecBytes fr.data := by
  rw [bytes, h, Option.getD_none]

theorem datalen_of_data {fr : TxFrame} (h : fr.txbuf = none) : fr.datalen = vecLen fr.data := by
  rw [datalen, bytes_of_data h, vecLen]

theorem Ok.datalen_eq_zero {fr : TxFrame} (h : fr.Ok) : fr.datalen = 0 ↔ fr.txbuf = none ∧ fr.data = [] := by
  cases ht : fr.txbuf with
  | some txbuf =>
      have := (h.retained txbuf ht).1
      simp [datalen, bytes_of_txbuf ht, this]
  | none =>
      rw [datalen_of_data ht]
      constructor
      · intro h0
        refine ⟨rfl, ?_⟩
        by_contra hne
        exact Nat.ne_of_gt (h.copied hne).len_pos h0
      · rintro ⟨-, hd⟩
        rw [hd, vecLen_nil]

/-- The frame `p` and what follows it, `q`, are what is left of `fr` behind the acknowledged bytes
at its front. -/
structure Cut (missing : Nat → Prop) (fr p : TxFrame) (q : Option TxFrame) : Prop where
  le : fr.offset ≤ p.offset
  before : ∀ x, fr.offset ≤ x → x < p.offset → ¬missing x
  inside : ∀ x, p.offset ≤ x → x < p.endOff → missing x
  bytes : fr.bytes.drop (p.offset - fr.offset) = p.bytes ++ (q.map TxFrame.bytes).getD []
  endOff : p.endOff + (q.map TxFrame.datalen).getD 0 = fr.endOff
  ok : p.Ok
  retained : 0 < p.datalen → (p.txbuf.isSome ↔ fr.txbuf.isSome)
  copied : fr.data = [] → p.data = []
  last : q = none → p.fin = fr.fin
  next : ∀ r, q = some r → p.fin = false ∧ r.fin = fr.fin ∧ r.offset = p.endOff ∧ 0 < p.datalen ∧ 0 < r.datalen ∧ r.Ok ∧
    (r.txbuf.isSome ↔ fr.txbuf.isSome) ∧ (fr.data = [] → r.data = [])

/-- Every byte of the frame is acknowledged. -/
def AllAcked (missing : Nat → Prop) (fr : TxFrame) : Prop :=
  ∀ x, fr.offset ≤ x → x < fr.endOff → ¬missing x

end TxFrame

namespace TxStrm

open TxFrame

/-- A zero-length frame that still has to tell the peer about the stream. -/
def opens (s : TxStrm) (fr : TxFrame) : Prop :=
  fr.datalen = 0 ∧ fr.offset = 0 ∧ s.offset = 0 ∧ s.anyAcked = false

inductive PopOutcome (s : TxStrm) (fr : TxFrame) (rest : List TxFrame) : Except Stop Popped → Prop
  | deleted (hall : fr.AllAcked s.acked.Missing) (hfin : fr.fin = true → s.finAcked = true ∧ rest = [])
      (hopens : fr.fin = false → ¬s.opens fr) : PopOutcome s fr rest (.ok none)
  | notLast (hall : fr.AllAcked s.acked.Missing) (hfin : fr.fin = true) (hacked : s.finAcked = true) (hne : rest ≠ []) :
      PopOutcome s fr rest (.error (.fault .assertion))
  | whole (p : TxFrame) (hcut : fr.Cut s.acked.Missing p none)
      (hpos : 0 < p.datalen ∨ p.fin = true ∧ s.finAcked = false ∨ s.opens p) :
      PopOutcome s fr rest (.ok (some (p, rest)))
  | split (p q : TxFrame) (hcut : fr.Cut s.acked.Missing p (some q)) :
      PopOutcome s fr rest (putBack rest q >>= fun queue => .ok (some (p, queue)))

theorem ok_of_retained {fr : TxFrame} {b : List UInt8} (htx : fr.txbuf = some b) (hb : 0 < b.length)
    (hdata : fr.data = []) : fr.Ok := by
  constructor
  · intro txbuf h
    rw [htx] at h
    cases h
    exact ⟨List.length_pos_iff.mp hb, hdata⟩
  · intro hne
    exact absurd hdata hne

theorem unackedPopTxbuf_outcome {s : TxStrm} {bound : Nat} (hs : s.acked.Wf bound) {fr : TxFrame}
    {txbuf : List UInt8} (hok : fr.Ok) (htx : fr.txbuf = some txbuf) (hle : fr.endOff ≤ bound) (rest : List TxFrame) :
    PopOutcome s fr rest (s.unackedPopTxbuf fr txbuf rest) := by
  have hbytes := bytes_of_txbuf htx
  have hend : fr.endOff = fr.offset + txbuf.length := by rw [TxFrame.endOff, datalen, hbytes]
  obtain ⟨hne, hdata⟩ := hok.retained txbuf htx
  obtain ⟨gap, hgap, hfirst⟩ := hs.unackedRangeAfter_spec (show fr.offset ≤ bound by omega)
  have hlen : 0 < txbuf.length := List.length_pos_iff.mpr hne
  have hlt := hfirst.lt
  have hafter := hfirst.after
  rw [unackedPopTxbuf, hgap]
  simp only
  split
  · rename_i hacked
    have hall : fr.AllAcked s.acked.Missing := fun x hx hx' => hfirst.before x hx (by omega)
    split
    · rename_i hfin
      split
      · rename_i hfa
        split
        · rename_i hrest
          exact .deleted hall (fun _ => ⟨hfa, hrest⟩) (by simp [hfin])
        · rename_i hrest
          exact .notLast hall hfin hfa hrest
      · rename_i hfa
        refine .whole _ ⟨?_, ?_, ?_, ?_, ?_, ⟨by simp, fun h => absurd hdata h⟩, ?_, fun _ => hdata, fun _ => rfl, by simp⟩
          (Or.inr (Or.inl ⟨hfin, by simpa using hfa⟩))
        · simp only
          omega
        · intro x hx hx'
          exact hall x hx (by simpa only [hend] using hx')
        · simp only [TxFrame.endOff, datalen, bytes, hdata, Option.getD_none, vecBytes_nil, List.length_nil]
          omega
        · simp [bytes, htx, hdata]
        · simp [TxFrame.endOff, datalen, bytes, hdata, htx]
        · simp [datalen, bytes, hdata]
    · rename_i hfin
      refine .deleted hall (fun h => absurd h hfin) (fun _ hop => ?_)
      have h0 := hop.1
      rw [datalen, hbytes] at h0
      omega
  · rename_i hnot
    have hpart : ((txbuf.drop (max gap.begin fr.offset - fr.offset)).take
        (min gap.endOff (fr.offset + txbuf.length) - max gap.begin fr.offset)).length =
          min gap.endOff (fr.offset + txbuf.length) - max gap.begin fr.offset := by
      rw [List.length_take, List.length_drop]
      omega
    split
    · rename_i hlast
      refine .split _ _ ⟨?_, ?_, ?_, ?_, ?_, ok_of_retained rfl (by omega) hdata, ?_, fun _ => hdata, by simp, ?_⟩
      · simp only
        omega
      · intro x hx hx'
        exact hfirst.before x hx (by simp only at hx'; omega)
      · intro x hx hx'
        simp only [TxFrame.endOff, datalen, bytes, Option.getD_some, hpart] at hx hx'
        exact hfirst.inside x (by omega) (by omega)
      · simp only [bytes, htx, Option.map_some, Option.getD_some]
        conv_lhs => rw [← List.take_append_drop (min gap.endOff (fr.offset + txbuf.length) - max gap.begin fr.offset)
          (txbuf.drop _), List.drop_drop]
        congr 2
        omega
      · simp only [TxFrame.endOff, datalen, bytes, htx, Option.map_some, Option.getD_some, hpart, List.length_drop]
        omega
      · simp [htx]
      · intro r hr
        cases hr
        refine ⟨rfl, rfl, ?_, ?_, ?_, ok_of_retained rfl ?_ rfl, by simp [htx], fun _ => rfl⟩
        · simp only [TxFrame.endOff, datalen, bytes, Option.getD_some, hpart]
          omega
        · simp only [datalen, bytes, Option.getD_some, hpart]
          omega
        · simp only [datalen, bytes, Option.getD_some, List.length_drop]
          omega
        · rw [List.length_drop]
          omega
    · rename_i hlast
      refine .whole _ ⟨?_, ?_, ?_, ?_, ?_, ok_of_retained rfl (by omega) hdata, ?_, fun _ => hdata, fun _ => rfl, by simp⟩
        (Or.inl ?_)
      · simp only
        omega
      · intro x hx hx'
        exact hfirst.before x hx (by simp only at hx'; omega)
      · intro x hx hx'
        simp only [TxFrame.endOff, datalen, bytes, Option.getD_some, hpart] at hx hx'
        exact hfirst.inside x (by omega) (by omega)
      · simp only [bytes, htx, Option.map_none, Option.getD_none, Option.getD_some, List.append_nil]
        rw [List.take_of_length_le]
        rw [List.length_drop]
        omega
      · simp only [TxFrame.endOff, datalen, bytes, htx, Option.map_none, Option.getD_none, Option.getD_some, hpart]
        omega
      · simp [htx]
      · simp only [datalen, bytes, Option.getD_some, hpart]
        omega

theorem headLongerThan_iff {n : Nat} {data : List Vec} :
    headLongerThan n data = true ↔ ∃ v vs, data = v :: vs ∧ n < v.len := by
  cases data with
  | nil => simp [headLongerThan]
  | cons v vs => simp [headLongerThan]

theorem dropHead_bytes {n : Nat} {data : List Vec} (h : headLongerThan n data = true) :
    vecBytes (dropHead n data) = (vecBytes data).drop n := by
  obtain ⟨v, vs, rfl, hn⟩ := headLongerThan_iff.mp h
  have hlen : v.bytes.length = v.len := rfl
  rw [dropHead, vecBytes_cons, vecBytes_cons, List.drop_append, Vec.drop_bytes]
  rw [show n - v.bytes.length = 0 by omega, List.drop_zero]

theorem dropHead_ok {maxcnt n : Nat} {data : List Vec} (h : headLongerThan n data = true) (hok : VecsOk maxcnt data) :
    VecsOk maxcnt (dropHead n data) := by
  obtain ⟨v, vs, rfl, hn⟩ := headLongerThan_iff.mp h
  refine ⟨by simp [dropHead], hok.length_le, ?_⟩
  refine List.forall_mem_cons.mpr ⟨?_, fun w hw => hok.pos w (List.mem_cons_of_mem v hw)⟩
  rw [Vec.drop_len]
  omega

theorem skipTo_spec {begin : Nat} {data : List Vec} {offset : Nat} (hle : offset ≤ begin)
    (hpos : ∀ v ∈ data, 0 < v.len) :
    ∃ pre, data = pre ++ (skipTo begin data offset).1 ∧ (skipTo begin data offset).2.1 = offset + vecLen pre ∧
      (if (skipTo begin data offset).1 = [] then offset + vecLen data ≤ begin
      else begin = (skipTo begin data offset).2.1 + (skipTo begin data offset).2.2 ∧
        headLongerThan (skipTo begin data offset).2.2 (skipTo begin data offset).1 = true) := by
  induction data generalizing offset with
  | nil => exact ⟨[], rfl, rfl, by simpa [skipTo] using hle⟩
  | cons v vs ih =>
      have hv := hpos v List.mem_cons_self
      rw [skipTo]
      split
      · rename_i hlt
        split
        · rename_i hin
          refine ⟨[], rfl, rfl, ?_⟩
          simp only [headLongerThan, decide_eq_true_eq, if_neg (List.cons_ne_nil v vs)]
          omega
        · rename_i hout
          obtain ⟨pre, hpre, hoff, hrest⟩ := ih (show offset + v.len ≤ begin by omega)
            (fun w hw => hpos w (List.mem_cons_of_mem v hw))
          refine ⟨v :: pre, by rw [List.cons_append, ← hpre], ?_, ?_⟩
          · rw [hoff, vecLen_cons, Nat.add_assoc]
          · rw [vecLen_cons, ← Nat.add_assoc]
            exact hrest
      · rename_i hge
        refine ⟨[], rfl, rfl, ?_⟩
        simp only [headLongerThan, decide_eq_true_eq, if_neg (List.cons_ne_nil v vs)]
        omega

theorem splitAtEnd_spec {last : Nat} (data : List Vec) {offset : Nat} (hle : offset ≤ last) :
    (splitAtEnd last data offset).1 ++ (splitAtEnd last data offset).2.1 = data ∧
      (splitAtEnd last data offset).2.2.1 = offset + vecLen (splitAtEnd last data offset).1 ∧
      (if (splitAtEnd last data offset).2.1 = [] then offset + vecLen data ≤ last
      else last = (splitAtEnd last data offset).2.2.1 + (splitAtEnd last data offset).2.2.2 ∧
        headLongerThan (splitAtEnd last data offset).2.2.2 (splitAtEnd last data offset).2.1 = true) := by
  induction data generalizing offset with
  | nil => simpa [splitAtEnd] using hle
  | cons v vs ih =>
      rw [splitAtEnd]
      split
      · rename_i hlt
        refine ⟨rfl, rfl, ?_⟩
        simp only [headLongerThan, decide_eq_true_eq, if_neg (List.cons_ne_nil v vs)]
        omega
      · rename_i hge
        obtain ⟨happ, hoff, hrest⟩ := ih (show offset + v.len ≤ last by omega)
        refine ⟨by rw [List.cons_append, happ], ?_, ?_⟩
        · simp only
          rw [hoff, vecLen_cons, Nat.add_assoc]
        · rw [vecLen_cons, ← Nat.add_assoc]
          exact hrest

theorem ok_of_copied {fr : TxFrame} (htx : fr.txbuf = none) (h : VecsOk maxStreamDatacnt fr.data) : fr.Ok :=
  ⟨fun txbuf hb => (by rw [htx] at hb; cases hb), fun _ => h⟩

/-- The vectors of the gap: those that end in it, and the part of the next one that lies in it. -/
theorem kept_spec {before after : List Vec} {endBase : Nat} (hok : VecsOk maxStreamDatacnt (before ++ after))
    (hlong : headLongerThan endBase after = true) {base : Nat}
    (hbase : headLongerThan base (before ++ after) = true) (hin : base < vecLen before + endBase) :
    let kept := before ++ if endBase = 0 then [] else (after.take 1).map (·.take endBase)
    VecsOk maxStreamDatacnt kept ∧ headLongerThan base kept = true ∧
      vecBytes kept = (vecBytes (before ++ after)).take (vecLen before + endBase) := by
  obtain ⟨v, vs, rfl, hn⟩ := headLongerThan_iff.mp hlong
  have hv : v.bytes.length = v.len := rfl
  have hlen := hok.length_le
  simp only [List.length_append, List.length_cons] at hlen
  have hbytes : (vecBytes (before ++ v :: vs)).take (vecLen before + endBase) = vecBytes before ++ v.bytes.take endBase := by
    rw [vecBytes_append, vecBytes_cons, List.take_append, List.take_append, vecLen]
    rw [List.take_of_length_le (Nat.le_add_right _ _), Nat.add_sub_cancel_left, show endBase - v.bytes.length = 0 by omega,
      List.take_zero, List.append_nil]
  have hpos : ∀ w ∈ before, 0 < w.len := fun w hw => hok.pos w (List.mem_append_left _ hw)
  split
  · rename_i h0
    subst h0
    rw [List.append_nil]
    cases before with
    | nil => simp at hin
    | cons w ws =>
        refine ⟨⟨List.cons_ne_nil w ws, by simp only [List.length_cons] at hlen ⊢; omega, hpos⟩, hbase, ?_⟩
        rw [hbytes, List.take_zero, List.append_nil]
  · rename_i h0
    have htake := v.take_len (Nat.le_of_lt hn)
    simp only [List.take_succ_cons, List.take_zero, List.map_cons, List.map_nil]
    refine ⟨VecsOk.snoc (by omega) hpos (by omega), ?_, ?_⟩
    · cases before with
      | nil =>
          simp only [vecLen_nil, Nat.zero_add] at hin
          simp only [List.nil_append, headLongerThan, decide_eq_true_eq]
          omega
      | cons w ws => exact hbase
    · rw [hbytes]
      simp

theorem unackedPopVec_outcome {s : TxStrm} {bound : Nat} (hs : s.acked.Wf bound) {fr : TxFrame}
    (hok : fr.Ok) (htx : fr.txbuf = none) (hle : fr.endOff ≤ bound) (rest : List TxFrame) :
    PopOutcome s fr rest (s.unackedPopVec fr rest) := by
  have hbytes := bytes_of_data htx
  have hend : fr.endOff = fr.offset + vecLen fr.data := by rw [TxFrame.endOff, datalen_of_data htx]
  obtain ⟨gap, hgap, hfirst⟩ := hs.unackedRangeAfter_spec (show fr.offset ≤ bound by omega)
  have hlt := hfirst.lt
  have hafter := hfirst.after
  have hpos : ∀ v ∈ fr.data, 0 < v.len := by
    by_cases hd : fr.data = []
    · simp [hd]
    · exact (hok.copied hd).pos
  have hskip := skipTo_spec (Nat.le_max_right gap.begin fr.offset) hpos
  rw [unackedPopVec, hgap]
  simp only
  generalize skipTo (max gap.begin fr.offset) fr.data fr.offset = r at hskip
  obtain ⟨data, offset, base⟩ := r
  obtain ⟨pre, hpre, hoff, hrest⟩ := hskip
  simp only at hpre hoff hrest ⊢
  split
  · rename_i hnil
    rw [if_pos hnil] at hrest
    have hall : fr.AllAcked s.acked.Missing := fun x hx hx' => hfirst.before x hx (by omega)
    split
    · rename_i hfin
      split
      · rename_i hfa
        split
        · rename_i hrest'
          exact .deleted hall (fun _ => ⟨hfa, hrest'⟩) (by simp [hfin])
        · rename_i hrest'
          exact .notLast hall hfin hfa hrest'
      · rename_i hfa
        refine .whole _ ⟨Nat.le_add_right _ _, ?_, ?_, ?_, ?_, ⟨by simp [htx], by simp⟩, ?_, fun _ => rfl, fun _ => rfl, by simp⟩
          (Or.inr (Or.inl ⟨hfin, by simpa using hfa⟩))
        · intro x hx hx'
          exact hall x hx (by simpa only [hend] using hx')
        · simp only [TxFrame.endOff, datalen, bytes, htx, Option.getD_none, vecBytes_nil, List.length_nil]
          omega
        · simp [bytes, htx, vecLen]
        · simp [TxFrame.endOff, datalen, bytes, htx, vecLen]
        · simp [datalen, bytes, htx]
    · rename_i hfin
      split
      · rename_i hop
        have h0 : fr.datalen = 0 := by rw [datalen_of_data htx, hop.2.1, vecLen_nil]
        refine .whole fr ⟨Nat.le_refl _, fun x hx hx' => absurd hx (by omega), fun x hx hx' => absurd hx ?_, by simp, by simp, hok,
          fun _ => Iff.rfl, id, fun _ => rfl, by simp⟩ (Or.inr (Or.inr ⟨h0, hop.1, hop.2.2.1, by simpa using hop.2.2.2⟩))
        rw [TxFrame.endOff] at hx'
        omega
      · rename_i hop
        refine .deleted hall (fun h => absurd h hfin) (fun _ h => hop ?_)
        exact ⟨h.2.1, ((hok.datalen_eq_zero).mp h.1).2, h.2.2.1, by simp [h.2.2.2]⟩
  · rename_i hnil
    rw [if_neg hnil] at hrest
    obtain ⟨hbegin, hlong⟩ := hrest
    rw [if_neg (not_not.mpr hbegin)]
    have hfd : fr.data ≠ [] := by
      intro h
      rw [h] at hpre
      exact hnil (List.append_eq_nil_iff.mp hpre.symm).2
    have hvecs := hok.copied hfd
    have hdataok : VecsOk maxStreamDatacnt data := by
      have hl := hvecs.length_le
      rw [hpre, List.length_append] at hl
      exact ⟨hnil, by omega, fun v hv => hpos v (by rw [hpre]; exact List.mem_append_right _ hv)⟩
    have hdrop : fr.bytes.drop (offset + base - fr.offset) = (vecBytes data).drop base := by
      rw [hbytes, hpre, vecBytes_append, show offset + base - fr.offset = (vecBytes pre).length + base by
        rw [hoff]; simp only [vecLen]; omega, ← List.drop_drop, List.drop_left]
    have hlen : fr.offset + vecLen fr.data = offset + vecLen data := by
      rw [hpre, hoff, vecLen_append]
      omega
    have hbefore : ∀ x, fr.offset ≤ x → x < offset + base → ¬s.acked.Missing x :=
      fun x hx hx' => hfirst.before x hx (by omega)
    have hsplit := splitAtEnd_spec data (show offset ≤ gap.endOff by omega)
    generalize splitAtEnd gap.endOff data offset = r at hsplit
    obtain ⟨before, after, endOffset, endBase⟩ := r
    obtain ⟨happ, hendoff, hcase⟩ := hsplit
    simp only at happ hendoff hcase ⊢
    have hbase : base < vecLen data := by
      obtain ⟨v, vs, rfl, hn⟩ := headLongerThan_iff.mp hlong
      rw [vecLen_cons]
      omega
    split
    · rename_i hafternil
      rw [if_pos hafternil] at hcase
      have hwhole : ∀ p : TxFrame, p.offset = offset + base → p.bytes = (vecBytes data).drop base → p.txbuf = none →
          VecsOk maxStreamDatacnt p.data → p.fin = fr.fin → PopOutcome s fr rest (.ok (some (p, rest))) := by
        intro p hpo hpb hpt hpd hpf
        have hpl : p.datalen = vecLen data - base := by rw [datalen, hpb, List.length_drop, vecLen]
        refine .whole p ⟨by omega, by rw [hpo]; exact hbefore, ?_, by simp [hpo, hpb, hdrop], ?_, ok_of_copied hpt hpd,
          fun _ => by rw [hpt, htx], fun h => absurd h hfd, fun _ => hpf, by simp⟩ (Or.inl (by omega))
        · intro x hx hx'
          rw [TxFrame.endOff] at hx'
          exact hfirst.inside x (by omega) (by omega)
        · simp only [TxFrame.endOff, hpl, Option.map_none, Option.getD_none, datalen_of_data htx]
          omega
      split
      · rename_i hsame
        refine hwhole fr (by omega) ?_ htx hvecs rfl
        rw [hsame.2, List.drop_zero, ← show fr.bytes.drop 0 = vecBytes data from ?_, List.drop_zero]
        have := hdrop
        rw [hsame.2, Nat.add_zero, hsame.1, Nat.sub_self] at this
        simpa using this
      · exact hwhole _ rfl (by simpa only [bytes, htx, Option.getD_none] using dropHead_bytes hlong) htx (dropHead_ok hlong hdataok) rfl
    · rename_i hafterne
      rw [if_neg hafterne] at hcase
      obtain ⟨hlast, hlonga⟩ := hcase
      rw [if_neg (by simp [hlong, hlonga])]
      obtain ⟨hkok, hklong, hkbytes⟩ := kept_spec (happ ▸ hdataok) hlonga (happ ▸ hlong)
        (show base < vecLen before + endBase by omega)
      rw [happ] at hkbytes
      have hafterok : VecsOk maxStreamDatacnt after := by
        have hl := hdataok.length_le
        rw [← happ, List.length_append] at hl
        exact ⟨hafterne, by omega, fun v hv => hdataok.pos v (by rw [← happ]; exact List.mem_append_right _ hv)⟩
      have hqbytes : vecBytes (dropHead endBase after) = (vecBytes data).drop (vecLen before + endBase) := by
        rw [dropHead_bytes hlonga, ← happ, vecBytes_append, vecLen, ← List.drop_drop, List.drop_left]
      have hin : vecLen before + endBase < vecLen data := by
        obtain ⟨v, vs, rfl, hn⟩ := headLongerThan_iff.mp hlonga
        rw [← happ, vecLen_append, vecLen_cons]
        omega
      have hplen : vecLen (dropHead base (before ++ if endBase = 0 then [] else (after.take 1).map (·.take endBase))) =
          vecLen before + endBase - base := by
        rw [← vecBytes_length, dropHead_bytes hklong, List.length_drop, hkbytes, List.length_take, vecBytes_length,
          Nat.min_eq_left (Nat.le_of_lt hin)]
      have hqlen : vecLen (dropHead endBase after) = vecLen data - (vecLen before + endBase) := by
        rw [← vecBytes_length, hqbytes, List.length_drop, vecBytes_length]
      refine .split _ _ ⟨?_, hbefore, ?_, ?_, ?_, ok_of_copied htx (dropHead_ok hklong hkok), fun _ => Iff.rfl,
        fun h => absurd h hfd, by simp, ?_⟩
      · simp only
        omega
      · intro x hx hx'
        simp only [TxFrame.endOff, datalen, bytes, htx, Option.getD_none, vecBytes_length, hplen] at hx hx'
        exact hfirst.inside x (by omega) (by omega)
      · rw [hdrop]
        simp only [bytes, htx, Option.map_some, Option.getD_some, Option.getD_none]
        rw [hqbytes, dropHead_bytes hklong, hkbytes, List.drop_take]
        conv_lhs => rw [← List.take_append_drop (vecLen before + endBase - base) ((vecBytes data).drop base), List.drop_drop]
        rw [Nat.add_sub_cancel' (show base ≤ vecLen before + endBase by omega)]
      · simp only [TxFrame.endOff, datalen, bytes, htx, Option.getD_none, Option.map_some, Option.getD_some,
          vecBytes_length, hplen, hqlen]
        omega
      · intro r hr
        cases hr
        refine ⟨rfl, rfl, ?_, ?_, ?_, ok_of_copied rfl (dropHead_ok hlonga hafterok), by simp [htx], fun h => absurd h hfd⟩
        · simp only [TxFrame.endOff, datalen, bytes, htx, Option.getD_none, vecBytes_length, hplen]
          omega
        · simp only [datalen, bytes, htx, Option.getD_none, vecBytes_length, hplen]
          omega
        · simp only [datalen, bytes, Option.getD_none, vecBytes_length, hqlen]
          omega

end TxStrm

end Zngtcp2.Strm
