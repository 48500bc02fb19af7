import Zngtcp2.Tx.Held

namespace Zngtcp2.StreamTx

open Strm TxStrm TxFrame Gaptr

/-- The frames `ps` take the place of `fr`: they have its unacknowledged bytes and its FIN. -/
structure Parts (missing : Nat → Prop) (fr : TxFrame) (ps : List TxFrame) : Prop where
  ok : ∀ p ∈ ps, p.Ok
  data : fr.data = [] → ∀ p ∈ ps, p.data = []
  le : ∀ p ∈ ps, fr.offset ≤ p.offset ∧ p.endOff ≤ fr.endOff
  finEnd : ∀ p ∈ ps, p.fin = true → fr.fin = true ∧ p.endOff = fr.endOff
  apart : ps.Pairwise Apart
  bytes : ∀ x, fr.offset ≤ x → x < fr.endOff → missing x → ∃ p ∈ ps, p.offset ≤ x ∧ x < p.endOff
  fin : fr.fin = true → ∃ p ∈ ps, p.fin = true
  empty : ps.countP empty ≤ [fr].countP empty
  start : ∀ p ∈ ps, StreamTx.empty p = true → StreamTx.empty fr = true ∧ p.offset = fr.offset

theorem Apart.part {a b c : TxFrame} (h : Apart a b) (hle : a.offset ≤ c.offset ∧ c.endOff ≤ a.endOff)
    (hfin : c.fin = true → a.fin = true) : Apart c b := by
  rcases h with ⟨hab, haf⟩ | ⟨hba, hbf⟩
  · refine Or.inl ⟨Nat.le_trans hle.2 hab, ?_⟩
    cases hcf : c.fin with
    | false => rfl
    | true =>
        rw [hfin hcf] at haf
        cases haf
  · exact Or.inr ⟨Nat.le_trans hba hle.1, hbf⟩

theorem FrameOf.part {s : TxStrm} {fr p : TxFrame} {ps : List TxFrame} (h : FrameOf s fr)
    (hparts : Parts s.acked.Missing fr ps) (hp : p ∈ ps) : FrameOf s p := by
  refine ⟨hparts.ok p hp, hparts.data h.data p hp, Nat.le_trans (hparts.le p hp).2 h.le, ?_⟩
  intro hfin
  obtain ⟨hff, hend⟩ := hparts.finEnd p hp hfin
  obtain ⟨hoff, hshut⟩ := h.fin hff
  exact ⟨hend.trans hoff, hshut⟩

theorem Tidy.parts {s : TxStrm} {fr : TxFrame} {ps others queue held held' : List TxFrame} (h : Tidy s held)
    (hfr : (s.queue ++ held).Perm (fr :: others)) (hparts : Parts s.acked.Missing fr ps)
    (hps : (queue ++ held').Perm (ps ++ others)) (hs : QueueSorted queue) : Tidy { s with queue := queue } held' := by
  refine ⟨h.type, h.wf, ?_, ?_, hs⟩
  · intro f hf
    have hframe : FrameOf s f := by
      rcases List.mem_append.mp (hps.mem_iff.mp hf) with hf | hf
      · exact (h.frames fr (hfr.mem_iff.mpr List.mem_cons_self)).part hparts hf
      · exact h.frames f (hfr.mem_iff.mpr (List.mem_cons_of_mem fr hf))
    exact ⟨hframe.ok, hframe.data, hframe.le, hframe.fin⟩
  · obtain ⟨hfirst, hothers⟩ := List.pairwise_cons.mp ((hfr.pairwise_iff Apart.symm).mp h.apart)
    refine (hps.pairwise_iff Apart.symm).mpr (List.pairwise_append.mpr ⟨hparts.apart, hothers, ?_⟩)
    intro p hp g hg
    exact (hfirst g hg).part (hparts.le p hp) (fun hfin => (hparts.finEnd p hp hfin).1)

theorem Covered.parts {s : TxStrm} {fr : TxFrame} {ps others queue held held' : List TxFrame} (h : Covered s held)
    (hfr : (s.queue ++ held).Perm (fr :: others)) (hparts : Parts s.acked.Missing fr ps)
    (hps : (queue ++ held').Perm (ps ++ others)) : Covered { s with queue := queue } held' := by
  constructor
  · intro x hx hm
    obtain ⟨f, hf, hle, hlt⟩ := h.bytes x hx hm
    rcases List.mem_cons.mp (hfr.mem_iff.mp hf) with rfl | hf
    · obtain ⟨p, hp, hin⟩ := hparts.bytes x hle hlt hm
      exact ⟨p, hps.mem_iff.mpr (List.mem_append_left _ hp), hin⟩
    · exact ⟨f, hps.mem_iff.mpr (List.mem_append_right _ hf), hle, hlt⟩
  · intro hshut
    rcases h.fin hshut with hacked | ⟨f, hf, hfin⟩
    · exact Or.inl hacked
    · rcases List.mem_cons.mp (hfr.mem_iff.mp hf) with rfl | hf
      · obtain ⟨p, hp, hpfin⟩ := hparts.fin hfin
        exact Or.inr ⟨p, hps.mem_iff.mpr (List.mem_append_left _ hp), hpfin⟩
      · exact Or.inr ⟨f, hps.mem_iff.mpr (List.mem_append_right _ hf), hfin⟩

/-- A frame is replaced by its parts, of which only nonempty ones stay in the queue. -/
theorem StreamOk.parts {s : TxStrm} {fr : TxFrame} {ps others queue held held' : List TxFrame} (h : StreamOk s held)
    (hfr : (s.queue ++ held).Perm (fr :: others)) (hparts : Parts s.acked.Missing fr ps)
    (hps : (queue ++ held').Perm (ps ++ others)) (hs : QueueSorted queue)
    (hq : ∀ f ∈ queue, f ∈ s.queue ∨ StreamTx.empty f = false) : StreamOk { s with queue := queue } held' := by
  refine ⟨h.tidy.parts hfr hparts hps hs, fun hreset => (h.covered hreset).parts hfr hparts hps, ?_, ?_, ?_, ?_, h.reset, h.finShut⟩
  · intro hreset f hf hempty
    rcases hq f hf with hf | hne
    · exact h.opening hreset f hf hempty
    · rw [hne] at hempty
      cases hempty
  · have honce := h.once
    have hcount := hparts.empty
    rw [hfr.countP_eq, List.countP_cons] at honce
    rw [hps.countP_eq, List.countP_append]
    simp only [List.countP_cons, List.countP_nil, Nat.zero_add] at hcount
    omega
  · intro f hf hempty
    rcases List.mem_append.mp (hps.mem_iff.mp hf) with hf | hf
    · obtain ⟨hfre, hoff⟩ := hparts.start f hf hempty
      rw [hoff]
      exact h.atZero fr (hfr.mem_iff.mpr List.mem_cons_self) hfre
    · exact h.atZero f (hfr.mem_iff.mpr (List.mem_cons_of_mem fr hf)) hempty
  · intro hunsent
    obtain ⟨hnil, _⟩ := h.unsent hunsent
    rw [hnil] at hfr
    exact absurd hfr.nil_eq (List.cons_ne_nil fr others).symm

theorem empty_of_datalen {f : TxFrame} (h : 0 < f.datalen) : empty f = false := by
  simp only [empty, Bool.and_eq_false_iff, decide_eq_false_iff_not]
  exact Or.inl (Nat.ne_of_gt h)

theorem parts_of_whole {missing : Nat → Prop} {fr p : TxFrame} (h : fr.Cut missing p none)
    (hempty : empty p = true → empty fr = true) : Parts missing fr [p] := by
  have hend : p.endOff = fr.endOff := h.endOff
  have hfin : p.fin = fr.fin := h.last rfl
  refine ⟨?_, ?_, ?_, ?_, List.pairwise_singleton _ _, ?_, ?_, ?_, ?_⟩
  · exact List.forall_mem_singleton.mpr h.ok
  · intro hdata
    exact List.forall_mem_singleton.mpr (h.copied hdata)
  · exact List.forall_mem_singleton.mpr ⟨h.le, Nat.le_of_eq hend⟩
  · refine List.forall_mem_singleton.mpr (fun hp => ⟨?_, hend⟩)
    rw [← hfin]
    exact hp
  · intro x hle hlt hm
    refine ⟨p, List.mem_singleton_self p, ?_, by omega⟩
    by_contra hnot
    exact h.before x hle (Nat.not_le.mp hnot) hm
  · intro hff
    exact ⟨p, List.mem_singleton_self p, hfin.trans hff⟩
  · cases hp : empty p with
    | false => simp [List.countP_cons, hp]
    | true => simp [hp, hempty hp]
  · refine List.forall_mem_singleton.mpr (fun hp => ⟨hempty hp, ?_⟩)
    have hfr := hempty hp
    simp only [StreamTx.empty, Bool.and_eq_true, decide_eq_true_eq] at hp hfr
    rw [TxFrame.endOff, TxFrame.endOff] at hend
    omega

theorem parts_of_pair {missing : Nat → Prop} {fr p q : TxFrame} (hle : fr.offset ≤ p.offset)
    (hbefore : ∀ x, fr.offset ≤ x → x < p.offset → ¬missing x) (hq : q.offset = p.endOff) (hend : q.endOff = fr.endOff)
    (hpos : 0 < p.datalen ∧ 0 < q.datalen) (hok : p.Ok ∧ q.Ok) (hdata : fr.data = [] → p.data = [] ∧ q.data = [])
    (hfin : p.fin = false ∧ q.fin = fr.fin) : Parts missing fr [p, q] := by
  have hpe : p.endOff = p.offset + p.datalen := rfl
  have hqe : q.endOff = q.offset + q.datalen := rfl
  obtain ⟨hp, hq0⟩ := hpos
  refine ⟨?_, ?_, ?_, ?_, ?_, ?_, ?_, ?_, ?_⟩
  · simp [hok]
  · intro hd
    simp [hdata hd]
  · simp only [List.forall_mem_cons, List.not_mem_nil, false_implies, implies_true, and_true]
    omega
  · simp only [List.forall_mem_cons, List.not_mem_nil, false_implies, implies_true, and_true]
    refine ⟨fun h => ?_, fun h => ⟨hfin.2 ▸ h, hend⟩⟩
    rw [hfin.1] at h
    cases h
  · simp only [List.pairwise_cons, List.mem_singleton, forall_eq, List.not_mem_nil, false_implies, implies_true,
      List.Pairwise.nil, and_true]
    exact Or.inl ⟨Nat.le_of_eq hq.symm, hfin.1⟩
  · intro x hx hlt hm
    have hxp : p.offset ≤ x := by
      by_contra hnot
      exact hbefore x hx (Nat.not_le.mp hnot) hm
    by_cases hin : x < p.endOff
    · exact ⟨p, List.mem_cons_self, hxp, hin⟩
    · exact ⟨q, List.mem_cons_of_mem p List.mem_cons_self, by omega, by omega⟩
  · intro hff
    exact ⟨q, List.mem_cons_of_mem p List.mem_cons_self, hfin.2.trans hff⟩
  · simp [List.countP_cons, empty_of_datalen hp, empty_of_datalen hq0]
  · simp [empty_of_datalen hp, empty_of_datalen hq0]

theorem parts_of_split {missing : Nat → Prop} {fr p q : TxFrame} (h : fr.Cut missing p (some q)) :
    Parts missing fr [p, q] := by
  obtain ⟨hpf, hqf, hoff, hp, hq, hqok, _, hqdata⟩ := h.next q rfl
  have hend := h.endOff
  simp only [Option.map_some, Option.getD_some] at hend
  refine parts_of_pair h.le h.before hoff ?_ ⟨hp, hq⟩ ⟨h.ok, hqok⟩ (fun hd => ⟨h.copied hd, hqdata hd⟩) ⟨hpf, hqf⟩
  rw [TxFrame.endOff, hoff, hend]

/-- The frame is cut in two because only `left` bytes of it fit. -/
theorem parts_of_txbuf {missing : Nat → Prop} {p : TxFrame} {txbuf : List UInt8} (htx : p.txbuf = some txbuf) (hok : p.Ok)
    {left : Nat} (hpos : 0 < left) (hlt : left < txbuf.length) :
    Parts missing p [{ p with fin := false, txbuf := some (txbuf.take left) },
      ⟨p.offset + left, p.fin, [], some (txbuf.drop left)⟩] := by
  have hdata := (hok.retained txbuf htx).2
  have htake : (txbuf.take left).length = left := List.length_take_of_le (Nat.le_of_lt hlt)
  refine parts_of_pair (Nat.le_refl _) (fun x hx hx' => absurd hx (by simpa using hx')) ?_ ?_ ⟨?_, ?_⟩
    ⟨ok_of_retained rfl (by omega) hdata, ok_of_retained rfl (by rw [List.length_drop]; omega) rfl⟩
    (fun hd => ⟨hd, rfl⟩) ⟨rfl, rfl⟩
  · simp only [TxFrame.endOff, datalen, bytes, Option.getD_some, htake]
  · simp only [TxFrame.endOff, datalen, bytes, Option.getD_some, htx, List.length_drop]
    omega
  · simpa only [datalen, bytes, Option.getD_some, htake] using hpos
  · simp only [datalen, bytes, Option.getD_some, List.length_drop]
    omega

/-- The frames behind a frame of the queue start where it ends or later, and it is without FIN. -/
theorem Tidy.behind {s : TxStrm} {held gone rest : List TxFrame} {fr : TxFrame} (h : Tidy s held)
    (hq : s.queue = gone ++ fr :: rest) : ∀ g ∈ rest, fr.endOff ≤ g.offset ∧ fr.fin = false := by
  intro g hg
  have hsub : [fr, g].Sublist s.queue := by
    rw [hq]
    exact ((List.singleton_sublist.mpr hg).cons_cons fr).trans (List.sublist_append_right gone _)
  have hlt : fr.offset < g.offset := by
    have := h.sorted.sublist hsub
    simpa using this
  have hapart : Apart fr g := by
    have := (List.pairwise_append.mp h.apart).1.sublist hsub
    simpa using this
  rcases hapart with hin | ⟨hle, _⟩
  · exact hin
  · have : g.offset ≤ g.endOff := Nat.le_add_right _ _
    omega

/-- The frame that `strm_streamfrq_unacked_pop` takes, and the queue behind it. -/
structure PopSpec (s : TxStrm) (held : List TxFrame) (p : TxFrame) (queue : List TxFrame) : Prop where
  ok : StreamOk { s with queue := queue } (p :: held)
  after : ∀ g ∈ queue, p.endOff ≤ g.offset
  alone : p.txbuf = none → queue = []

theorem StreamOk.popSpec {s : TxStrm} {held gone rest ps queue : List TxFrame} {fr p : TxFrame} (h : StreamOk s held)
    (hq : s.queue = gone ++ fr :: rest) (hgone : ∀ d ∈ gone, s.Deleted d) (hparts : Parts s.acked.Missing fr (p :: ps))
    (hps : queue = ps ++ rest) (hs : QueueSorted queue) (hne : ∀ f ∈ ps, empty f = false) :
    StreamOk { s with queue := queue } (p :: held) := by
  have hsub : (fr :: rest).Sublist s.queue := hq ▸ List.sublist_append_right gone _
  have hrest : StreamOk { s with queue := fr :: rest } held := by
    refine h.forget hsub (List.Sublist.refl _) (fun _ f hf => ?_)
    rw [hq, List.append_assoc] at hf
    rcases List.mem_append.mp hf with hf | hf
    · exact Or.inr ⟨(hgone f hf).acked, (hgone f hf).fin⟩
    · exact Or.inl hf
  refine @StreamOk.parts { s with queue := fr :: rest } fr (p :: ps) (rest ++ held) queue held (p :: held) hrest
    (List.Perm.refl _) hparts ?_ hs ?_
  · have hmid := @List.perm_middle _ p (ps ++ rest) held
    rw [hps]
    simpa using hmid
  · intro f hf
    rw [hps] at hf
    rcases List.mem_append.mp hf with hf | hf
    · exact Or.inr (hne f hf)
    · exact Or.inl (List.mem_cons_of_mem fr hf)

theorem StreamOk.popSpec_whole {s : TxStrm} {held gone rest : List TxFrame} {fr p : TxFrame} (h : StreamOk s held)
    (hq : s.queue = gone ++ fr :: rest) (hgone : ∀ d ∈ gone, s.Deleted d) (hcut : fr.Cut s.acked.Missing p none)
    (hpos : 0 < p.datalen ∨ p.fin = true ∧ s.finAcked = false ∨ s.opens p) : PopSpec s held p rest := by
  have hbehind := h.tidy.behind hq
  have hframe : ∀ f ∈ fr :: rest, FrameOf s f := by
    intro f hf
    refine h.tidy.frames f (List.mem_append_left _ ?_)
    rw [hq]
    exact List.mem_append_right gone hf
  have hend : p.endOff = fr.endOff := hcut.endOff
  have hpfin : p.fin = fr.fin := hcut.last rfl
  have hsorted : QueueSorted rest :=
    h.tidy.sorted.sublist (hq ▸ (List.sublist_cons_self fr rest).trans (List.sublist_append_right gone _))
  refine ⟨h.popSpec hq hgone (parts_of_whole hcut ?_) rfl hsorted (by simp), ?_, ?_⟩
  · -- an empty frame is taken only as the first of a stream without data, and is whole then
    intro hempty
    simp only [empty, Bool.and_eq_true, decide_eq_true_eq, Bool.not_eq_true'] at hempty ⊢
    rcases hpos with hpos | ⟨hfin, _⟩ | hop
    · omega
    · rw [hempty.2] at hfin
      cases hfin
    · have hle := (hframe fr List.mem_cons_self).le
      rw [hop.2.2.1, TxFrame.endOff] at hle
      exact ⟨by omega, hpfin ▸ hempty.2⟩
  · intro g hg
    rw [hend]
    exact (hbehind g hg).1
  · intro htx
    rw [List.eq_nil_iff_forall_not_mem]
    intro g hg
    have hp0 : p.datalen = 0 := hcut.ok.datalen_eq_zero.mpr ⟨htx, hcut.copied (hframe fr List.mem_cons_self).data⟩
    rcases hpos with hpos | ⟨hfin, _⟩ | hop
    · omega
    · have := (hbehind g hg).2
      rw [← hpfin, hfin] at this
      cases this
    · have hle := (hframe g (List.mem_cons_of_mem fr hg)).le
      have hlt : fr.offset < g.offset := by
        have := h.tidy.sorted
        rw [hq] at this
        exact (List.pairwise_cons.mp (List.pairwise_append.mp this).2.1).1 g hg
      rw [hop.2.2.1, TxFrame.endOff] at hle
      omega

theorem StreamOk.popSpec_split {s : TxStrm} {held gone rest : List TxFrame} {fr p q : TxFrame} (h : StreamOk s held)
    (hq : s.queue = gone ++ fr :: rest) (hgone : ∀ d ∈ gone, s.Deleted d) (hcut : fr.Cut s.acked.Missing p (some q)) :
    kslInsert q rest = some (q :: rest) ∧ PopSpec s held p (q :: rest) := by
  obtain ⟨_, _, hoff, hp, hqpos, _, _, _⟩ := hcut.next q rfl
  have hbehind := h.tidy.behind hq
  have hend := hcut.endOff
  simp only [Option.map_some, Option.getD_some] at hend
  have hlt : ∀ g ∈ rest, q.offset < g.offset := by
    intro g hg
    have := (hbehind g hg).1
    omega
  have hsorted : QueueSorted rest :=
    h.tidy.sorted.sublist (hq ▸ (List.sublist_cons_self fr rest).trans (List.sublist_append_right gone _))
  refine ⟨kslInsert_head hlt, h.popSpec hq hgone (parts_of_split hcut) rfl (List.pairwise_cons.mpr ⟨hlt, hsorted⟩) ?_, ?_, ?_⟩
  · exact List.forall_mem_singleton.mpr (empty_of_datalen hqpos)
  · refine List.forall_mem_cons.mpr ⟨Nat.le_of_eq hoff.symm, fun g hg => ?_⟩
    have := hlt g hg
    omega
  · intro htx
    have hfr := h.tidy.frames fr (List.mem_append_left _ (hq ▸ List.mem_append_right gone List.mem_cons_self))
    have := hcut.ok.datalen_eq_zero.mpr ⟨htx, hcut.copied hfr.data⟩
    omega

theorem StreamOk.unackedPop {s : TxStrm} {held : List TxFrame} (h : StreamOk s held) :
    (s.unackedPop s.queue = .ok none ∧ StreamOk { s with queue := [] } held) ∨
      ∃ p queue, s.unackedPop s.queue = .ok (some (p, queue)) ∧ PopSpec s held p queue := by
  have hframes : ∀ fr ∈ s.queue, fr.Ok ∧ fr.endOff ≤ s.offset := by
    intro fr hfr
    have hf := h.tidy.frames fr (List.mem_append_left _ hfr)
    exact ⟨hf.ok, hf.le⟩
  rcases unackedPop_outcome h.tidy.wf hframes with ⟨hall, hnone⟩ | ⟨gone, fr, rest, hq, hgone, hout, hne⟩
  · refine Or.inl ⟨hnone, h.forget (List.nil_sublist _) (List.Sublist.refl _) (fun _ f hf => ?_)⟩
    rcases List.mem_append.mp hf with hf | hf
    · exact Or.inr ⟨(hall f hf).acked, (hall f hf).fin⟩
    · exact Or.inl hf
  · have hdel : ∀ d ∈ gone, s.Deleted d := fun d hd => (hgone d hd).1
    refine Or.inr ?_
    generalize s.unackedPop s.queue = r at hout hne
    cases hout with
    | deleted _ _ _ => exact absurd rfl hne
    | notLast _ hfin _ hrest =>
        obtain ⟨g, hg⟩ := List.exists_mem_of_ne_nil rest hrest
        have := (h.tidy.behind hq g hg).2
        rw [hfin] at this
        cases this
    | whole p hcut hpos => exact ⟨p, rest, rfl, h.popSpec_whole hq hdel hcut hpos⟩
    | split p q hcut =>
        obtain ⟨hins, hspec⟩ := h.popSpec_split hq hdel hcut
        refine ⟨p, q :: rest, ?_, hspec⟩
        rw [putBack, hins]
        rfl

theorem mergeFrames_nil (s : TxStrm) (fuel : Nat) (fr : TxFrame) (data : List Vec) (datalen left : Nat) :
    s.mergeFrames fuel fr data datalen left [] = .ok (fr, data, []) := by
  cases fuel with
  | zero => rfl
  | succ fuel => simp [mergeFrames]

theorem PopSpec.putBack {s : TxStrm} {held queue : List TxFrame} {p : TxFrame} (h : PopSpec s held p queue)
    (hpos : 0 < p.datalen) : Strm.putBack queue p = .ok (p :: queue) ∧ StreamOk { s with queue := p :: queue } held := by
  have hlt : ∀ g ∈ queue, p.offset < g.offset := by
    intro g hg
    have := h.after g hg
    rw [TxFrame.endOff] at this
    omega
  have hins := kslInsert_head hlt
  refine ⟨by rw [Strm.putBack, hins], h.ok.insert hins (fun _ hempty => ?_)⟩
  rw [empty_of_datalen hpos] at hempty
  cases hempty

theorem PopSpec.cut {s : TxStrm} {held queue : List TxFrame} {p : TxFrame} (h : PopSpec s held p queue)
    {txbuf : List UInt8} (htx : p.txbuf = some txbuf) {left : Nat} (hpos : 0 < left) (hlt : left < txbuf.length) :
    let q : TxFrame := ⟨p.offset + left, p.fin, [], some (txbuf.drop left)⟩
    Strm.putBack queue q = .ok (q :: queue) ∧
      StreamOk { s with queue := q :: queue } ({ p with fin := false, txbuf := some (txbuf.take left) } :: held) := by
  intro q
  have hend : p.endOff = p.offset + txbuf.length := by rw [TxFrame.endOff, datalen, bytes_of_txbuf htx]
  have hafter : ∀ g ∈ queue, q.offset < g.offset := by
    intro g hg
    have := h.after g hg
    show p.offset + left < g.offset
    omega
  have hok := (h.ok.tidy.frames p (List.mem_append_right _ List.mem_cons_self)).ok
  have hqpos : 0 < q.datalen := by
    simp only [q, datalen, bytes, Option.getD_some, List.length_drop]
    omega
  refine ⟨by rw [Strm.putBack, kslInsert_head hafter], ?_⟩
  refine h.ok.parts List.perm_middle (parts_of_txbuf htx hok hpos hlt) ?_
    (List.pairwise_cons.mpr ⟨hafter, h.ok.tidy.sorted⟩) ?_
  · have hmid := @List.perm_middle _ { p with fin := false, txbuf := some (txbuf.take left) } (q :: queue) held
    simpa using hmid
  · refine List.forall_mem_cons.mpr ⟨Or.inr (empty_of_datalen hqpos), fun f hf => Or.inl hf⟩

/-- `ngtcp2_strm_streamfrq_pop` comes back with 0, and what it takes out of the queue it hands on. -/
theorem StreamOk.streamfrqPop {s : TxStrm} {held : List TxFrame} (h : StreamOk s held) (left : Nat) :
    ∃ res queue, s.streamfrqPop left = .ok (res, queue) ∧ StreamOk { s with queue := queue } (res.toList ++ held) := by
  rcases h.unackedPop with ⟨hpop, hok⟩ | ⟨p, queue, hpop, hspec⟩
  · refine ⟨none, [], ?_, hok⟩
    simp only [TxStrm.streamfrqPop, hpop]
    rfl
  · have hp := hspec.ok.tidy.frames p (List.mem_append_right _ List.mem_cons_self)
    rw [TxStrm.streamfrqPop, hpop]
    simp only [bind, Except.bind]
    split
    · rename_i hsmall
      obtain ⟨hback, hok⟩ := hspec.putBack (by omega)
      rw [hback]
      exact ⟨none, p :: queue, rfl, hok⟩
    · rename_i hsmall
      split
      · rename_i hlt
        cases htx : p.txbuf with
        | none =>
            have := hp.ok.datalen_eq_zero.mpr ⟨htx, hp.data⟩
            omega
        | some txbuf =>
            have hlen : p.datalen = txbuf.length := by rw [datalen, bytes_of_txbuf htx]
            obtain ⟨hback, hok⟩ := hspec.cut htx (show 0 < left by omega) (by omega)
            simp only [hback]
            exact ⟨_, _, rfl, hok⟩
      · split
        · exact ⟨some p, queue, rfl, hspec.ok⟩
        · rename_i htx
          have hnil := hspec.alone (by simpa using htx)
          subst hnil
          rw [mergeFrames_nil]
          exact ⟨some p, [], rfl, hspec.ok⟩

theorem unackedOffset_held {s : TxStrm} (hwf : s.acked.Wf s.offset) {queue : List TxFrame}
    (hq : ∀ f ∈ queue, FrameOf s f) :
    ∃ off, s.unackedOffset queue = .ok off ∧
      (off = none → ∀ f ∈ queue, f.AllAcked s.acked.Missing ∧ (f.fin = true → s.finAcked = true)) := by
  induction queue with
  | nil => exact ⟨none, rfl, by simp⟩
  | cons fr rest ih =>
      obtain ⟨off, hoff, hall⟩ := ih (fun f hf => hq f (List.mem_cons_of_mem fr hf))
      have hfr := hq fr List.mem_cons_self
      have hend : fr.endOff = fr.offset + fr.datalen := rfl
      have hle := hfr.le
      obtain ⟨gap, hgap, hfirst⟩ := hwf.unackedRangeAfter_spec (show fr.offset ≤ s.offset by omega)
      rw [unackedOffset, hgap]
      simp only
      split
      · exact ⟨_, rfl, by simp⟩
      · split
        · exact ⟨_, rfl, by simp⟩
        · rename_i hin
          split
          · exact ⟨_, rfl, by simp⟩
          · rename_i hfin
            refine ⟨off, hoff, fun hnone => List.forall_mem_cons.mpr ⟨⟨?_, ?_⟩, hall hnone⟩⟩
            · intro x hx hx'
              exact hfirst.before x hx (by omega)
            · intro hff
              -- the offset behind the last byte is never acknowledged, so the gap starts there
              have hbegin : gap.begin ≤ s.offset := by
                by_contra hnot
                exact hfirst.before s.offset (by omega) (Nat.not_le.mp hnot) (hwf.missing s.offset (Nat.le_refl _) hwf.bound_lt)
              have hlast := (hfr.fin hff).1
              by_contra hnot
              exact hfin ⟨by omega, hff, hnot⟩

theorem StreamOk.unackedOffset {s : TxStrm} {held : List TxFrame} (h : StreamOk s held) :
    ∃ off, s.unackedOffset s.queue = .ok off ∧ (off = none → StreamOk { s with queue := [] } held) := by
  obtain ⟨off, hoff, hall⟩ :=
    unackedOffset_held h.tidy.wf (fun f hf => h.tidy.frames f (List.mem_append_left _ hf))
  refine ⟨off, hoff, fun hnone => h.forget (List.nil_sublist _) (List.Sublist.refl _) (fun _ f hf => ?_)⟩
  rcases List.mem_append.mp hf with hf | hf
  · exact Or.inr (hall hnone f hf)
  · exact Or.inl hf

end Zngtcp2.StreamTx
