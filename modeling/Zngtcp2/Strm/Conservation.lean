import Zngtcp2.Lib.Segment
import Zngtcp2.Lib.Run
import Zngtcp2.Strm.Queue

namespace Zngtcp2.Strm

open TxFrame Lib.Segment Lib.Run

instance Acked.decidableMissing (a : Acked) (x : Nat) : Decidable (a.Missing x) :=
  match h : a.gaps with
  | none => decidable_of_iff (a.cont ≤ x ∧ x < uint64Max) (by simp only [Acked.Missing, h])
  | some gaps => decidable_of_iff (∃ k ∈ gaps, k.begin ≤ x ∧ x < k.endOff) (by simp only [Acked.Missing, h, Gaptr.Mem])

def unackedOf (acked : Acked) (offset : Nat) (bytes : List UInt8) : List (Nat × UInt8) :=
  (cells offset bytes).filter fun c => acked.Missing c.1

/-- The unacknowledged bytes that the frames hold, each with its offset, in the order of the frames. -/
def unackedCells (acked : Acked) (frames : List TxFrame) : List (Nat × UInt8) :=
  frames.flatMap fun f => unackedOf acked f.offset f.bytes

/-- The final sizes that the frames with FIN state. -/
def finEnds (frames : List TxFrame) : List Nat :=
  (frames.filter TxFrame.fin).map TxFrame.endOff

/-- Frames with disjoint ranges in the order of their offsets, the keys of `tx.streamfrq`; only the
last one may have FIN. -/
structure InLine (bound : Nat) (queue : List TxFrame) : Prop where
  frames : ∀ f ∈ queue, f.Ok ∧ f.endOff ≤ bound
  apart : queue.Pairwise fun a b => a.offset < b.offset ∧ a.endOff ≤ b.offset ∧ a.fin = false

/-- No frame without data starts where a frame with copied data ends, unless it is the last one. -/
def Filled (queue : List TxFrame) : Prop :=
  ∀ a b c, List.Sublist [a, b, c] queue → a.txbuf = none → b.offset = a.endOff → 0 < b.datalen

theorem unackedOf_append (acked : Acked) (offset : Nat) (xs ys : List UInt8) :
    unackedOf acked offset (xs ++ ys) = unackedOf acked offset xs ++ unackedOf acked (offset + xs.length) ys := by
  rw [unackedOf, cells_append, List.filter_append]
  rfl

theorem unackedOf_eq_nil {acked : Acked} {offset : Nat} {bytes : List UInt8} :
    unackedOf acked offset bytes = [] ↔ ∀ x, offset ≤ x → x < offset + bytes.length → ¬acked.Missing x := by
  rw [unackedOf, List.filter_eq_nil_iff]
  constructor
  · intro h x hx hx'
    obtain ⟨b, hb⟩ := exists_mem_cells hx hx'
    simpa using h (x, b) hb
  · intro h c hc
    obtain ⟨hx, hx'⟩ := mem_cells hc
    simpa using h c.1 hx hx'

@[simp]
theorem unackedCells_nil (acked : Acked) : unackedCells acked [] = [] :=
  rfl

@[simp]
theorem unackedCells_cons (acked : Acked) (f : TxFrame) (fs : List TxFrame) :
    unackedCells acked (f :: fs) = unackedOf acked f.offset f.bytes ++ unackedCells acked fs :=
  rfl

@[simp]
theorem unackedCells_append (acked : Acked) (fs gs : List TxFrame) :
    unackedCells acked (fs ++ gs) = unackedCells acked fs ++ unackedCells acked gs :=
  List.flatMap_append

@[simp]
theorem finEnds_nil : finEnds [] = [] :=
  rfl

theorem finEnds_cons (f : TxFrame) (fs : List TxFrame) :
    finEnds (f :: fs) = (if f.fin = true then [f.endOff] else []) ++ finEnds fs := by
  rw [finEnds, List.filter_cons]
  split <;> rfl

@[simp]
theorem finEnds_append (fs gs : List TxFrame) : finEnds (fs ++ gs) = finEnds fs ++ finEnds gs := by
  rw [finEnds, List.filter_append, List.map_append]
  rfl

theorem InLine.sublist {bound : Nat} {queue queue' : List TxFrame} (h : InLine bound queue) (hs : queue'.Sublist queue) :
    InLine bound queue' :=
  ⟨fun f hf => h.frames f (hs.subset hf), h.apart.sublist hs⟩

theorem Filled.sublist {queue queue' : List TxFrame} (h : Filled queue) (hs : queue'.Sublist queue) : Filled queue' :=
  fun a b c habc => h a b c (habc.trans hs)

theorem InLine.behind {bound : Nat} {f : TxFrame} {queue : List TxFrame} (h : InLine bound (f :: queue)) :
    ∀ g ∈ queue, f.offset < g.offset ∧ f.endOff ≤ g.offset ∧ f.fin = false :=
  (List.pairwise_cons.mp h.apart).1

theorem InLine.kslInsert {bound : Nat} {f : TxFrame} {queue : List TxFrame} (h : InLine bound (f :: queue)) :
    kslInsert f queue = some (f :: queue) :=
  kslInsert_head fun g hg => (h.behind g hg).1

theorem InLine.putBack {bound : Nat} {f : TxFrame} {queue : List TxFrame} (h : InLine bound (f :: queue)) :
    putBack queue f = .ok (f :: queue) := by
  rw [Strm.putBack, h.kslInsert]

theorem InLine.instead {bound : Nat} {f p : TxFrame} {queue : List TxFrame} (h : InLine bound (p :: queue)) (hok : f.Ok)
    (hle : f.endOff ≤ bound) (hfin : f.fin = false) (hcont : p.offset = f.endOff) : InLine bound (f :: queue) := by
  have hq := h.sublist (List.sublist_cons_self p queue)
  refine ⟨List.forall_mem_cons.mpr ⟨⟨hok, hle⟩, hq.frames⟩, List.pairwise_cons.mpr ⟨fun g hg => ?_, hq.apart⟩⟩
  have hlt := (h.behind g hg).1
  have hend : f.endOff = f.offset + f.datalen := rfl
  exact ⟨by omega, by omega, hfin⟩

/-- A frame that takes the place of the first one, with the same end and the same kind of data. -/
theorem Filled.head {bound : Nat} {f g : TxFrame} {queue : List TxFrame} (h : Filled (f :: queue))
    (hg : InLine bound (g :: queue)) (hend : g.endOff = f.endOff) (hkind : 0 < g.datalen → g.txbuf = none → f.txbuf = none) :
    Filled (g :: queue) := by
  intro a b c habc ha hb
  rcases List.sublist_cons_iff.mp habc with hrest | ⟨r, hr, hsub⟩
  · exact h a b c (hrest.trans (List.sublist_cons_self f queue)) ha hb
  · cases hr
    have hlt := (hg.behind b (hsub.subset List.mem_cons_self)).1
    have hpos : 0 < g.datalen := by
      simp only [TxFrame.endOff] at hb
      omega
    exact h f b c (hsub.cons_cons f) (hkind hpos ha) (hb.trans hend)

theorem Filled.pair {bound : Nat} {f p q : TxFrame} {queue : List TxFrame} (h : Filled (f :: queue))
    (hp : InLine bound (p :: q :: queue)) (hend : q.endOff = f.endOff) (hpos : 0 < q.datalen)
    (hkind : q.txbuf = none → f.txbuf = none) (hcont : q.offset = p.endOff) : Filled (p :: q :: queue) := by
  have hq := hp.sublist (List.sublist_cons_self p _)
  intro a b c habc ha hb
  rcases List.sublist_cons_iff.mp habc with hrest | ⟨r, hr, hsub⟩
  · exact h.head hq hend (fun _ => hkind) a b c hrest ha hb
  · cases hr
    rcases List.sublist_cons_iff.mp hsub with hrest | ⟨r, hr, _⟩
    · have := (hq.behind b (hrest.subset List.mem_cons_self)).1
      omega
    · cases hr
      exact hpos

namespace TxStrm

variable {s : TxStrm} {bound : Nat}

/-- The frames hold the same unacknowledged bytes and state the same unacknowledged FIN. -/
structure Same (s : TxStrm) (frames frames' : List TxFrame) : Prop where
  cells : unackedCells s.acked frames = unackedCells s.acked frames'
  fin : s.finAcked = false → finEnds frames = finEnds frames'

theorem Same.refl (frames : List TxFrame) : Same s frames frames :=
  ⟨rfl, fun _ => rfl⟩

theorem Same.symm {fs gs : List TxFrame} (h : Same s fs gs) : Same s gs fs :=
  ⟨h.cells.symm, fun hf => (h.fin hf).symm⟩

theorem Same.trans {fs gs hs : List TxFrame} (h : Same s fs gs) (h' : Same s gs hs) : Same s fs hs :=
  ⟨h.cells.trans h'.cells, fun hf => (h.fin hf).trans (h'.fin hf)⟩

theorem Same.append {fs fs' gs gs' : List TxFrame} (h : Same s fs fs') (h' : Same s gs gs') :
    Same s (fs ++ gs) (fs' ++ gs') := by
  constructor
  · rw [unackedCells_append, unackedCells_append, h.cells, h'.cells]
  · intro hf
    rw [finEnds_append, finEnds_append, h.fin hf, h'.fin hf]

/-- The bytes of two adjacent frames, cut at another place. -/
theorem Same.of_pair {a b a' b' : TxFrame} (hoff : a'.offset = a.offset) (hcont : b.offset = a.endOff)
    (hcont' : b'.offset = a'.endOff) (hbytes : a'.bytes ++ b'.bytes = a.bytes ++ b.bytes) (hfin : a.fin = false)
    (hfin' : a'.fin = false) (hb : b'.fin = b.fin) : Same s [a', b'] [a, b] := by
  have hlen : a'.endOff + b'.datalen = a.endOff + b.datalen := by
    have := congrArg List.length hbytes
    rw [List.length_append, List.length_append] at this
    simp only [TxFrame.endOff, TxFrame.datalen]
    omega
  constructor
  · simp only [unackedCells_cons, unackedCells_nil, List.append_nil, hcont, hcont', TxFrame.endOff, TxFrame.datalen]
    rw [← unackedOf_append, ← unackedOf_append, hbytes, hoff]
  · intro _
    have : b'.endOff = b.endOff := by
      rw [TxFrame.endOff, TxFrame.endOff, hcont, hcont', hlen]
    simp [finEnds_cons, hfin, hfin', hb, this]

/-- The bytes of a frame, cut in two. -/
theorem Same.of_split {f a b : TxFrame} (hoff : a.offset = f.offset) (hcont : b.offset = a.endOff)
    (hbytes : a.bytes ++ b.bytes = f.bytes) (hfin : a.fin = false) (hb : b.fin = f.fin) : Same s [a, b] [f] := by
  have hlen : b.endOff = f.endOff := by
    have := congrArg List.length hbytes
    rw [List.length_append] at this
    rw [TxFrame.endOff, hcont]
    simp only [TxFrame.endOff, TxFrame.datalen]
    omega
  constructor
  · simp only [unackedCells_cons, unackedCells_nil, List.append_nil, hcont, TxFrame.endOff, TxFrame.datalen]
    rw [← unackedOf_append, hbytes, hoff]
  · intro _
    simp [finEnds_cons, hfin, hb, hlen]

theorem Deleted.same {f : TxFrame} (h : s.Deleted f) : Same s [] [f] := by
  constructor
  · rw [unackedCells_cons, unackedOf_eq_nil.mpr h.acked]
    rfl
  · intro hf
    have hfin : f.fin = false := by
      cases hff : f.fin with
      | false => rfl
      | true =>
          rw [h.fin hff] at hf
          cases hf
    simp [finEnds_cons, hfin]

theorem deleted_same {gone : List TxFrame} (h : ∀ d ∈ gone, s.Deleted d) : Same s [] gone := by
  induction gone with
  | nil => exact Same.refl []
  | cons d gone ih =>
      exact (h d List.mem_cons_self).same.append (ih fun g hg => h g (List.mem_cons_of_mem d hg))

theorem cut_same {f p : TxFrame} {q : Option TxFrame} (h : f.Cut s.acked.Missing p q) : Same s (p :: q.toList) [f] := by
  have hle := h.le
  have hend := h.endOff
  have hlen : f.bytes.length = f.datalen := rfl
  simp only [TxFrame.endOff] at hend
  constructor
  · have hcells : unackedOf s.acked f.offset f.bytes = unackedOf s.acked p.offset (p.bytes ++ (q.map TxFrame.bytes).getD []) := by
      conv_lhs => rw [← List.take_append_drop (p.offset - f.offset) f.bytes, unackedOf_append]
      have htake : (f.bytes.take (p.offset - f.offset)).length = p.offset - f.offset := by
        rw [List.length_take]
        omega
      rw [htake, Nat.add_sub_cancel' hle, h.bytes]
      rw [unackedOf_eq_nil.mpr, List.nil_append]
      intro x hx hx'
      exact h.before x hx (by omega)
    rw [unackedCells_cons, unackedCells_cons, unackedCells_nil, List.append_nil, hcells, unackedOf_append]
    cases q with
    | none => simp [unackedOf]
    | some r =>
        have hoff := (h.next r rfl).2.2.1
        simp only [Option.toList_some, unackedCells_cons, unackedCells_nil, List.append_nil, hoff, Option.map_some,
          Option.getD_some]
        rfl
  · intro _
    cases q with
    | none =>
        have hp : p.endOff = f.endOff := h.endOff
        simp [finEnds_cons, h.last rfl, hp]
    | some r =>
        obtain ⟨hpfin, hrfin, hoff, _⟩ := h.next r rfl
        have hr : r.endOff = f.endOff := by
          rw [TxFrame.endOff, hoff]
          exact h.endOff
        simp [finEnds_cons, hpfin, hrfin, hr]

/-- What `strm_streamfrq_unacked_pop` takes off the queue and what it leaves. -/
structure Pops (s : TxStrm) (bound : Nat) (queue : List TxFrame) (p : TxFrame) (queue' : List TxFrame) : Prop where
  inLine : InLine bound (p :: queue')
  filled : Filled queue → Filled (p :: queue')
  unacked : ∀ x, p.offset ≤ x → x < p.endOff → s.acked.Missing x
  same : Same s (p :: queue') queue
  before : ∀ f ∈ queue, ∀ x, f.offset ≤ x → x < f.endOff → x < p.offset → ¬s.acked.Missing x
  lower : ∀ x, (∀ f ∈ queue, x ≤ f.offset) → x ≤ p.offset
  pos : 0 < p.datalen ∨ p.fin = true ∧ s.finAcked = false ∨ s.opens p

theorem cut_inLine {f p : TxFrame} {q : Option TxFrame} {rest : List TxFrame} (h : InLine bound (f :: rest))
    (hcut : f.Cut s.acked.Missing p q) (hpos : 0 < p.datalen ∨ p.fin = true ∧ s.finAcked = false ∨ s.opens p) :
    InLine bound (p :: (q.toList ++ rest)) := by
  have hf := (h.frames f List.mem_cons_self).2
  have hle := hcut.le
  have hend := hcut.endOff
  have hplen : p.endOff = p.offset + p.datalen := rfl
  have hrest := h.sublist (List.sublist_cons_self f rest)
  cases q with
  | none =>
      have hpend : p.endOff = f.endOff := hend
      have hpfin := hcut.last rfl
      refine ⟨List.forall_mem_cons.mpr ⟨⟨hcut.ok, by omega⟩, hrest.frames⟩, List.pairwise_cons.mpr ⟨?_, hrest.apart⟩⟩
      intro g hg
      obtain ⟨hlt, hge, hfin⟩ := h.behind g hg
      refine ⟨?_, hpend ▸ hge, hpfin.trans hfin⟩
      rcases hpos with hpos | ⟨hpf, _⟩ | hopens
      · omega
      · rw [hpfin, hfin] at hpf
        cases hpf
      · have := hopens.2.1
        omega
  | some r =>
      obtain ⟨hpfin, hrfin, hoff, hp0, hr0, hrok, _⟩ := hcut.next r rfl
      have hrend : r.endOff = f.endOff := by
        rw [TxFrame.endOff, hoff]
        exact hend
      have hrlen : r.endOff = r.offset + r.datalen := rfl
      refine ⟨List.forall_mem_cons.mpr ⟨⟨hcut.ok, by omega⟩, List.forall_mem_cons.mpr ⟨⟨hrok, by omega⟩, hrest.frames⟩⟩,
        List.pairwise_cons.mpr ⟨List.forall_mem_cons.mpr ⟨⟨by omega, by omega, hpfin⟩, ?_⟩,
          List.pairwise_cons.mpr ⟨?_, hrest.apart⟩⟩⟩
      · intro g hg
        obtain ⟨hlt, hge, _⟩ := h.behind g hg
        exact ⟨by omega, by omega, hpfin⟩
      · intro g hg
        obtain ⟨hlt, hge, hfin⟩ := h.behind g hg
        exact ⟨by omega, by omega, hrfin.trans hfin⟩

theorem pops_of_cut {gone rest : List TxFrame} {f p : TxFrame} {q : Option TxFrame} (h : InLine bound (gone ++ f :: rest))
    (hgone : ∀ d ∈ gone, s.Deleted d) (hcut : f.Cut s.acked.Missing p q)
    (hpos : 0 < p.datalen ∨ p.fin = true ∧ s.finAcked = false ∨ s.opens p) :
    Pops s bound (gone ++ f :: rest) p (q.toList ++ rest) := by
  have htail := h.sublist (List.sublist_append_right gone (f :: rest))
  have hline := cut_inLine htail hcut hpos
  have hle := hcut.le
  have hend := hcut.endOff
  have hplen : p.endOff = p.offset + p.datalen := rfl
  refine ⟨hline, ?_, hcut.inside, ?_, ?_, ?_, hpos⟩
  · intro hfilled
    have hfilled := hfilled.sublist (List.sublist_append_right gone (f :: rest))
    cases q with
    | none =>
        refine hfilled.head hline hend (fun hp0 htx => ?_)
        have hiff := hcut.retained hp0
        rw [htx, Option.isSome_none] at hiff
        simpa using hiff
    | some r =>
        obtain ⟨_, _, hoff, _, hr0, _, hiff, _⟩ := hcut.next r rfl
        refine hfilled.pair hline ?_ hr0 (fun htx => ?_) hoff
        · rw [TxFrame.endOff, hoff]
          exact hend
        · rw [htx, Option.isSome_none] at hiff
          simpa using hiff
  · exact (deleted_same hgone).append ((cut_same hcut).append (Same.refl rest))
  · intro g hg x hx hx' hlt
    rcases List.mem_append.mp hg with hg | hg
    · exact (hgone g hg).acked x hx hx'
    · rcases List.mem_cons.mp hg with rfl | hg
      · exact hcut.before x hx hlt
      · have := (htail.behind g hg).2.1
        omega
  · intro x hx
    have := hx f (List.mem_append_right gone List.mem_cons_self)
    omega

theorem unackedPop_pops (hs : s.acked.Wf bound) {queue : List TxFrame} (h : InLine bound queue) :
    (s.unackedPop queue = .ok none ∧ Same s [] queue) ∨
      ∃ p queue', s.unackedPop queue = .ok (some (p, queue')) ∧ Pops s bound queue p queue' := by
  rcases unackedPop_outcome hs h.frames with ⟨hall, hnone⟩ | ⟨gone, f, rest, rfl, hgone, hout, hne⟩
  · exact Or.inl ⟨hnone, deleted_same hall⟩
  · refine Or.inr ?_
    have htail := h.sublist (List.sublist_append_right gone (f :: rest))
    have hgone' : ∀ d ∈ gone, s.Deleted d := fun d hd => (hgone d hd).1
    generalize s.unackedPop (gone ++ f :: rest) = r at hout hne
    cases hout with
    | deleted => exact absurd rfl hne
    | notLast hall hfin hacked hrest =>
        obtain ⟨g, hg⟩ := List.exists_mem_of_ne_nil rest hrest
        have := (htail.behind g hg).2.2
        rw [hfin] at this
        cases this
    | whole p hcut hpos => exact ⟨p, rest, rfl, pops_of_cut h hgone' hcut hpos⟩
    | split p q hcut =>
        have hpops := pops_of_cut h hgone' hcut (Or.inl (hcut.next q rfl).2.2.2.1)
        have hq : InLine bound (q :: rest) := hpops.inLine.sublist (List.sublist_cons_self p _)
        exact ⟨p, q :: rest, by rw [hq.putBack]; rfl, hpops⟩

theorem unackedOffset_spec (hs : s.acked.Wf bound) {queue : List TxFrame} (h : ∀ f ∈ queue, f.endOff ≤ bound) :
    ∃ r, s.unackedOffset queue = .ok r ∧ ∀ off ∈ r, ∃ f ∈ queue, f.offset < off ∨ f.offset = off ∧ s.acked.Missing off := by
  induction queue with
  | nil => exact ⟨none, rfl, by simp⟩
  | cons f rest ih =>
      obtain ⟨r, hr, hfound⟩ := ih fun g hg => h g (List.mem_cons_of_mem f hg)
      have hf := h f List.mem_cons_self
      have hend : f.endOff = f.offset + f.datalen := rfl
      obtain ⟨gap, hgap, hfirst⟩ := hs.unackedRangeAfter_spec (show f.offset ≤ bound by omega)
      rw [unackedOffset, hgap]
      simp only
      split
      · rename_i hle
        refine ⟨_, rfl, fun off hoff => ⟨f, List.mem_cons_self, ?_⟩⟩
        cases hoff
        exact Or.inr ⟨rfl, hfirst.inside _ hle hfirst.after⟩
      · rename_i hgt
        split
        · refine ⟨_, rfl, fun off hoff => ⟨f, List.mem_cons_self, ?_⟩⟩
          cases hoff
          exact Or.inl (by omega)
        · split
          · rename_i hfin
            refine ⟨_, rfl, fun off hoff => ⟨f, List.mem_cons_self, ?_⟩⟩
            cases hoff
            exact Or.inl (by omega)
          · refine ⟨r, hr, fun off hoff => ?_⟩
            obtain ⟨g, hg, hcase⟩ := hfound off hoff
            exact ⟨g, List.mem_cons_of_mem f hg, hcase⟩

/-- The frame behind `f` from which the next bytes come: it starts where `f` ends and is unacknowledged there. -/
theorem unackedOffset_next {f : TxFrame} {queue : List TxFrame} (h : InLine bound (f :: queue))
    (hfound : ∃ g ∈ queue, g.offset < f.endOff ∨ g.offset = f.endOff ∧ s.acked.Missing f.endOff) :
    ∃ g rest, queue = g :: rest ∧ g.offset = f.endOff ∧ s.acked.Missing f.endOff := by
  obtain ⟨g, hg, hcase⟩ := hfound
  have hge := (h.behind g hg).2.1
  obtain ⟨hoff, hmiss⟩ : g.offset = f.endOff ∧ s.acked.Missing f.endOff := by
    rcases hcase with hlt | heq
    · omega
    · exact heq
  cases queue with
  | nil => cases hg
  | cons a rest =>
      refine ⟨a, rest, rfl, ?_, hmiss⟩
      rcases List.mem_cons.mp hg with rfl | hg
      · exact hoff
      · have ha := (h.behind a List.mem_cons_self).2.1
        have := ((h.sublist (List.sublist_cons_self f _)).behind g hg).1
        omega

/-- What is popped behind `f`, if the queue goes on where `f` ends: it starts there, too, and has
data or the FIN. -/
theorem Pops.next {f g : TxFrame} {rest queue : List TxFrame} {p : TxFrame} (h : InLine bound (f :: g :: rest))
    (hfilled : Filled (f :: g :: rest)) (htx : f.txbuf = none) (hoff : g.offset = f.endOff)
    (hmiss : s.acked.Missing f.endOff) (hp : Pops s bound (g :: rest) p queue) :
    p.offset = f.endOff ∧ (0 < p.datalen ∨ p.fin = true ∧ s.finAcked = false) := by
  have hgline := h.sublist (List.sublist_cons_self f _)
  have hfg := (h.behind g List.mem_cons_self).1
  have hge : f.endOff ≤ p.offset := by
    refine hp.lower _ (List.forall_mem_cons.mpr ⟨Nat.le_of_eq hoff.symm, fun c hc => ?_⟩)
    exact (h.behind c (List.mem_cons_of_mem g hc)).2.1
  have hpos : 0 < p.datalen ∨ p.fin = true ∧ s.finAcked = false := by
    rcases hp.pos with hpos | hfin | hopens
    · exact Or.inl hpos
    · exact Or.inr hfin
    · have := hopens.2.1
      omega
  refine ⟨Nat.le_antisymm ?_ hge, hpos⟩
  rcases Nat.eq_zero_or_pos g.datalen with h0 | hg
  · -- a frame without data is the last one here, so what is popped is its FIN
    have hrest : rest = [] := by
      cases rest with
      | nil => rfl
      | cons c rest =>
          have := hfilled f g c (by simp) htx hoff
          omega
    subst hrest
    have hcells := hp.same.cells
    have hgb : g.bytes = [] := List.length_eq_zero_iff.mp h0
    rw [unackedCells_cons, unackedCells_cons, hgb, unackedCells_nil, List.append_nil] at hcells
    obtain ⟨hpcells, _⟩ := List.append_eq_nil_iff.mp (hcells.trans (by rfl))
    have hp0 : p.datalen = 0 := by
      by_contra hne
      have hlt : p.offset < p.offset + p.datalen := by omega
      exact unackedOf_eq_nil.mp hpcells p.offset (Nat.le_refl _) hlt (hp.unacked p.offset (Nat.le_refl _) hlt)
    rcases hpos with hpos | ⟨hfin, hfa⟩
    · omega
    · have hends := hp.same.fin hfa
      have hpend : p.endOff = p.offset := by rw [TxFrame.endOff, hp0, Nat.add_zero]
      have hgend : g.endOff = g.offset := by rw [TxFrame.endOff, h0, Nat.add_zero]
      rw [finEnds_cons, if_pos hfin, finEnds_cons] at hends
      split at hends
      · have := List.head_eq_of_cons_eq hends
        omega
      · cases hends
  · by_contra hgt
    have hgend : g.endOff = g.offset + g.datalen := rfl
    exact hp.before g List.mem_cons_self f.endOff (by omega) (by omega) (by omega) hmiss

end TxStrm

end Zngtcp2.Strm
