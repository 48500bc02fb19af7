import Zngtcp2.Tx.StreamRuns
import Zngtcp2.Tx.StreamFrames
import Zngtcp2.Rx.Prefix

namespace Zngtcp2.StreamTx

open Strm TxStrm TxFrame Lib.Run Lib.Segment

section Content

variable {S : List UInt8}

/-- A frame carries its part of `S`, and FIN only at the end of it. -/
structure Content (S : List UInt8) (f : TxFrame) : Prop where
  slice : Slice S f.offset f.bytes
  fin : f.fin = true → f.endOff = S.length
  varint : f.endOff ≤ maxVarint

/-- The frames of the stream `sid` carry their parts of `S`. -/
def OfStream (S : List UInt8) (sid j : Nat) (f : TxFrame) : Prop :=
  j = sid → Content S f

theorem newFrame_content {strm : TxStrm} {data : List UInt8} {fin : Bool} (hslice : Slice S strm.offset data)
    (hfin : fin = true → strm.offset + data.length = S.length) (hle : strm.offset + data.length ≤ maxVarint) :
    Content S (newFrame strm data fin) := by
  refine ⟨?_, ?_, ?_⟩
  · rw [newFrame_bytes]
    exact hslice
  · rw [newFrame_endOff]
    exact hfin
  · rw [newFrame_endOff]
    exact hle

/-- The pieces of a frame that is cut carry their parts as well. -/
theorem Content.cut {missing : Nat → Prop} {fr p : TxFrame} {q : Option TxFrame} (h : Content S fr)
    (hcut : fr.Cut missing p q) : Content S p ∧ ∀ r, q = some r → Content S r := by
  have hle := hcut.le
  have hend := hcut.endOff
  have hpend : p.endOff = p.offset + p.bytes.length := rfl
  have hfend : fr.endOff = fr.offset + fr.bytes.length := rfl
  have hslice := h.slice.drop (show p.offset - fr.offset ≤ fr.bytes.length by omega)
  rw [Nat.add_sub_cancel' hle, hcut.bytes] at hslice
  have hmax := h.varint
  refine ⟨⟨hslice.left, ?_, by omega⟩, ?_⟩
  · intro hfin
    cases q with
    | none =>
        rw [hcut.last rfl] at hfin
        rw [show p.endOff = fr.endOff from hend]
        exact h.fin hfin
    | some r =>
        rw [(hcut.next r rfl).1] at hfin
        cases hfin
  · rintro r rfl
    obtain ⟨-, hrfin, hoff, -⟩ := hcut.next r rfl
    have hrend : r.endOff = fr.endOff := by
      rw [TxFrame.endOff, hoff]
      exact hend
    refine ⟨?_, ?_, by omega⟩
    · have hright := hslice.right
      rw [← hpend, ← hoff] at hright
      exact hright
    · rw [hrfin, hrend]
      exact h.fin

/-- The two parts of a frame of which only `left` bytes fit. -/
theorem Content.split {p : TxFrame} {txbuf : List UInt8} (h : Content S p) (htx : p.txbuf = some txbuf) {left : Nat}
    (hle : left ≤ txbuf.length) : Content S { p with fin := false, txbuf := some (txbuf.take left) } ∧
      Content S ⟨p.offset + left, p.fin, [], some (txbuf.drop left)⟩ := by
  have hslice := h.slice
  have hmax := h.varint
  have hfin := h.fin
  have htake : (txbuf.take left).length = left := List.length_take_of_le hle
  rw [TxFrame.endOff, datalen, bytes_of_txbuf htx] at hmax hfin
  rw [bytes_of_txbuf htx, ← List.take_append_drop left txbuf] at hslice
  have hright := hslice.right
  rw [htake] at hright
  refine ⟨⟨hslice.left, fun hf => absurd hf Bool.false_ne_true, ?_⟩, ⟨hright, fun hf => ?_, ?_⟩⟩
  · simp only [TxFrame.endOff, datalen, bytes, Option.getD_some, htake]
    omega
  · simp only [TxFrame.endOff, datalen, bytes, Option.getD_some, List.length_drop]
    have hall := hfin hf
    omega
  · simp only [TxFrame.endOff, datalen, bytes, Option.getD_some, List.length_drop]
    omega

theorem putBack_content {queue queue' : List TxFrame} {fr : TxFrame} (h : putBack queue fr = .ok queue') (hfr : Content S fr)
    (hq : ∀ f ∈ queue, Content S f) : ∀ f ∈ queue', Content S f := by
  intro f hf
  obtain rfl | hf := putBack_mem h hf
  · exact hfr
  · exact hq f hf

theorem unackedPop_content {s : TxStrm} {bound : Nat} (hs : s.acked.Wf bound) {queue queue' : List TxFrame} {p : TxFrame}
    (hq : ∀ f ∈ queue, f.Ok ∧ f.endOff ≤ bound) (hc : ∀ f ∈ queue, Content S f)
    (h : s.unackedPop queue = .ok (some (p, queue'))) : Content S p ∧ ∀ f ∈ queue', Content S f := by
  obtain ⟨-, hnone⟩ | ⟨gone, fr, rest, rfl, -, hout, -⟩ := unackedPop_outcome hs hq
  · rw [hnone] at h
    cases h
  · have hfr := hc fr (List.mem_append_right gone List.mem_cons_self)
    have hrest : ∀ f ∈ rest, Content S f := fun f hf => hc f (List.mem_append_right gone (List.mem_cons_of_mem fr hf))
    rw [h] at hout
    generalize hr : (Except.ok (some (p, queue')) : Except Stop Popped) = r at hout
    cases hout with
    | deleted _ _ _ => cases hr
    | notLast _ _ _ _ => cases hr
    | whole p₁ hcut _ =>
        cases hr
        exact ⟨(hfr.cut hcut).1, hrest⟩
    | split p₁ q hcut =>
        obtain ⟨queue₁, hback, hok⟩ := bind_ok hr.symm
        cases hok
        obtain ⟨hp, hnext⟩ := hfr.cut hcut
        exact ⟨hp, putBack_content hback (hnext q rfl) hrest⟩

/-- What `ngtcp2_strm_streamfrq_pop` takes out, and what it leaves, still carries its part. -/
theorem StreamOk.pop_content {s : TxStrm} {held : List TxFrame} (h : StreamOk s held) (hc : ∀ f ∈ s.queue, Content S f)
    {left : Nat} {res : Option TxFrame} {queue : List TxFrame} (hpop : s.streamfrqPop left = .ok (res, queue)) :
    (∀ f ∈ res, Content S f) ∧ ∀ f ∈ queue, Content S f := by
  obtain ⟨hnone, -⟩ | ⟨p, queue₁, hun, hspec⟩ := h.unackedPop
  · simp only [TxStrm.streamfrqPop, hnone, bind, Except.bind] at hpop
    cases hpop
    exact ⟨by simp, by simp⟩
  · have hframes : ∀ f ∈ s.queue, f.Ok ∧ f.endOff ≤ s.offset := by
      intro f hf
      have hf := h.tidy.frames f (List.mem_append_left held hf)
      exact ⟨hf.ok, hf.le⟩
    obtain ⟨hp, hq⟩ := unackedPop_content h.tidy.wf hframes hc hun
    have hpOf := hspec.ok.tidy.frames p (List.mem_append_right _ List.mem_cons_self)
    simp only [TxStrm.streamfrqPop, hun, bind, Except.bind] at hpop
    split at hpop
    · obtain ⟨queue₂, hback, hok⟩ := bind_ok hpop
      cases hok
      exact ⟨by simp, putBack_content hback hp hq⟩
    · split at hpop
      · rename_i hlt
        cases htx : p.txbuf with
        | none =>
            have hzero := hpOf.ok.datalen_eq_zero.mpr ⟨htx, hpOf.data⟩
            omega
        | some txbuf =>
            rw [htx] at hpop
            obtain ⟨queue₂, hback, hok⟩ := bind_ok hpop
            cases hok
            obtain ⟨htake, hdrop⟩ := hp.split htx (show left ≤ txbuf.length by rw [datalen, bytes_of_txbuf htx] at hlt; omega)
            exact ⟨by simpa using htake, putBack_content hback hdrop hq⟩
      · split at hpop
        · cases hpop
          exact ⟨by simpa using hp, hq⟩
        · rename_i htx
          have hnil := hspec.alone (by simpa using htx)
          subst hnil
          rw [mergeFrames_nil] at hpop
          cases hpop
          exact ⟨by simpa using hp, hq⟩

end Content

section Keeps

/-- A stream has kept what was accepted for it and what was acknowledged. -/
structure Kept (strm strm' : TxStrm) : Prop where
  offset : strm'.offset = strm.offset
  acked : strm'.acked = strm.acked
  finAcked : strm'.finAcked = strm.finAcked
  shutWr : strm'.shutWr = false → strm.shutWr = false

theorem Kept.refl (strm : TxStrm) : Kept strm strm :=
  ⟨rfl, rfl, rfl, id⟩

theorem Kept.trans {a b c : TxStrm} (h : Kept a b) (h' : Kept b c) : Kept a c :=
  ⟨h'.offset.trans h.offset, h'.acked.trans h.acked, h'.finAcked.trans h.finAcked, fun hc => h.shutWr (h'.shutWr hc)⟩

def Keeps (strms strms' : Strms) : Prop :=
  ∀ sid strm', strms' sid = some strm' → ∃ strm, strms sid = some strm ∧ Kept strm strm'

theorem Keeps.refl (strms : Strms) : Keeps strms strms :=
  fun _ strm hs => ⟨strm, hs, Kept.refl strm⟩

theorem Keeps.trans {a b c : Strms} (h : Keeps a b) (h' : Keeps b c) : Keeps a c := by
  intro sid strm'' hs
  obtain ⟨strm', hs', hk'⟩ := h' sid strm'' hs
  obtain ⟨strm, hs, hk⟩ := h sid strm' hs'
  exact ⟨strm, hs, hk.trans hk'⟩

variable {strms strms' : Strms} {sid : Nat} {strm : TxStrm}

theorem keeps_set {strm' : TxStrm} (hs : strms sid = some strm) (hk : Kept strm strm') :
    Keeps strms (Function.update strms sid (some strm')) := by
  intro j strm₁ hj
  by_cases hjs : j = sid
  · subst hjs
    rw [Function.update_self, Option.some.injEq] at hj
    subst hj
    exact ⟨strm, hs, hk⟩
  · rw [Function.update_of_ne hjs] at hj
    exact ⟨strm₁, hj, Kept.refl strm₁⟩

theorem keeps_close (strms : Strms) (sid : Nat) : Keeps strms (Function.update strms sid none) := by
  intro j strm₁ hj
  by_cases hjs : j = sid
  · subst hjs
    rw [Function.update_self] at hj
    cases hj
  · rw [Function.update_of_ne hjs] at hj
    exact ⟨strm₁, hj, Kept.refl strm₁⟩

theorem pushFrame_keeps {fr : TxFrame} (hs : strms sid = some strm) (h : pushFrame strms sid strm fr = .ok strms') :
    Keeps strms strms' := by
  obtain ⟨queue, -, hok⟩ := bind_ok h
  cases hok
  exact keeps_set hs ⟨rfl, rfl, rfl, id⟩

theorem reclaimFrame_keeps {frs : List (Nat × TxFrame)} (h : reclaimFrame frs strms = .ok strms') : Keeps strms strms' := by
  induction frs generalizing strms with
  | nil =>
      cases h
      exact Keeps.refl _
  | cons p frs ih =>
      obtain ⟨j, fr⟩ := p
      rw [reclaimFrame] at h
      cases hs : strms j with
      | none =>
          rw [hs] at h
          exact ih h
      | some strm =>
          rw [hs] at h
          simp only at h
          split at h
          · exact ih h
          · obtain ⟨strms₁, hpush, h⟩ := bind_ok h
            exact (pushFrame_keeps hs hpush).trans (ih h)

theorem reclaimFrameOnRetry_keeps {frs : List (Nat × TxFrame)} (h : reclaimFrameOnRetry frs strms = .ok strms') :
    Keeps strms strms' := by
  induction frs generalizing strms with
  | nil =>
      cases h
      exact Keeps.refl _
  | cons p frs ih =>
      obtain ⟨j, fr⟩ := p
      rw [reclaimFrameOnRetry] at h
      cases hs : strms j with
      | none =>
          rw [hs] at h
          exact ih h
      | some strm =>
          rw [hs] at h
          obtain ⟨strms₁, hpush, h⟩ := bind_ok h
          exact (pushFrame_keeps hs hpush).trans (ih h)

/-- The queues come back from a Retry packet with all frames, so no two of them have the same offset. -/
theorem reclaimFrameOnRetry_distinct {frs : List (Nat × TxFrame)} (h : reclaimFrameOnRetry frs strms = .ok strms')
    (hs : strms sid = some strm) (hsort : QueueSorted strm.queue) :
    (strm.queue ++ framesOf sid frs).Pairwise fun a b => a.offset ≠ b.offset := by
  induction frs generalizing strms strm with
  | nil =>
      rw [framesOf, List.filterMap_nil, List.append_nil]
      exact hsort.imp fun hab => Nat.ne_of_lt hab
  | cons p frs ih =>
      obtain ⟨j, fr⟩ := p
      rw [reclaimFrameOnRetry] at h
      by_cases hj : j = sid
      · subst hj
        rw [hs] at h
        obtain ⟨strms₁, hpush, h⟩ := bind_ok h
        obtain ⟨queue, hq, hok⟩ := bind_ok hpush
        cases hok
        have hins := (streamfrqPush_ok hq).2
        have hrest := ih h (Function.update_self _ _ _) (kslInsert_sorted hsort hins)
        have hp : (queue ++ framesOf j frs).Perm (strm.queue ++ fr :: framesOf j frs) :=
          ((kslInsert_perm hins).append_right _).trans List.perm_middle.symm
        rw [framesOf_cons_self]
        exact (hp.pairwise_iff fun hab => hab.symm).mp hrest
      · rw [framesOf_cons_ne (Ne.symm hj)]
        cases hjs : strms j with
        | none =>
            rw [hjs] at h
            exact ih h hs hsort
        | some strm₁ =>
            rw [hjs] at h
            obtain ⟨strms₁, hpush, h⟩ := bind_ok h
            obtain ⟨queue, -, hok⟩ := bind_ok hpush
            cases hok
            exact ih h (by rw [Function.update_of_ne (Ne.symm hj)]; exact hs) hsort

/-- A step that comes back found no frame at the offset of the one that opens its stream. -/
theorem opensAlone_of_ok {s s' : State} {input : Input} (hinv : Inv s []) (h : step s input = .ok s') :
    OpensAlone s input := by
  cases input with
  | submit sid data fin =>
      intro strm hs hsub f hf _
      rw [step, Option.mem_def.mp hs] at h
      simp only [hsub, if_true] at h
      obtain ⟨queue, hq, -⟩ := bind_ok h
      have hins := (streamfrqPush_ok hq).2
      have hsort := kslInsert_sorted (hinv.streams sid strm hs).tidy.sorted hins
      have hne : (newFrame strm data fin :: strm.queue).Pairwise fun a b => a.offset ≠ b.offset :=
        ((kslInsert_perm hins).pairwise_iff fun hab => hab.symm).mp (hsort.imp fun hab => Nat.ne_of_lt hab)
      exact ((List.pairwise_cons.mp hne).1 f hf).symm
  | retry =>
      intro hinit hretry sid _ strm hs
      rw [step, hinit, hretry] at h
      simp only [Bool.or_self, Bool.false_eq_true, if_false] at h
      split at h
      · cases h
      · obtain ⟨strms, hrec, -⟩ := bind_ok h
        have hdist := reclaimFrameOnRetry_distinct hrec hs (hinv.streams sid strm hs).tidy.sorted
        exact hdist.imp fun hab heq => absurd heq hab
  | openStream _ _ | send _ _ | acked _ _ | lost _ | pto _ | expired _ | shutdownWrite _ | stopSending _ | close _ =>
      trivial

theorem step_ok_inv {s s' : State} {input : Input} (hinv : Inv s []) (h : step s input = .ok s') : Inv s' [] := by
  have hends := step_inv s input hinv (opensAlone_of_ok hinv h)
  rw [h] at hends
  exact hends

/-- The rounds over the queued streams change nothing but the queues, and write for streams that are
there. -/
structure Rounds (pkt pkt' : Pkt) : Prop where
  keeps : Keeps pkt.1.strms pkt'.1.strms
  present : ∀ j, (pkt'.1.strms j).isSome = (pkt.1.strms j).isSome
  rtb : pkt'.1.rtb = pkt.1.rtb
  opened : pkt'.1.opened = pkt.1.opened
  written : ∀ p ∈ pkt'.2, p ∈ pkt.2 ∨ (pkt.1.strms p.1).isSome = true

theorem Rounds.refl (pkt : Pkt) : Rounds pkt pkt :=
  ⟨Keeps.refl _, fun _ => rfl, rfl, rfl, fun _ => Or.inl⟩

theorem Rounds.trans {a b c : Pkt} (h : Rounds a b) (h' : Rounds b c) : Rounds a c := by
  refine ⟨h.keeps.trans h'.keeps, fun j => (h'.present j).trans (h.present j), h'.rtb.trans h.rtb, h'.opened.trans h.opened, ?_⟩
  intro p hp
  obtain hp | hp := h'.written p hp
  · exact h.written p hp
  · rw [h.present] at hp
    exact Or.inr hp

theorem rounds_set {pkt : Pkt} {j : Nat} {strm : TxStrm} (hs : pkt.1.strms j = some strm) (queue : List TxFrame)
    (frs : List TxFrame) : Rounds pkt (pkt.1.set j { strm with queue := queue }, pkt.2 ++ frs.map (j, ·)) := by
  refine ⟨keeps_set hs ⟨rfl, rfl, rfl, id⟩, fun x => ?_, rfl, rfl, fun p hp => ?_⟩
  · by_cases hx : x = j
    · subst hx
      simp only [State.set, Function.update_self, hs, Option.isSome_some]
    · simp only [State.set, Function.update_of_ne hx]
  · obtain hp | hp := List.mem_append.mp hp
    · exact Or.inl hp
    · obtain ⟨f, -, rfl⟩ := List.mem_map.mp hp
      exact Or.inr (by rw [hs, Option.isSome_some])

/-- A round leaves its stream as it is, or drops the queue, or takes a frame out of it. -/
theorem writeQueued_cases {pkt pkt' : Pkt} {j left : Nat} (h : writeQueued pkt j left = .ok pkt') :
    pkt' = pkt ∨ ∃ strm, pkt.1.strms j = some strm ∧ (pkt' = (pkt.1.set j { strm with queue := [] }, pkt.2) ∨
      ∃ res queue, strm.streamfrqPop left = .ok (res, queue) ∧
        pkt' = (pkt.1.set j { strm with queue := queue }, pkt.2 ++ res.toList.map (j, ·))) := by
  rw [writeQueued] at h
  cases hs : pkt.1.strms j with
  | none =>
      rw [hs] at h
      cases h
      exact Or.inl rfl
  | some strm =>
      rw [hs] at h
      simp only at h
      split at h
      · cases h
        exact Or.inl rfl
      · obtain ⟨off, -, h⟩ := bind_ok h
        refine Or.inr ⟨strm, rfl, ?_⟩
        cases off with
        | none =>
            cases h
            exact Or.inl rfl
        | some off =>
            obtain ⟨⟨res, queue⟩, hpop, h⟩ := bind_ok h
            cases h
            exact Or.inr ⟨res, queue, hpop, rfl⟩

theorem writeQueued_rounds {pkt pkt' : Pkt} {j left : Nat} (h : writeQueued pkt j left = .ok pkt') : Rounds pkt pkt' := by
  obtain rfl | ⟨strm, hs, rfl | ⟨res, queue, -, rfl⟩⟩ := writeQueued_cases h
  · exact Rounds.refl _
  · have hset := rounds_set hs [] []
    rwa [List.map_nil, List.append_nil] at hset
  · exact rounds_set hs queue res.toList

theorem writeRounds_rounds {rounds : List (Nat × Nat)} {pkt pkt' : Pkt} (h : writeRounds rounds pkt = .ok pkt') :
    Rounds pkt pkt' := by
  induction rounds generalizing pkt with
  | nil =>
      cases h
      exact Rounds.refl _
  | cons r rounds ih =>
      obtain ⟨j, left⟩ := r
      obtain ⟨pkt₁, hone, h⟩ := bind_ok h
      exact (writeQueued_rounds hone).trans (ih h)

/-- What a round writes was in a queue. -/
theorem writeQueued_content {S : List UInt8} {pkt pkt' : Pkt} {j left : Nat} (hinv : Inv pkt.1 pkt.2)
    (hq : StrmsFramed (OfStream S sid) pkt.1.strms) (hp : ∀ p ∈ pkt.2, OfStream S sid p.1 p.2)
    (h : writeQueued pkt j left = .ok pkt') :
    StrmsFramed (OfStream S sid) pkt'.1.strms ∧ ∀ p ∈ pkt'.2, OfStream S sid p.1 p.2 := by
  obtain rfl | ⟨strm, hs, rfl | ⟨res, queue, hpop, rfl⟩⟩ := writeQueued_cases h
  · exact ⟨hq, hp⟩
  · exact ⟨hq.set (by simp) (hq.sorted j strm hs), hp⟩
  · have hall : (∀ f ∈ res, OfStream S sid j f) ∧ ∀ f ∈ queue, OfStream S sid j f := by
      by_cases hj : j = sid
      · have hc : ∀ f ∈ strm.queue, Content S f := fun f hf => hq.queued j strm hs f hf hj
        obtain ⟨hres, hqueue⟩ := (hinv.streams j strm hs).pop_content hc hpop
        exact ⟨fun f hf _ => hres f hf, fun f hf _ => hqueue f hf⟩
      · exact ⟨fun f _ heq => absurd heq hj, fun f _ heq => absurd heq hj⟩
    refine ⟨hq.set hall.2 (hq.sorted j strm hs), fun p hpm => ?_⟩
    obtain hpm | hpm := List.mem_append.mp hpm
    · exact hp p hpm
    · obtain ⟨f, hf, rfl⟩ := List.mem_map.mp hpm
      exact hall.1 f (Option.mem_toList.mp hf)

theorem writeRounds_content {S : List UInt8} {rounds : List (Nat × Nat)} {pkt pkt' : Pkt} (hinv : Inv pkt.1 pkt.2)
    (hq : StrmsFramed (OfStream S sid) pkt.1.strms) (hp : ∀ p ∈ pkt.2, OfStream S sid p.1 p.2)
    (h : writeRounds rounds pkt = .ok pkt') :
    StrmsFramed (OfStream S sid) pkt'.1.strms ∧ ∀ p ∈ pkt'.2, OfStream S sid p.1 p.2 := by
  induction rounds generalizing pkt with
  | nil =>
      cases h
      exact ⟨hq, hp⟩
  | cons r rounds ih =>
      obtain ⟨j, left⟩ := r
      obtain ⟨pkt₁, hone, h⟩ := bind_ok h
      obtain ⟨hq₁, hp₁⟩ := writeQueued_content hinv hq hp hone
      have hends := hinv.writeQueued j left
      rw [hone] at hends
      exact ih hends.1 hq₁ hp₁ h

end Keeps

section Arrived

open Reorder (InSomePush)
open Rx (StreamFrame)

variable {S : List UInt8} {sid : Nat} {frames : List StreamFrame}

/-- All bytes of `S`, and FIN. -/
structure AllArrived (S : List UInt8) (frames : List StreamFrame) : Prop where
  bytes : ∀ x < S.length, InSomePush (frames.map StreamFrame.chunk) x
  fin : ∃ fr ∈ frames, fr.fin = true

/-- What counts as acknowledged is among the frames. -/
structure AckedArrived (S : List UInt8) (frames : List StreamFrame) (strm : TxStrm) : Prop where
  bytes : ∀ x < strm.offset, ¬strm.acked.Missing x → InSomePush (frames.map StreamFrame.chunk) x
  fin : strm.finAcked = true → strm.offset = S.length ∧ ∃ fr ∈ frames, fr.fin = true

/-- The frame as the peer reads it. -/
def Reads (fr : StreamFrame) (f : TxFrame) : Prop :=
  fr.offset = f.offset ∧ fr.data = f.bytes ∧ fr.fin = f.fin

instance (fr : StreamFrame) (f : TxFrame) : Decidable (Reads fr f) :=
  inferInstanceAs (Decidable (_ ∧ _))

theorem AckedArrived.kept {strm strm' : TxStrm} (h : AckedArrived S frames strm) (hk : Kept strm strm') :
    AckedArrived S frames strm' := by
  refine ⟨?_, ?_⟩
  · rw [hk.offset, hk.acked]
    exact h.bytes
  · rw [hk.offset, hk.finAcked]
    exact h.fin

theorem AckedArrived.mono {strm : TxStrm} (h : AckedArrived S frames strm) (fr : StreamFrame) :
    AckedArrived S (frames ++ [fr]) strm := by
  refine ⟨fun x hx hm => ?_, fun hfin => ?_⟩
  · rw [Rx.chunk_append, Reassembly.inSomePush_append]
    exact Or.inl (h.bytes x hx hm)
  · obtain ⟨hoff, fr', hfr', hf⟩ := h.fin hfin
    exact ⟨hoff, fr', List.mem_append_left _ hfr', hf⟩

/-- Once everything is acknowledged, everything is there. -/
theorem AckedArrived.all {strm : TxStrm} (h : AckedArrived S frames strm) (hwf : strm.acked.Wf strm.offset)
    (hall : allTxDataFinAcked strm = true) : AllArrived S frames := by
  rw [allTxDataFinAcked, Bool.and_eq_true, decide_eq_true_eq] at hall
  obtain ⟨hoff, hfin⟩ := h.fin hall.1
  refine ⟨fun x hx => h.bytes x (hoff ▸ hx) fun hm => ?_, hfin⟩
  have hle := hwf.ackedOffset_le hm
  omega

theorem AckedArrived.accept {strm : TxStrm} {held : List TxFrame} (h : AckedArrived S frames strm) (hok : StreamOk strm held)
    (hopen : strm.shutWr = false) {n : Nat} (hlt : strm.offset + n < uint64Max) (fin : Bool) :
    AckedArrived S frames (accept strm n fin) := by
  refine ⟨fun x hx hm => ?_, fun hfin => ?_⟩
  · have hx : x < strm.offset + n := hx
    by_cases hlow : x < strm.offset
    · exact h.bytes x hlow hm
    · exact absurd (hok.tidy.wf.missing x (Nat.not_lt.mp hlow) (by omega)) hm
  · have hshut := hok.finShut hfin
    rw [hopen] at hshut
    cases hshut

/-- The acknowledged frame is among the frames that arrived. -/
theorem AckedArrived.ack {strm : TxStrm} (h : AckedArrived S frames strm) (hwf : strm.acked.Wf strm.offset) {f : TxFrame}
    (hf : FrameOf strm f) (hc : Content S f) (hfr : ∃ fr ∈ frames, Reads fr f) : AckedArrived S frames (ackFrame strm f) := by
  obtain ⟨fr, hmem, hoff, hdata, hfin⟩ := hfr
  refine ⟨fun x hx hm => ?_, fun hfa => ?_⟩
  · by_cases hold : strm.acked.Missing x
    · have hin : f.offset ≤ x ∧ x < f.offset + f.datalen := by
        by_contra hnot
        exact hm ((Acked.missing_ackData hwf f.offset f.datalen x).mpr ⟨hold, hnot⟩)
      refine ⟨fr.chunk, List.mem_map_of_mem hmem, ?_⟩
      simp only [StreamFrame.chunk, hoff, hdata]
      exact hin
    · exact h.bytes x hx hold
  · obtain hfa | hfa := Bool.or_eq_true_iff.mp hfa
    · exact h.fin hfa
    · refine ⟨?_, fr, hmem, hfin.trans hfa⟩
      rw [← hc.fin hfa]
      exact (hf.fin hfa).1.symm

/-- The streams of which the frames are acknowledged. -/
structure Acking (S : List UInt8) (sid : Nat) (frames : List StreamFrame) (frs : List (Nat × TxFrame)) (strms : Strms) :
    Prop where
  wf : ∀ strm, strms sid = some strm → strm.acked.Wf strm.offset
  arrived : ∀ strm, strms sid = some strm → AckedArrived S frames strm
  fits : ∀ p ∈ frs, p.1 = sid → ∀ strm, strms sid = some strm → FrameOf strm p.2
  frames : ∀ p ∈ frs, p.1 = sid → Content S p.2 ∧ ∃ fr ∈ frames, Reads fr p.2

theorem Acking.other {p : Nat × TxFrame} {frs : List (Nat × TxFrame)} {strms strms' : Strms}
    (h : Acking S sid frames (p :: frs) strms) (hsame : strms' sid = strms sid) : Acking S sid frames frs strms' := by
  refine ⟨?_, ?_, ?_, fun q hq => h.frames q (List.mem_cons_of_mem p hq)⟩
  · rw [hsame]
    exact h.wf
  · rw [hsame]
    exact h.arrived
  · intro q hq
    rw [hsame]
    exact h.fits q (List.mem_cons_of_mem p hq)

theorem Acking.ack {f : TxFrame} {frs : List (Nat × TxFrame)} {strms : Strms} {strm : TxStrm}
    (h : Acking S sid frames ((sid, f) :: frs) strms) (hs : strms sid = some strm) :
    Acking S sid frames frs (Function.update strms sid (some (ackFrame strm f))) := by
  have hf := h.fits (sid, f) List.mem_cons_self rfl strm hs
  obtain ⟨hc, hfr⟩ := h.frames (sid, f) List.mem_cons_self rfl
  refine ⟨?_, ?_, ?_, fun q hq => h.frames q (List.mem_cons_of_mem _ hq)⟩
  · intro strm' hs'
    rw [Function.update_self, Option.some.injEq] at hs'
    subst hs'
    exact (h.wf strm hs).ackData hf.le
  · intro strm' hs'
    rw [Function.update_self, Option.some.injEq] at hs'
    subst hs'
    exact (h.arrived strm hs).ack (h.wf strm hs) hf hc hfr
  · intro q hq hqs strm' hs'
    rw [Function.update_self, Option.some.injEq] at hs'
    subst hs'
    have hg := h.fits q (List.mem_cons_of_mem _ hq) hqs strm hs
    exact ⟨hg.ok, hg.data, hg.le, hg.fin⟩

theorem Acking.close {p : Nat × TxFrame} {frs : List (Nat × TxFrame)} {strms : Strms} (h : Acking S sid frames (p :: frs) strms) :
    Acking S sid frames frs (Function.update strms sid none) := by
  refine ⟨?_, ?_, ?_, fun q hq => h.frames q (List.mem_cons_of_mem p hq)⟩
  · intro strm hs
    rw [Function.update_self] at hs
    cases hs
  · intro strm hs
    rw [Function.update_self] at hs
    cases hs
  · intro q _ _ strm hs
    rw [Function.update_self] at hs
    cases hs

/-- After the acknowledgement of a packet whose frames arrived what counts as acknowledged arrived; and
a stream that is closed by it without a reset arrived as a whole. -/
theorem processAckedPkt_arrived {rxDone : List Nat} {frs : List (Nat × TxFrame)} {strms strms' : Strms}
    (h : Acking S sid frames frs strms) (hrun : processAckedPkt rxDone frs strms = .ok strms') :
    (∀ strm', strms' sid = some strm' → AckedArrived S frames strm') ∧
      ∀ strm, strms sid = some strm → strm.resetStream = false → strms' sid = none → AllArrived S frames := by
  induction frs generalizing strms with
  | nil =>
      cases hrun
      refine ⟨h.arrived, fun strm hs _ hnone => ?_⟩
      rw [hs] at hnone
      cases hnone
  | cons p frs ih =>
      obtain ⟨j, f⟩ := p
      rw [processAckedPkt] at hrun
      cases hs : strms j with
      | none =>
          rw [hs] at hrun
          exact ih (h.other rfl) hrun
      | some strm =>
          rw [hs] at hrun
          simp only at hrun
          split at hrun
          · cases hrun
          · by_cases hj : j = sid
            · subst hj
              have hack := h.ack hs
              split at hrun
              · rename_i hclose
                refine ⟨(ih h.close hrun).1, fun strm₁ hs₁ hreset _ => ?_⟩
                rw [hs] at hs₁
                cases hs₁
                have hself : Function.update strms j (some (ackFrame strm f)) j = some (ackFrame strm f) := Function.update_self _ _ _
                refine (hack.arrived _ hself).all (hack.wf _ hself) ?_
                obtain hreset' | hall := Bool.or_eq_true_iff.mp hclose.2.2
                · have hreset' : strm.resetStream = true := hreset'
                  rw [hreset] at hreset'
                  cases hreset'
                · exact hall
              · obtain ⟨harr, hclosed⟩ := ih hack hrun
                refine ⟨harr, fun strm₁ hs₁ hreset hnone => ?_⟩
                rw [hs] at hs₁
                cases hs₁
                exact hclosed _ (Function.update_self _ _ _) hreset hnone
            · have hsame : ∀ strm₁, Function.update strms j strm₁ sid = strms sid := fun strm₁ => Function.update_of_ne (Ne.symm hj) _ _
              split at hrun
              · have hih := ih (h.other (hsame none)) hrun
                rw [hsame] at hih
                exact hih
              · have hih := ih (h.other (hsame _)) hrun
                rw [hsame] at hih
                exact hih

/-- The next part of `S`, with FIN if it is the last one. -/
def Next (S : List UInt8) (strm : TxStrm) (data : List UInt8) (fin : Bool) : Prop :=
  strm.shutWr = false →
    data = (S.drop strm.offset).take data.length ∧ strm.offset + data.length ≤ S.length ∧
      (fin = true → strm.offset + data.length = S.length)

instance (S : List UInt8) (strm : TxStrm) (data : List UInt8) (fin : Bool) : Decidable (Next S strm data fin) :=
  inferInstanceAs (Decidable (_ → _))

/-- The application opens the stream for writing, and hands over `S` part by part. -/
def Handed (S : List UInt8) (sid : Nat) (s : State) : Input → Prop
  | .openStream j writable => j = sid → writable = true
  | .submit j data fin => j = sid → ∀ strm ∈ s.strms sid, Next S strm data fin
  | .send _ (some (j, data, fin)) => j = sid → ∀ strm ∈ s.strms sid, Next S strm data fin
  | _ => True

instance decidableHanded (S : List UInt8) (sid : Nat) (s : State) : (input : Input) → Decidable (Handed S sid s input)
  | .openStream j writable => inferInstanceAs (Decidable (j = sid → writable = true))
  | .submit j data fin => inferInstanceAs (Decidable (j = sid → ∀ strm ∈ s.strms sid, Next S strm data fin))
  | .send _ (some (j, data, fin)) => inferInstanceAs (Decidable (j = sid → ∀ strm ∈ s.strms sid, Next S strm data fin))
  | .send _ none | .acked _ _ | .lost _ | .pto _ | .expired _ | .retry | .shutdownWrite _ | .stopSending _ | .close _ =>
      .isTrue trivial

theorem Next.slice {strm : TxStrm} {data : List UInt8} {fin : Bool} (h : Next S strm data fin) (hopen : strm.shutWr = false) :
    Slice S strm.offset data ∧ (fin = true → strm.offset + data.length = S.length) := by
  obtain ⟨hdata, hle, hfin⟩ := h hopen
  refine ⟨⟨S.take strm.offset, (S.drop strm.offset).drop data.length, ?_, ?_⟩, hfin⟩
  · rw [List.append_assoc]
    conv_rhs => rw [hdata, List.length_take_of_le (by rw [List.length_drop]; omega), List.take_append_drop]
    rw [List.take_append_drop]
  · rw [List.length_take]
    omega

/-- The sender of the stream, with what has arrived at the peer. -/
structure Sending (S : List UInt8) (sid : Nat) (frames : List StreamFrame) (s : State) : Prop where
  inv : Inv s []
  framed : Framed (OfStream S sid) s
  arrived : ∀ strm, s.strms sid = some strm → AckedArrived S frames strm

variable {s s' : State}

theorem Sending.keep (h : Sending S sid frames s) (hinv : Inv s' []) (hframed : Framed (OfStream S sid) s')
    (hk : Keeps s.strms s'.strms) : Sending S sid frames s' := by
  refine ⟨hinv, hframed, fun strm' hs' => ?_⟩
  obtain ⟨strm, hs, hkept⟩ := hk sid strm' hs'
  exact (h.arrived strm hs).kept hkept

/-- The steps that leave the streams as they are, but for their queues and for a stream that is shut. -/
theorem step_keeps {input : Input} (hp : input.passive = true) (hack : ∀ i rxDone, input ≠ .acked i rxDone)
    (hrun : step s input = .ok s') : Keeps s.strms s'.strms := by
  cases input with
  | openStream _ _ | send _ _ | submit _ _ _ => cases hp
  | acked i rxDone => exact absurd rfl (hack i rxDone)
  | lost i =>
      rw [step] at hrun
      split at hrun
      · cases hrun
        exact Keeps.refl _
      · split at hrun
        · cases hrun
          exact Keeps.refl _
        · obtain ⟨strms, hrec, hrun⟩ := bind_ok hrun
          cases hrun
          split at hrec
          · cases hrec
            exact Keeps.refl _
          · exact reclaimFrame_keeps hrec
  | pto i =>
      rw [step] at hrun
      split at hrun
      · cases hrun
        exact Keeps.refl _
      · split at hrun
        · obtain ⟨strms, hrec, hrun⟩ := bind_ok hrun
          cases hrun
          exact reclaimFrame_keeps hrec
        · cases hrun
          exact Keeps.refl _
  | expired i =>
      rw [step] at hrun
      split at hrun
      · cases hrun
        exact Keeps.refl _
      · cases hrun
        split
        · exact Keeps.refl _
        · exact Keeps.refl _
  | retry =>
      rw [step] at hrun
      split at hrun
      · cases hrun
        exact Keeps.refl _
      · split at hrun
        · cases hrun
        · obtain ⟨strms, hrec, hrun⟩ := bind_ok hrun
          cases hrun
          exact reclaimFrameOnRetry_keeps hrec
  | shutdownWrite j =>
      rw [step] at hrun
      split at hrun
      · cases hrun
        exact Keeps.refl _
      · rename_i strm hs
        cases hrun
        apply keeps_set hs
        rw [shutdownStreamWrite]
        split
        · exact Kept.refl strm
        · exact ⟨rfl, rfl, rfl, fun hfalse => by cases hfalse⟩
  | stopSending j =>
      rw [step] at hrun
      split at hrun
      · cases hrun
        exact Keeps.refl _
      · rename_i strm hs
        cases hrun
        exact keeps_set hs ⟨rfl, rfl, rfl, fun hfalse => by cases hfalse⟩
  | close j =>
      cases hrun
      exact keeps_close _ _

/-- Data is accepted for a stream, and goes into a queue or into a packet. -/
theorem Sending.accept {strms : Strms} {j : Nat} {strm : TxStrm} {data : List UInt8} {fin : Bool}
    (harr : ∀ strm, strms sid = some strm → AckedArrived S frames strm) {held : List TxFrame} (hok : StreamOk strm held)
    (hs : strms j = some strm) (hopen : strm.shutWr = false) (hle : strm.offset + data.length ≤ maxVarint)
    {queue : List TxFrame} : ∀ strm', Function.update strms j (some { StreamTx.accept strm data.length fin with queue := queue }) sid = some strm' →
      AckedArrived S frames strm' := by
  intro strm' hs'
  by_cases hj : sid = j
  · subst hj
    rw [Function.update_self, Option.some.injEq] at hs'
    subst hs'
    have hlt := maxVarint_lt
    have hacc := (harr strm hs).accept hok hopen (show strm.offset + data.length < uint64Max by rw [uint64Max]; omega) fin
    exact ⟨hacc.bytes, hacc.fin⟩
  · rw [Function.update_of_ne hj] at hs'
    exact harr strm' hs'

/-- The STREAM frames of the packet that a step writes. -/
def packetOf (s : State) : Input → List (Nat × TxFrame)
  | .send rounds new =>
      match writeRounds rounds (s, []) with
      | .ok pkt => (writeNew pkt new).2
      | .error _ => []
  | _ => []

/-- The acknowledgement closes the stream, which has not been reset. -/
def closes (sid : Nat) (s s' : State) : Input → Bool
  | .acked _ _ => (s.strms sid).any (fun strm => !strm.resetStream) && (s'.strms sid).isNone
  | _ => false

/-- What a step of the sender leads to. -/
structure Sent (S : List UInt8) (sid : Nat) (frames : List StreamFrame) (s : State) (input : Input) (s' : State) : Prop where
  sending : Sending S sid frames s'
  packet : ∀ p ∈ packetOf s input, OfStream S sid p.1 p.2
  closed : closes sid s s' input = true → AllArrived S frames

theorem Sending.openStream (h : Sending S sid frames s) {j : Nat} {writable : Bool}
    (hand : Handed S sid s (.openStream j writable)) (hrun : step s (.openStream j writable) = .ok s') :
    Sending S sid frames s' := by
  have hinv := step_ok_inv h.inv hrun
  rw [step] at hrun
  split at hrun
  · cases hrun
    exact h
  · cases hrun
    refine ⟨hinv, ⟨h.framed.strms.set (by simp [TxStrm.new]) (by simp [TxStrm.new, Acked.new]), h.framed.sent⟩, fun strm hs => ?_⟩
    by_cases hj : sid = j
    · subst hj
      have hs : Function.update s.strms sid _ sid = some strm := hs
      rw [Function.update_self, Option.some.injEq] at hs
      subst hs
      rw [hand rfl]
      exact ⟨fun x hx => absurd hx (Nat.not_lt_zero x), fun hfin => by cases hfin⟩
    · have hs : Function.update s.strms j _ sid = some strm := hs
      rw [Function.update_of_ne hj] at hs
      exact h.arrived strm hs

theorem Sending.submit (h : Sending S sid frames s) {j : Nat} {data : List UInt8} {fin : Bool}
    (hand : Handed S sid s (.submit j data fin)) (hrun : step s (.submit j data fin) = .ok s') : Sending S sid frames s' := by
  have hinv := step_ok_inv h.inv hrun
  rw [step] at hrun
  split at hrun
  · cases hrun
    exact h
  · rename_i strm hs
    split at hrun
    · rename_i hsub
      obtain ⟨queue, hpush, hrun⟩ := bind_ok hrun
      cases hrun
      simp only [submits, Bool.and_eq_true, Bool.not_eq_true', decide_eq_true_eq] at hsub
      obtain ⟨⟨hopen, -⟩, hle⟩ := hsub
      refine ⟨hinv, ⟨?_, h.framed.sent⟩, Sending.accept h.arrived (h.inv.streams j strm hs) hs hopen hle⟩
      apply h.framed.strms.set
      · apply h.framed.strms.push hs _ hpush
        rintro rfl
        obtain ⟨hslice, hfin⟩ := (hand rfl strm hs).slice hopen
        exact newFrame_content hslice hfin hle
      · exact h.framed.strms.sorted j strm hs
    · cases hrun
      exact h

theorem Sending.send (h : Sending S sid frames s) {rounds : List (Nat × Nat)} {new : Option (Nat × List UInt8 × Bool)}
    (hand : Handed S sid s (.send rounds new)) (hrun : step s (.send rounds new) = .ok s') :
    Sending S sid frames s' ∧ ∀ p ∈ packetOf s (.send rounds new), OfStream S sid p.1 p.2 := by
  have hinv := step_ok_inv h.inv hrun
  obtain ⟨pkt, hrounds, hok⟩ := bind_ok hrun
  cases hok
  obtain ⟨hframed, hp⟩ := writeRounds_content h.inv h.framed.strms (by simp) hrounds
  have hk := (writeRounds_rounds hrounds).keeps
  have hends := @Inv.writeRounds rounds (s, []) h.inv
  rw [hrounds] at hends
  have hsent : ∀ e ∈ pkt.1.rtb, ∀ p ∈ e.frames, OfStream S sid p.1 p.2 := by
    rw [(writeRounds_rounds hrounds).rtb]
    exact h.framed.sent
  have harr : ∀ strm, pkt.1.strms sid = some strm → AckedArrived S frames strm := by
    intro strm' hs'
    obtain ⟨strm, hs, hkept⟩ := hk sid strm' hs'
    exact (h.arrived strm hs).kept hkept
  have hpacket : packetOf s (.send rounds new) = (writeNew pkt new).2 := by
    rw [packetOf, hrounds]
  rw [hpacket]
  -- the packet with the new data
  have hnew : Framed (OfStream S sid) (writeNew pkt new).1 ∧ (∀ p ∈ (writeNew pkt new).2, OfStream S sid p.1 p.2) ∧
      ∀ strm, (writeNew pkt new).1.strms sid = some strm → AckedArrived S frames strm := by
    cases new with
    | none => exact ⟨⟨hframed, hsent⟩, hp, harr⟩
    | some new =>
        obtain ⟨j, data, fin⟩ := new
        rw [writeNew]
        cases hs : pkt.1.strms j with
        | none => exact ⟨⟨hframed, hsent⟩, hp, harr⟩
        | some strm =>
            simp only
            split
            · rename_i hwrites
              simp only [writes, Bool.and_eq_true, Bool.not_eq_true', decide_eq_true_eq] at hwrites
              obtain ⟨⟨⟨hopen, -⟩, hle⟩, -⟩ := hwrites
              refine ⟨⟨hframed.set (hframed.queued j strm hs) (hframed.sorted j strm hs), hsent⟩, fun p hpm => ?_, ?_⟩
              · obtain hpm | hpm := List.mem_append.mp hpm
                · exact hp p hpm
                · rw [List.mem_singleton] at hpm
                  subst hpm
                  rintro rfl
                  obtain ⟨strm₀, hs₀, hkept⟩ := hk j strm hs
                  obtain ⟨hslice, hfin⟩ := (hand rfl strm₀ hs₀).slice (hkept.shutWr hopen)
                  rw [← hkept.offset] at hslice hfin
                  exact newFrame_content hslice hfin hle
              · exact Sending.accept harr (hends.streams j strm hs) hs hopen hle
            · exact ⟨⟨hframed, hsent⟩, hp, harr⟩
  obtain ⟨hf, hpkt, ha⟩ := hnew
  refine ⟨⟨hinv, hf.finishPkt hpkt, ?_⟩, hpkt⟩
  rw [(finishPkt_strms _).1]
  exact ha

theorem Sending.acked (h : Sending S sid frames s) {i : Nat} {rxDone : List Nat}
    (hack : ∀ e ∈ s.rtb[i]?, ∀ p ∈ e.frames, p.1 = sid → ∃ fr ∈ frames, Reads fr p.2)
    (hrun : step s (.acked i rxDone) = .ok s') :
    Sending S sid frames s' ∧ (closes sid s s' (.acked i rxDone) = true → AllArrived S frames) := by
  have hinv := step_ok_inv h.inv hrun
  have hpassed := h.framed.step_passive rfl hrun
  rw [step] at hrun
  split at hrun
  · cases hrun
    refine ⟨h, fun hc => ?_⟩
    simp only [closes, Bool.and_eq_true] at hc
    cases hs : s.strms sid with
    | none =>
        rw [hs] at hc
        cases hc.1
    | some strm =>
        rw [hs] at hc
        cases hc.2
  · rename_i e he
    obtain ⟨strms, hproc, hok⟩ := bind_ok hrun
    have hmem := List.mem_of_getElem? he
    have hacking : Acking S sid frames e.frames s.strms := by
      refine ⟨fun strm hs => (h.inv.streams sid strm hs).tidy.wf, h.arrived, fun p hp hps strm hs => ?_, fun p hp hps => ?_⟩
      · exact (h.inv.sent e hmem p hp).2 strm (hps ▸ hs)
      · exact ⟨h.framed.sent e hmem p hp hps, hack e he p hp hps⟩
    obtain ⟨harr, hclosed⟩ := processAckedPkt_arrived hacking hproc
    cases hok
    refine ⟨⟨hinv, ⟨hpassed.carries.framed, hpassed.sent⟩, harr⟩, fun hc => ?_⟩
    simp only [closes, Bool.and_eq_true] at hc
    cases hs : s.strms sid with
    | none =>
        rw [hs] at hc
        cases hc.1
    | some strm =>
        rw [hs, Option.any_some, Bool.not_eq_true'] at hc
        exact hclosed strm hs hc.1 (Option.isNone_iff_eq_none.mp hc.2)

theorem Sending.step (h : Sending S sid frames s) {input : Input} (hand : Handed S sid s input)
    (hack : ∀ i rxDone, input = .acked i rxDone → ∀ e ∈ s.rtb[i]?, ∀ p ∈ e.frames, p.1 = sid → ∃ fr ∈ frames, Reads fr p.2)
    (hrun : StreamTx.step s input = .ok s') : Sent S sid frames s input s' := by
  have hkeep : input.passive = true → (∀ i rxDone, input ≠ .acked i rxDone) → Sending S sid frames s' := by
    intro hp hne
    have hpassed := h.framed.step_passive hp hrun
    exact h.keep (step_ok_inv h.inv hrun) ⟨hpassed.carries.framed, hpassed.sent⟩ (step_keeps hp hne hrun)
  cases input with
  | openStream j writable => exact ⟨h.openStream hand hrun, by simp [packetOf], by simp [closes]⟩
  | submit j data fin => exact ⟨h.submit hand hrun, by simp [packetOf], by simp [closes]⟩
  | send rounds new =>
      obtain ⟨hs, hp⟩ := h.send hand hrun
      exact ⟨hs, hp, by simp [closes]⟩
  | acked i rxDone =>
      obtain ⟨hs, hc⟩ := h.acked (hack i rxDone rfl) hrun
      exact ⟨hs, by simp [packetOf], hc⟩
  | lost _ | pto _ | expired _ | retry | shutdownWrite _ | stopSending _ | close _ =>
      exact ⟨hkeep rfl (by simp), by simp [packetOf], by simp [closes]⟩

end Arrived

end Zngtcp2.StreamTx
