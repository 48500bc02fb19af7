import Zngtcp2.Tx.CryptoWire

namespace Zngtcp2.CryptoTx

open Strm TxStrm Lib.Segment Lib.Run Gaptr

def State.bytes (s : State) : List UInt8 :=
  allSubmitted s.submitted

/-- Every frame that is queued, in the packet under construction or in flight holds submitted
bytes; no more is acknowledged than was submitted. -/
structure Inv (s : State) : Prop where
  wf : s.strm.acked.Wf s.bytes.length
  offset : s.offset = s.bytes.length
  queue : ∀ g ∈ s.strm.queue, Good s.bytes g
  pending : ∀ g ∈ s.pending, Good s.bytes g
  rtb : ∀ e ∈ s.rtb, ∀ g ∈ e.frames, Good s.bytes g

theorem new_inv (pcg : Crumble.Pcg32) : Inv (State.new pcg) :=
  ⟨Acked.new_wf (show ([] : List UInt8).length < uint64Max by decide), rfl, by simp [State.new, TxStrm.new], by simp [State.new], by simp [State.new]⟩

/-- The offsets are 64-bit. -/
def Fits (s : State) : Input → Prop
  | .submit sub _ => s.offset + sub.data.length < uint64Max
  | _ => True

instance (s : State) (i : Input) : Decidable (Fits s i) := by
  cases i <;> unfold Fits <;> infer_instance

theorem bytes_submit (subs : List Submission) (sub : Submission) :
    allSubmitted (subs ++ [sub]) = allSubmitted subs ++ sub.data := by
  simp [allSubmitted]

def submittedFrame (s : State) (sub : Submission) (datap : Nat) : TxFrame :=
  if sub.retained then ⟨s.offset, false, [], some sub.data⟩ else ⟨s.offset, false, [⟨datap, sub.data⟩], none⟩

/-- What a submission of at least one byte changes. -/
structure Submitted (s : State) (sub : Submission) (addr : Nat) (s' : State) : Prop where
  ne_nil : sub.data ≠ []
  submitted : s'.submitted = s.submitted ++ [sub]
  offset : s'.offset = s.offset + sub.data.length
  queue : ∃ datap, streamfrqPush s.strm.queue (submittedFrame s sub datap) = .ok s'.strm.queue
  acked : s'.strm.acked = s.strm.acked
  data : s'.data = if sub.retained then s.data else (bufferCryptoData addr (cells s.offset sub.data) s.data).2
  rtb : s'.rtb = s.rtb
  pending : s'.pending = s.pending
  wire : s'.wire = s.wire

theorem submit_cases {s s' : State} {sub : Submission} {addr : Nat} (h : submitCryptoData s sub addr = .ok s') :
    s' = s ∨ Submitted s sub addr s' := by
  rw [submitCryptoData] at h
  split at h
  · cases h
    exact Or.inl rfl
  · rename_i hne
    simp only at h
    obtain ⟨queue, hpush, h⟩ := bind_ok h
    cases h
    refine Or.inr ⟨hne, rfl, rfl, ⟨_, hpush⟩, rfl, ?_, rfl, rfl, rfl⟩
    simp only
    split <;> rfl

theorem Submitted.bytes {s s' : State} {sub : Submission} {addr : Nat} (h : Submitted s sub addr s') :
    s'.bytes = s.bytes ++ sub.data := by
  rw [State.bytes, h.submitted, bytes_submit, State.bytes]

theorem submittedFrame_good {s : State} (h : s.offset = s.bytes.length) {sub : Submission} (hne : sub.data ≠ [])
    (datap : Nat) : Good (s.bytes ++ sub.data) (submittedFrame s sub datap) := by
  have hpos : 0 < sub.data.length := List.length_pos_iff.mpr hne
  have hslice : Slice (s.bytes ++ sub.data) s.offset sub.data := by
    rw [h]
    exact slice_end _ _
  rw [submittedFrame]
  split
  · exact good_retained rfl rfl rfl hpos hslice
  · refine good_copied rfl rfl ⟨by simp, by simp [maxStreamDatacnt], ?_⟩ (by simpa using hslice)
    intro v hv
    rw [List.mem_singleton.mp hv]
    exact hpos

theorem Submitted.inv {s s' : State} {sub : Submission} {addr : Nat} (h : Submitted s sub addr s') (hinv : Inv s)
    (hfits : s.offset + sub.data.length < uint64Max) : Inv s' := by
  have hlen : (s.bytes ++ sub.data).length = s.offset + sub.data.length := by rw [List.length_append, hinv.offset]
  obtain ⟨datap, hpush⟩ := h.queue
  constructor
  · rw [h.bytes, hlen, h.acked]
    exact hinv.wf.mono (by rw [hinv.offset]; exact Nat.le_add_right _ _) hfits
  · rw [h.bytes, hlen, h.offset]
  · rw [h.bytes]
    exact streamfrqPush_good (submittedFrame_good hinv.offset h.ne_nil datap)
      (fun g hg => (hinv.queue g hg).extend _) hpush
  · rw [h.bytes, h.pending]
    exact fun g hg => (hinv.pending g hg).extend _
  · rw [h.bytes, h.rtb]
    exact fun e he g hg => (hinv.rtb e he g hg).extend _

/-- The copy that is queued again is the frame itself. -/
theorem Good.copy_eq {S : List UInt8} {fr : TxFrame} (h : Good S fr) :
    { fr with fin := false, data := if fr.txbuf.isSome then [] else fr.data } = fr := by
  obtain ⟨offset, fin, data, txbuf⟩ := fr
  have hfin : fin = false := h.fin
  cases txbuf with
  | none => simp [hfin]
  | some b =>
      have hdata : data = [] := (h.ok.retained b rfl).2
      simp [hfin, hdata]

theorem reclaimFrame_good {S : List UInt8} {acked : Acked} {frs queue queue' : List TxFrame} {n : Nat}
    (hfrs : ∀ g ∈ frs, Good S g) (hq : ∀ g ∈ queue, Good S g) (h : reclaimFrame acked frs queue = .ok (n, queue')) :
    ∀ g ∈ queue', Good S g := by
  induction frs generalizing queue n with
  | nil =>
      cases h
      exact hq
  | cons fr frs ih =>
      have hfr := hfrs fr List.mem_cons_self
      have hrest : ∀ g ∈ frs, Good S g := fun g hg => hfrs g (List.mem_cons_of_mem fr hg)
      rw [reclaimFrame] at h
      split at h
      · cases h
      · split at h
        · rw [hfr.copy_eq] at h
          obtain ⟨queue₁, hpush, h⟩ := bind_ok h
          obtain ⟨⟨m, queue₂⟩, hrec, h⟩ := bind_ok h
          cases h
          exact ih hrest (streamfrqPush_good hfr hq hpush) hrec
        · exact ih hrest hq h

theorem reclaimOnPto_good {S : List UInt8} {acked : Acked} {n : Nat} {ents ents' : List Entry} {queue queue' : List TxFrame}
    (hents : ∀ e ∈ ents, ∀ g ∈ e.frames, Good S g) (hq : ∀ g ∈ queue, Good S g)
    (h : reclaimOnPto acked n ents queue = .ok (ents', queue')) :
    (∀ g ∈ queue', Good S g) ∧ ents'.map Entry.frames = ents.map Entry.frames := by
  induction ents generalizing n queue ents' with
  | nil =>
      cases n with
      | zero =>
          cases h
          exact ⟨hq, rfl⟩
      | succ n =>
          cases h
          exact ⟨hq, rfl⟩
  | cons e es ih =>
      have hes : ∀ e ∈ es, ∀ g ∈ e.frames, Good S g := fun e' he' => hents e' (List.mem_cons_of_mem e he')
      cases n with
      | zero =>
          cases h
          exact ⟨hq, rfl⟩
      | succ n =>
          rw [reclaimOnPto] at h
          split at h
          · obtain ⟨⟨es', queue₁⟩, hrec, h⟩ := bind_ok h
            cases h
            obtain ⟨hq', hmap⟩ := ih hes hq hrec
            exact ⟨hq', by rw [List.map_cons, List.map_cons, hmap]⟩
          · obtain ⟨⟨m, queue₁⟩, hframe, h⟩ := bind_ok h
            obtain ⟨⟨es', queue₂⟩, hrec, h⟩ := bind_ok h
            cases h
            obtain ⟨hq', hmap⟩ := ih hes (reclaimFrame_good (hents e List.mem_cons_self) hq hframe) hrec
            exact ⟨hq', by rw [List.map_cons, List.map_cons, hmap]⟩

theorem mem_of_map_frames {ents ents' : List Entry} (h : ents'.map Entry.frames = ents.map Entry.frames) {e : Entry}
    (he : e ∈ ents') : ∃ e₀ ∈ ents, e₀.frames = e.frames := by
  have : e.frames ∈ ents'.map Entry.frames := List.mem_map_of_mem he
  rw [h] at this
  simpa using this

theorem onPktLost_good {S : List UInt8} {acked : Acked} {ent ent' : Entry} {queue queue' : List TxFrame}
    (hent : ∀ g ∈ ent.frames, Good S g) (hq : ∀ g ∈ queue, Good S g)
    (h : onPktLost acked ent queue = .ok (ent', queue')) : (∀ g ∈ queue', Good S g) ∧ ent'.frames = ent.frames := by
  rw [onPktLost] at h
  split at h
  · cases h
  · split at h
    · cases h
      exact ⟨hq, rfl⟩
    · obtain ⟨⟨n, queue₁⟩, hrec, h⟩ := bind_ok h
      cases h
      exact ⟨reclaimFrame_good hent hq hrec, rfl⟩

/-- Acknowledging the frames of an entry acknowledges the offsets of their ranges. -/
theorem processAckedPkt_acked {bound : Nat} {frs : List TxFrame} {acked acked' : Acked} {chain chain' : List BufChain}
    (hwf : acked.Wf bound) (hle : ∀ fr ∈ frs, fr.endOff ≤ bound)
    (h : processAckedPkt frs acked chain = .ok (acked', chain')) :
    acked'.Wf bound ∧
      ∀ x, acked'.Missing x ↔ acked.Missing x ∧ ∀ fr ∈ frs, ¬(fr.offset ≤ x ∧ x < fr.endOff) := by
  induction frs generalizing acked chain with
  | nil =>
      cases h
      exact ⟨hwf, by simp⟩
  | cons fr frs ih =>
      have hfr := hle fr List.mem_cons_self
      have hwf₁ := hwf.ackData hfr
      have hmiss := Acked.missing_ackData hwf fr.offset fr.datalen
      have hdone : ∀ chain₁, processAckedPkt frs (acked.ackData fr.offset fr.datalen).2 chain₁ = .ok (acked', chain') →
          acked'.Wf bound ∧
            ∀ x, acked'.Missing x ↔ acked.Missing x ∧ ∀ g ∈ fr :: frs, ¬(g.offset ≤ x ∧ x < g.endOff) := by
        intro chain₁ hrest
        obtain ⟨hwf', hmiss'⟩ := ih hwf₁ (fun g hg => hle g (List.mem_cons_of_mem fr hg)) hrest
        refine ⟨hwf', fun x => ?_⟩
        rw [hmiss', hmiss, List.forall_mem_cons, and_assoc]
        rfl
      rw [processAckedPkt] at h
      generalize acked.ackData fr.offset fr.datalen = r at h hdone
      obtain ⟨rv, acked₁⟩ := r
      split at h
      · rename_i _ a heq
        cases heq
        simp only at h hdone
        split at h
        · exact hdone _ h
        · split at h
          · cases h
          · exact hdone _ h
      · cases h

theorem halting_ok {α : Type} {x : Except Stop α} {a : α} (h : halting x = .ok a) : x = .ok a := by
  cases x with
  | ok b =>
      cases h
      rfl
  | error e => cases h

theorem step_inv {s s' : State} {i : Input} (hinv : Inv s) (hfits : Fits s i) (h : step s i = .ok s') : Inv s' := by
  cases i with
  | submit sub addr =>
      rcases submit_cases (halting_ok h) with rfl | hsub
      · exact hinv
      · exact hsub.inv hinv hfits
  | round crumble left =>
      obtain ⟨r, hr, h⟩ := bind_ok (halting_ok h)
      cases h
      obtain ⟨hgood, _⟩ := cryptoRound_good hinv.wf hinv.queue hr
      refine ⟨hinv.wf, hinv.offset, hgood.queue, ?_, hinv.rtb⟩
      intro g hg
      rcases List.mem_append.mp hg with hg | hg
      · exact hinv.pending g hg
      · cases hw : r.written with
        | none => simp [hw] at hg
        | some w =>
            rw [hw] at hg
            exact hgood.recorded w hw g (by simpa using hg)
  | finish =>
      cases h
      rw [State.finish]
      split
      · exact hinv
      · refine ⟨hinv.wf, hinv.offset, hinv.queue, by simp, ?_⟩
        intro e he
        rcases List.mem_append.mp he with he | he
        · exact hinv.rtb e he
        · rw [List.mem_singleton.mp he]
          exact hinv.pending
  | lost i =>
      have h := halting_ok h
      rw [State.lost] at h
      split at h
      · cases h
        exact hinv
      · rename_i ent hent
        obtain ⟨⟨ent', queue⟩, hlost, h⟩ := bind_ok h
        cases h
        have hframes := hinv.rtb ent (List.mem_of_getElem? hent)
        obtain ⟨hq, heq⟩ := onPktLost_good hframes hinv.queue hlost
        refine ⟨hinv.wf, hinv.offset, hq, hinv.pending, ?_⟩
        intro e he
        rcases List.mem_or_eq_of_mem_set he with he | rfl
        · exact hinv.rtb e he
        · rw [heq]
          exact hframes
  | pto n =>
      obtain ⟨⟨rtb, queue⟩, hpto, h⟩ := bind_ok (halting_ok h)
      cases h
      obtain ⟨hq, hmap⟩ := reclaimOnPto_good hinv.rtb hinv.queue hpto
      refine ⟨hinv.wf, hinv.offset, hq, hinv.pending, ?_⟩
      intro e he
      obtain ⟨e₀, he₀, hframes⟩ := mem_of_map_frames hmap he
      rw [← hframes]
      exact hinv.rtb e₀ he₀
  | acked i =>
      rw [step, State.acked] at h
      split at h
      · cases h
        exact hinv
      · rename_i ent hent
        obtain ⟨⟨acked, chain⟩, hack, h⟩ := bind_ok h
        cases h
        have hframes := hinv.rtb ent (List.mem_of_getElem? hent)
        obtain ⟨hwf, _⟩ := processAckedPkt_acked hinv.wf (fun fr hfr => (hframes fr hfr).le) hack
        exact ⟨hwf, hinv.offset, hinv.queue, hinv.pending, fun e he => hinv.rtb e (List.mem_of_mem_eraseIdx he)⟩
  | expired i =>
      cases h
      rw [State.expired]
      split
      · exact hinv
      · split
        · exact ⟨hinv.wf, hinv.offset, hinv.queue, hinv.pending, fun e he => hinv.rtb e (List.mem_of_mem_eraseIdx he)⟩
        · exact hinv

end Zngtcp2.CryptoTx
