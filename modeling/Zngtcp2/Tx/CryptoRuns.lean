import Zngtcp2.Tx.CryptoSteps

namespace Zngtcp2.CryptoTx

open Strm TxStrm Lib.Segment Lib.Run

def wireCells (wire : List Written) : List Cell :=
  wire.flatMap fun w => sentCells w.sent

theorem wireCells_append (ws vs : List Written) : wireCells (ws ++ vs) = wireCells ws ++ wireCells vs :=
  List.flatMap_append

/-- The offsets acknowledged once the frames are. -/
def ackFrames (frs : List TxFrame) (acked : Acked) : Acked :=
  frs.foldl (fun a fr => (a.ackData fr.offset fr.datalen).2) acked

instance decidableRetainedAt : (offset : Nat) → (subs : List Submission) → (x : Nat) → Decidable (RetainedAt offset subs x)
  | _, [], _ => .isFalse id
  | offset, sub :: subs, x =>
      have := decidableRetainedAt (offset + sub.data.length) subs x
      inferInstanceAs (Decidable (_ ∨ _))

/-- No byte of a retained submission is below the contiguous acknowledged offset once the frames
are acknowledged. -/
def NoneRetained (s : State) (frs : List TxFrame) : Prop :=
  ∀ x < (ackFrames frs s.strm.acked).ackedOffset, ¬RetainedAt 0 s.submitted x

instance (s : State) (frs : List TxFrame) : Decidable (NoneRetained s frs) :=
  inferInstanceAs (Decidable (∀ x < _, _))

/-- An acknowledgement takes only copied bytes off the front of the stream. -/
def AcksCopied (s : State) : Input → Prop
  | .acked i => NoneRetained s ((s.rtb[i]?.map Entry.frames).getD [])
  | _ => True

instance (s : State) : (i : Input) → Decidable (AcksCopied s i)
  | .acked i => inferInstanceAs (Decidable (NoneRetained s ((s.rtb[i]?.map Entry.frames).getD [])))
  | .submit _ _ | .round _ _ | .finish | .lost _ | .pto _ | .expired _ => .isTrue trivial

/-- The rounds without crumbling find copied data in front. -/
def ReadsVectors (s : State) : Input → Prop
  | .round false left => copiedInFront s.strm left = true
  | _ => True

instance (s : State) : (i : Input) → Decidable (ReadsVectors s i)
  | .round false left => inferInstanceAs (Decidable (copiedInFront s.strm left = true))
  | .round true _ => .isTrue trivial
  | .submit _ _ | .finish | .lost _ | .pto _ | .acked _ | .expired _ => .isTrue trivial

/-- What is on the wire carries what is recorded for it; frames are recorded and offsets are
acknowledged only after their bytes were on the wire. -/
structure WireExact (s : State) : Prop where
  carried : ∀ w ∈ s.wire, Carried s.bytes w
  pending : ∀ g ∈ s.pending, ∃ w ∈ s.wire, g ∈ w.recorded
  rtb : ∀ e ∈ s.rtb, ∀ g ∈ e.frames, ∃ w ∈ s.wire, g ∈ w.recorded
  acked : ∀ x < s.bytes.length, ¬s.strm.acked.Missing x → ∃ b, (x, b) ∈ wireCells s.wire

theorem Carried.frameCells_subset {S : List UInt8} {w : Written} (h : Carried S w) {g : TxFrame} (hg : g ∈ w.recorded) :
    ∀ c ∈ frameCells g, c ∈ sentCells w.sent := by
  intro c hc
  rw [h.same.mem_iff]
  exact List.mem_flatMap.mpr ⟨g, hg, hc⟩

/-- The bytes on the wire are submitted bytes at their offsets. -/
theorem WireExact.delivered {s : State} (h : WireExact s) : ∀ c ∈ wireCells s.wire, c ∈ cells 0 s.bytes := by
  intro c hc
  obtain ⟨w, hw, hc⟩ := List.mem_flatMap.mp hc
  obtain ⟨g, hg, hcg⟩ := List.mem_flatMap.mp ((h.carried w hw).same.mem_iff.mp hc)
  exact ((h.carried w hw).good g hg).slice.cells_subset c hcg

theorem WireExact.onWire {s : State} (h : WireExact s) {w : Written} (hw : w ∈ s.wire) {g : TxFrame} (hg : g ∈ w.recorded)
    {x : Nat} (hx : g.offset ≤ x) (hx' : x < g.endOff) : ∃ b, (x, b) ∈ wireCells s.wire := by
  obtain ⟨b, hb⟩ := exists_mem_cells hx hx'
  exact ⟨b, List.mem_flatMap.mpr ⟨w, hw, (h.carried w hw).frameCells_subset hg _ hb⟩⟩

theorem new_wireExact (pcg : Crumble.Pcg32) : WireExact (State.new pcg) := by
  refine ⟨by simp [State.new], by simp [State.new], by simp [State.new], ?_⟩
  intro x hx
  exact absurd hx (Nat.not_lt_zero x)

theorem Submitted.wireExact {s s' : State} {sub : Submission} {addr : Nat} (h : Submitted s sub addr s') (hinv : Inv s)
    (hfits : s.offset + sub.data.length < uint64Max) (hw : WireExact s) : WireExact s' := by
  constructor
  · rw [h.wire, h.bytes]
    exact fun w hmem => (hw.carried w hmem).extend _
  · rw [h.wire, h.pending]
    exact hw.pending
  · rw [h.wire, h.rtb]
    exact hw.rtb
  · intro x hx hmiss
    rw [h.acked] at hmiss
    rw [h.bytes, List.length_append] at hx
    rw [h.wire]
    by_cases hlt : x < s.bytes.length
    · exact hw.acked x hlt hmiss
    · refine absurd (hinv.wf.missing x (Nat.not_lt.mp hlt) ?_) hmiss
      rw [hinv.offset] at hfits
      omega

theorem round_wireExact {s s' : State} {crumble : Bool} {left : Nat} (hinv : Inv s) (hw : WireExact s)
    (hread : ReadsVectors s (.round crumble left)) (h : s.round crumble left = .ok s') : WireExact s' := by
  obtain ⟨r, hr, h⟩ := bind_ok h
  cases h
  obtain ⟨_, hcarried⟩ := cryptoRound_good hinv.wf hinv.queue hr
  have hcarried := hcarried (fun hc => by subst hc; exact hread)
  have hmono : ∀ {g : TxFrame}, (∃ w ∈ s.wire, g ∈ w.recorded) → ∃ w ∈ s.wire ++ r.written.toList, g ∈ w.recorded :=
    fun ⟨w, hmem, hg⟩ => ⟨w, List.mem_append_left _ hmem, hg⟩
  refine ⟨?_, ?_, fun e he g hg => hmono (hw.rtb e he g hg), ?_⟩
  · intro w hmem
    rcases List.mem_append.mp hmem with hmem | hmem
    · exact hw.carried w hmem
    · exact hcarried w (by simpa using hmem)
  · intro g hg
    rcases List.mem_append.mp hg with hg | hg
    · exact hmono (hw.pending g hg)
    · cases hwr : r.written with
      | none => simp [hwr] at hg
      | some w =>
          rw [hwr] at hg
          exact ⟨w, List.mem_append_right _ (by simp), by simpa using hg⟩
  · intro x hx hmiss
    obtain ⟨b, hb⟩ := hw.acked x hx hmiss
    exact ⟨b, by rw [wireCells_append]; exact List.mem_append_left _ hb⟩

theorem acked_wireExact {s s' : State} {i : Nat} (hinv : Inv s) (hw : WireExact s) (h : s.acked i = .ok s') :
    WireExact s' := by
  rw [State.acked] at h
  split at h
  · cases h
    exact hw
  · rename_i ent hent
    have hmem := List.mem_of_getElem? hent
    obtain ⟨⟨acked, chain⟩, hack, h⟩ := bind_ok h
    cases h
    obtain ⟨_, hmissing⟩ := processAckedPkt_acked hinv.wf (fun fr hfr => (hinv.rtb ent hmem fr hfr).le) hack
    refine ⟨hw.carried, hw.pending, fun e he => hw.rtb e (List.mem_of_mem_eraseIdx he), ?_⟩
    intro x hx hnot
    by_cases hold : s.strm.acked.Missing x
    · have hex : ∃ fr ∈ ent.frames, fr.offset ≤ x ∧ x < fr.endOff := by
        by_contra hno
        exact hnot ((hmissing x).mpr ⟨hold, fun fr hfr hin => hno ⟨fr, hfr, hin⟩⟩)
      obtain ⟨fr, hfr, hle, hlt⟩ := hex
      obtain ⟨w, hwm, hrec⟩ := hw.rtb ent hmem fr hfr
      exact hw.onWire hwm hrec hle hlt
    · exact hw.acked x hx hold

theorem step_wireExact {s s' : State} {i : Input} (hinv : Inv s) (hw : WireExact s) (hfits : Fits s i)
    (hread : ReadsVectors s i) (h : step s i = .ok s') : WireExact s' := by
  cases i with
  | submit sub addr =>
      rcases submit_cases (halting_ok h) with rfl | hsub
      · exact hw
      · exact hsub.wireExact hinv hfits hw
  | round crumble left => exact round_wireExact hinv hw hread (halting_ok h)
  | finish =>
      cases h
      rw [State.finish]
      split
      · exact hw
      · refine ⟨hw.carried, by simp, ?_, hw.acked⟩
        intro e he
        rcases List.mem_append.mp he with he | he
        · exact hw.rtb e he
        · rw [List.mem_singleton.mp he]
          exact hw.pending
  | lost i =>
      have h := halting_ok h
      rw [State.lost] at h
      split at h
      · cases h
        exact hw
      · rename_i ent hent
        obtain ⟨⟨ent', queue⟩, hlost, h⟩ := bind_ok h
        cases h
        have hmem := List.mem_of_getElem? hent
        obtain ⟨_, heq⟩ := onPktLost_good (hinv.rtb ent hmem) hinv.queue hlost
        refine ⟨hw.carried, hw.pending, ?_, hw.acked⟩
        intro e he
        rcases List.mem_or_eq_of_mem_set he with he | rfl
        · exact hw.rtb e he
        · rw [heq]
          exact hw.rtb ent hmem
  | pto n =>
      obtain ⟨⟨rtb, queue⟩, hpto, h⟩ := bind_ok (halting_ok h)
      cases h
      obtain ⟨_, hmap⟩ := reclaimOnPto_good hinv.rtb hinv.queue hpto
      refine ⟨hw.carried, hw.pending, ?_, hw.acked⟩
      intro e he
      obtain ⟨e₀, he₀, hframes⟩ := mem_of_map_frames hmap he
      rw [← hframes]
      exact hw.rtb e₀ he₀
  | acked i => exact acked_wireExact hinv hw h
  | expired i =>
      cases h
      rw [State.expired]
      split
      · exact hw
      · split
        · exact ⟨hw.carried, hw.pending, fun e he => hw.rtb e (List.mem_of_mem_eraseIdx he), hw.acked⟩
        · exact hw

/-- In every run whose rounds without crumbling find copied data in front of the queue, the CRYPTO
frames on the wire carry the submitted bytes of the ranges that are recorded for them. So the peer
gets nothing but submitted bytes at their offsets, and every acknowledged offset was on the wire. -/
theorem run_carried (pcg : Crumble.Pcg32) (inputs : List Input) (s : State)
    (hinputs : Guarded step (fun s i => Fits s i ∧ AcksCopied s i) (State.new pcg) inputs)
    (hread : Guarded step ReadsVectors (State.new pcg) inputs) (hrun : run step (State.new pcg) inputs = .ok s) :
    WireExact s ∧ ∀ c ∈ wireCells s.wire, c ∈ cells 0 s.bytes := by
  have hboth : Inv s ∧ WireExact s := by
    have hstep : ∀ s i s', (Inv s ∧ WireExact s) → (Fits s i ∧ AcksCopied s i) ∧ ReadsVectors s i → step s i = .ok s' →
        Inv s' ∧ WireExact s' := by
      intro s i s' hs hg h
      exact ⟨step_inv hs.1 hg.1.1 h, step_wireExact hs.1 hs.2 hg.1.1 hg.2 h⟩
    exact run_preserves hstep ⟨new_inv pcg, new_wireExact pcg⟩ (hinputs.and hread) hrun
  exact ⟨hboth.2, hboth.2.delivered⟩

/-- A copied and a retained submission; the retained one goes out in crumbled packets, the first
packet is lost, and the retransmission is acknowledged. -/
def mixed : List Input :=
  [.submit ⟨false, [1, 2, 3]⟩ 4096, .submit ⟨true, [4, 5]⟩ 0, .round false 5, .finish, .round false 60, .finish,
    .round true 300, .finish, .lost 0, .pto 1, .round false 60, .finish, .acked 3]

def seed : Crumble.Pcg32 :=
  ⟨7⟩

theorem run_carried_mixed :
    ∃ s, run step (State.new seed) mixed = .ok s ∧ s.wire.length = 4 ∧
      WireExact s ∧ ∀ c ∈ wireCells s.wire, c ∈ cells 0 s.bytes := by
  have hlen : (run step (State.new seed) mixed).toOption.map (fun s => s.wire.length) = some 4 := by decide +kernel
  cases hrun : run step (State.new seed) mixed with
  | error e =>
      rw [hrun] at hlen
      cases hlen
  | ok s =>
      rw [hrun] at hlen
      exact ⟨s, rfl, Option.some.inj hlen, run_carried seed mixed s (by decide +kernel) (by decide +kernel) hrun⟩

/-- A retained submission that goes out in a packet without crumbling: the CRYPTO frame on the wire
is empty, the retransmission entry records its three bytes. -/
theorem retained_sent_empty :
    ¬ ∀ pcg inputs s, Guarded step (fun s i => Fits s i ∧ AcksCopied s i) (State.new pcg) inputs →
      run step (State.new pcg) inputs = .ok s → ∀ w ∈ s.wire, Carried s.bytes w := by
  intro h
  have hrun : run step (State.new seed) [.submit ⟨true, [1, 2, 3]⟩ 0, .round false 60, .finish] =
      .ok ⟨⟨.crypto, 3, [], .new, false, false, false, false, false⟩, 3, [], [⟨[⟨0, false, [], some [1, 2, 3]⟩], false, false⟩], [], seed,
        [⟨true, [1, 2, 3]⟩], [⟨[(0, [])], [⟨0, false, [], some [1, 2, 3]⟩]⟩]⟩ := by decide +kernel
  have hcarried := h seed _ _ (by decide +kernel) hrun _ List.mem_cons_self
  have hlen := hcarried.same.length_eq
  cases hlen

end Zngtcp2.CryptoTx
