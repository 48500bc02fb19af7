import Zngtcp2.Transfer.Sender
import Zngtcp2.Tx.FlowRuns

namespace Zngtcp2.StreamTx

open Strm TxStrm Lib.Run

/-- No stream that is shut opens again, or takes more data. -/
def StaysShut (strms strms' : Strms) : Prop :=
  ∀ sid strm', strms' sid = some strm' →
    ∃ strm, strms sid = some strm ∧ (strm.shutWr = true → strm'.shutWr = true ∧ strm'.offset = strm.offset)

variable {strms strms' : Strms} {sid : Nat}

theorem StaysShut.trans {a b c : Strms} (h : StaysShut a b) (h' : StaysShut b c) : StaysShut a c := by
  intro sid strm'' hs
  obtain ⟨strm', hs', hk'⟩ := h' sid strm'' hs
  obtain ⟨strm, hs, hk⟩ := h sid strm' hs'
  refine ⟨strm, hs, fun hshut => ?_⟩
  obtain ⟨hshut', hoff⟩ := hk hshut
  obtain ⟨hshut'', hoff'⟩ := hk' hshut'
  exact ⟨hshut'', hoff'.trans hoff⟩

theorem Keeps.staysShut (h : Keeps strms strms') : StaysShut strms strms' := by
  intro sid strm' hs
  obtain ⟨strm, hs, hk⟩ := h sid strm' hs
  refine ⟨strm, hs, fun hshut => ⟨?_, hk.offset⟩⟩
  by_contra hopen
  rw [hk.shutWr (by simpa using hopen)] at hshut
  cases hshut

theorem staysShut_set {strm strm' : TxStrm} (hs : strms sid = some strm)
    (hk : strm.shutWr = true → strm'.shutWr = true ∧ strm'.offset = strm.offset) :
    StaysShut strms (Function.update strms sid (some strm')) := by
  intro j strm₁ hj
  by_cases hjs : j = sid
  · subst hjs
    rw [Function.update_self, Option.some.injEq] at hj
    subst hj
    exact ⟨strm, hs, hk⟩
  · rw [Function.update_of_ne hjs] at hj
    exact ⟨strm₁, hj, fun hshut => ⟨hshut, rfl⟩⟩

theorem processAckedPkt_staysShut {rxDone : List Nat} {frs : List (Nat × TxFrame)}
    (h : processAckedPkt rxDone frs strms = .ok strms') : StaysShut strms strms' := by
  induction frs generalizing strms with
  | nil =>
      cases h
      exact (Keeps.refl _).staysShut
  | cons p frs ih =>
      obtain ⟨j, f⟩ := p
      rw [processAckedPkt] at h
      cases hs : strms j with
      | none =>
          rw [hs] at h
          exact ih h
      | some strm =>
          rw [hs] at h
          simp only at h
          split at h
          · cases h
          · split at h
            · exact (keeps_close strms j).staysShut.trans (ih h)
            · have hset : StaysShut strms (Function.update strms j (some (ackFrame strm f))) :=
                staysShut_set hs fun hshut => ⟨hshut, rfl⟩
              exact hset.trans (ih h)

theorem writeNew_staysShut (pkt : Pkt) (new : Option (Nat × List UInt8 × Bool)) :
    StaysShut pkt.1.strms (writeNew pkt new).1.strms := by
  cases new with
  | none => exact (Keeps.refl _).staysShut
  | some new =>
      obtain ⟨j, data, fin⟩ := new
      rw [writeNew]
      split
      · exact (Keeps.refl _).staysShut
      · rename_i strm hs
        split
        · rename_i hwrites
          apply staysShut_set hs
          intro hshut
          simp [writes, hshut] at hwrites
        · exact (Keeps.refl _).staysShut

/-- A stream that was opened stays shut over any step. -/
theorem step_staysShut {s s' : State} {input : Input} (h : step s input = .ok s') (hsid : sid ∈ s.opened) {strm' : TxStrm}
    (hs : s'.strms sid = some strm') :
    ∃ strm, s.strms sid = some strm ∧ (strm.shutWr = true → strm'.shutWr = true ∧ strm'.offset = strm.offset) := by
  have hpassive : input.passive = true → (∀ i rxDone, input ≠ .acked i rxDone) → StaysShut s.strms s'.strms :=
    fun hp hne => (step_keeps hp hne h).staysShut
  cases input with
  | openStream j writable =>
      rw [step] at h
      split at h
      · cases h
        exact ⟨strm', hs, fun hshut => ⟨hshut, rfl⟩⟩
      · rename_i hnew
        cases h
        have hne : sid ≠ j := fun heq => hnew (heq ▸ hsid)
        have hs : Function.update s.strms j _ sid = some strm' := hs
        rw [Function.update_of_ne hne] at hs
        exact ⟨strm', hs, fun hshut => ⟨hshut, rfl⟩⟩
  | send rounds new =>
      obtain ⟨pkt, hrounds, hok⟩ := bind_ok h
      cases hok
      rw [(finishPkt_strms _).1] at hs
      exact ((writeRounds_rounds hrounds).keeps.staysShut.trans (writeNew_staysShut pkt new)) sid strm' hs
  | submit j data fin =>
      rw [step] at h
      split at h
      · cases h
        exact ⟨strm', hs, fun hshut => ⟨hshut, rfl⟩⟩
      · rename_i strm hstrm
        split at h
        · rename_i hsub
          obtain ⟨queue, -, h⟩ := bind_ok h
          cases h
          refine staysShut_set hstrm ?_ sid strm' hs
          intro hshut
          simp [submits, hshut] at hsub
        · cases h
          exact ⟨strm', hs, fun hshut => ⟨hshut, rfl⟩⟩
  | acked i rxDone =>
      rw [step] at h
      split at h
      · cases h
        exact ⟨strm', hs, fun hshut => ⟨hshut, rfl⟩⟩
      · obtain ⟨strms, hproc, h⟩ := bind_ok h
        cases h
        exact processAckedPkt_staysShut hproc sid strm' hs
  | lost _ | pto _ | expired _ | retry | shutdownWrite _ | stopSending _ | close _ => exact hpassive rfl (by simp) sid strm' hs

/-- The frames of the packet that a step enters into the retransmission buffer. -/
def newFrames (s s' : State) : List (Nat × TxFrame) :=
  match s'.rtb with
  | [] => []
  | e :: rest => if rest = s.rtb then e.frames else []

theorem newFrames_eq_nil {s s' : State} (h : s'.rtb.length ≤ s.rtb.length) : newFrames s s' = [] := by
  rw [newFrames]
  split
  · rfl
  · rename_i e rest hrtb
    rw [if_neg]
    rintro rfl
    rw [hrtb, List.length_cons] at h
    omega

theorem newFrames_mem {s s' : State} {p : Nat × TxFrame} (h : p ∈ newFrames s s') : ∃ e ∈ s'.rtb, p ∈ e.frames := by
  rw [newFrames] at h
  split at h
  · cases h
  · rename_i e rest hrtb
    split at h
    · rw [hrtb]
      exact ⟨e, List.mem_cons_self, h⟩
    · cases h

theorem writeNew_open {pkt : Pkt} (new : Option (Nat × List UInt8 × Bool)) (h : ∀ p ∈ pkt.2, (pkt.1.strms p.1).isSome = true) :
    (∀ p ∈ (writeNew pkt new).2, ((writeNew pkt new).1.strms p.1).isSome = true) ∧ (writeNew pkt new).1.rtb = pkt.1.rtb := by
  cases new with
  | none => exact ⟨h, rfl⟩
  | some new =>
      obtain ⟨j, data, fin⟩ := new
      rw [writeNew]
      split
      · exact ⟨h, rfl⟩
      · rename_i strm hs
        split
        · refine ⟨fun p hp => ?_, rfl⟩
          simp only [State.set]
          by_cases hpj : p.1 = j
          · rw [hpj, Function.update_self, Option.isSome_some]
          · rw [Function.update_of_ne hpj]
            obtain hp | hp := List.mem_append.mp hp
            · exact h p hp
            · rw [List.mem_singleton] at hp
              exact absurd (congrArg Prod.fst hp) hpj
        · exact ⟨h, rfl⟩

theorem finishPkt_newFrames {s : State} {pkt : Pkt} (hrtb : pkt.1.rtb = s.rtb) (h : ∀ p ∈ pkt.2, (pkt.1.strms p.1).isSome = true) :
    ∀ p ∈ newFrames s (finishPkt pkt), ((finishPkt pkt).strms p.1).isSome = true := by
  rw [(finishPkt_strms _).1]
  rw [finishPkt]
  split
  · rw [newFrames_eq_nil (Nat.le_of_eq (congrArg List.length hrtb))]
    simp
  · rw [newFrames]
    simp only [hrtb, if_true]
    exact h

/-- A packet has frames of streams that are still there. -/
theorem newFrames_open {s s' : State} {input : Input} (h : step s input = .ok s') :
    ∀ p ∈ newFrames s s', (s'.strms p.1).isSome = true := by
  have hnone : s'.rtb.length ≤ s.rtb.length → ∀ p ∈ newFrames s s', (s'.strms p.1).isSome = true := by
    intro hle
    rw [newFrames_eq_nil hle]
    simp
  cases input with
  | send rounds new =>
      obtain ⟨pkt, hrounds, hok⟩ := bind_ok h
      cases hok
      have hr := writeRounds_rounds hrounds
      have hopen : ∀ p ∈ pkt.2, (pkt.1.strms p.1).isSome = true := by
        intro p hp
        obtain hp | hp := hr.written p hp
        · cases hp
        · rw [hr.present]
          exact hp
      obtain ⟨hnew, hrtb⟩ := writeNew_open new hopen
      exact finishPkt_newFrames (hrtb.trans hr.rtb) hnew
  | openStream j writable =>
      apply hnone
      rw [step] at h
      split at h <;> cases h <;> exact Nat.le_refl _
  | submit j data fin =>
      apply hnone
      rw [step] at h
      split at h
      · cases h
        exact Nat.le_refl _
      · split at h
        · obtain ⟨queue, -, h⟩ := bind_ok h
          cases h
          exact Nat.le_refl _
        · cases h
          exact Nat.le_refl _
  | acked i rxDone =>
      apply hnone
      rw [step] at h
      split at h
      · cases h
        exact Nat.le_refl _
      · obtain ⟨strms, -, h⟩ := bind_ok h
        cases h
        exact (List.eraseIdx_sublist s.rtb i).length_le
  | lost i =>
      apply hnone
      rw [step] at h
      split at h
      · cases h
        exact Nat.le_refl _
      · split at h
        · cases h
          exact Nat.le_refl _
        · obtain ⟨strms, -, h⟩ := bind_ok h
          cases h
          exact Nat.le_of_eq (List.length_set ..)
  | pto i =>
      apply hnone
      rw [step] at h
      split at h
      · cases h
        exact Nat.le_refl _
      · split at h
        · obtain ⟨strms, -, h⟩ := bind_ok h
          cases h
          exact Nat.le_of_eq (List.length_set ..)
        · cases h
          exact Nat.le_refl _
  | expired i =>
      apply hnone
      rw [step] at h
      split at h
      · cases h
        exact Nat.le_refl _
      · cases h
        split
        · exact (List.eraseIdx_sublist s.rtb i).length_le
        · exact Nat.le_refl _
  | retry =>
      apply hnone
      rw [step] at h
      split at h
      · cases h
        exact Nat.le_refl _
      · split at h
        · cases h
        · obtain ⟨strms, -, h⟩ := bind_ok h
          cases h
          exact Nat.zero_le _
  | shutdownWrite j | stopSending j =>
      apply hnone
      rw [step] at h
      split at h <;> cases h <;> exact Nat.le_refl _
  | close j =>
      apply hnone
      cases h
      exact Nat.le_refl _

end Zngtcp2.StreamTx

namespace Zngtcp2.TxFlow

open Strm TxStrm StreamTx Lib.Run Conn

/-- How much was accepted for a stream changes only while the stream takes data. -/
inductive OffsetMove (c c' : Conn) (sid : Nat) : Prop
  | same (h : c'.offsets sid = c.offsets sid)
  | opens (hnew : sid ∉ c.tx.opened) (h : c'.offsets sid = 0)
  | takes (strm : TxStrm) (hs : c.tx.strms sid = some strm) (hopen : strm.shutWr = false) (n : Nat)
      (h : c'.offsets sid = c.offsets sid + n) (hs' : (c'.tx.strms sid).isSome = true)

/-- A step of the connection is a step of its streams, which leaves the offsets as they are or moves one. -/
structure Moved (c c' : Conn) : Prop where
  stream : c'.tx = c.tx ∨ ∃ input, StreamTx.step c.tx input = .ok c'.tx
  offsets : ∀ sid, OffsetMove c c' sid

variable {c c' : Conn}

theorem moved_same (htx : c'.tx = c.tx) (hoff : c'.offsets = c.offsets) : Moved c c' :=
  ⟨Or.inl htx, fun sid => .same (congrFun hoff sid)⟩

theorem moved_stream {input : StreamTx.Input} (htx : StreamTx.step c.tx input = .ok c'.tx) (hoff : c'.offsets = c.offsets) :
    Moved c c' :=
  ⟨Or.inr ⟨input, htx⟩, fun sid => .same (congrFun hoff sid)⟩

/-- `n` bytes are accepted for a stream. -/
theorem accept_moves (hinv : Inv c) {sid n : Nat} {strm strm₀ : TxStrm} (hs : c.tx.strms sid = some strm₀)
    (hoff : strm.offset = strm₀.offset) (hopen : strm₀.shutWr = false) {tx : StreamTx.State}
    (hs' : (tx.strms sid).isSome = true) (j : Nat) : OffsetMove c { c.accept sid strm n with tx := tx } j := by
  by_cases hj : j = sid
  · subst hj
    apply OffsetMove.takes strm₀ hs hopen n _ hs'
    simp only [Conn.accept, Function.update_self]
    rw [hoff, (hinv.offsets j strm₀ hs).2]
  · apply OffsetMove.same
    simp only [Conn.accept, Function.update_of_ne hj]

theorem write_moves (hinv : Inv c) {rounds : List (Nat × Nat)} {new : Option (Nat × List UInt8 × Bool × Nat)}
    (h : c.write rounds new = .ok c') : Moved c c' := by
  rw [Conn.write] at h
  split at h
  · cases h
    exact moved_same rfl rfl
  · obtain ⟨pkt, hrounds, h⟩ := bind_ok h
    have hplain : StreamTx.step c.tx (.send rounds none) = .ok (finishPkt pkt) := by
      rw [StreamTx.step, hrounds]
      rfl
    cases new with
    | none =>
        cases h
        exact moved_stream hplain rfl
    | some call =>
        obtain ⟨sid, data, fin, room⟩ := call
        simp only at h
        split at h
        · cases h
          exact moved_stream hplain rfl
        · rename_i strm hstrm
          split at h
          · rename_i hcond
            cases h
            generalize hn : min (c.enforceFlowControl sid strm data.length) room = n at *
            have hwrites : (writes strm (data.take n) (fin && decide (n = data.length)) && strmqEmpty pkt.1) = true := by
              rw [hcond.2.2.1, hcond.2.2.2, Bool.and_self]
            have hopen : strm.shutWr = false := by
              have hw := hcond.2.2.1
              simp only [writes, Bool.and_eq_true, Bool.not_eq_true'] at hw
              exact hw.1.1
            obtain ⟨strm₀, hs₀, hkept⟩ := (writeRounds_rounds hrounds).keeps sid strm hstrm
            refine ⟨Or.inr ⟨.send rounds (some (sid, data.take n, fin && decide (n = data.length))), ?_⟩, ?_⟩
            · rw [StreamTx.step, hrounds]
              rfl
            · apply accept_moves hinv hs₀ hkept.offset (hkept.shutWr hopen)
              rw [(finishPkt_strms _).1, writeNew, hstrm]
              simp only [hwrites, if_true, State.set, Function.update_self, Option.isSome_some]
          · cases h
            exact moved_stream hplain rfl

theorem submit_moves (hinv : Inv c) {sid : Nat} {data : List UInt8} {fin : Bool} (h : c.submit sid data fin = .ok c') :
    Moved c c' := by
  rw [Conn.submit] at h
  split at h
  · cases h
    exact moved_same rfl rfl
  · rename_i strm hstrm
    simp only at h
    split at h
    · rename_i hcond
      obtain ⟨tx, htx, h⟩ := bind_ok h
      cases h
      have hsub := hcond.2
      have hopen : strm.shutWr = false := by
        simp only [submits, Bool.and_eq_true, Bool.not_eq_true'] at hsub
        exact hsub.1.1
      refine ⟨Or.inr ⟨_, htx⟩, ?_⟩
      apply accept_moves hinv hstrm rfl hopen
      rw [StreamTx.step, hstrm] at htx
      simp only [hsub, if_true] at htx
      obtain ⟨queue, -, htx⟩ := bind_ok htx
      cases htx
      simp only [State.set, Function.update_self, Option.isSome_some]
    · cases h
      exact moved_same rfl rfl

theorem openStream_moves {sid : Nat} (h : c.openStream sid = .ok c') : Moved c c' := by
  rw [Conn.openStream] at h
  split at h
  · cases h
    exact moved_same rfl rfl
  · rename_i hnew
    split at h
    · split at h
      · cases h
        exact moved_same rfl rfl
      · cases h
    · obtain ⟨tx, htx, h⟩ := bind_ok h
      cases h
      refine ⟨Or.inr ⟨_, htx⟩, fun j => ?_⟩
      by_cases hj : j = sid
      · subst hj
        exact .opens hnew (Function.update_self _ _ _)
      · exact .same (Function.update_of_ne hj _ _)

theorem step_moves (hinv : Inv c) {i : Input} (hg : NotLowered c i) (hrej : i.rejects = false) (h : step c i = .ok c') : Moved c c' := by
  cases i with
  | earlyDataRejected _ => cases hrej
  | openStream sid => exact openStream_moves h
  | write rounds new => exact write_moves hinv h
  | submit sid data fin => exact submit_moves hinv h
  | stream input =>
      rw [step] at h
      split at h
      · obtain ⟨tx, htx, h⟩ := bind_ok h
        cases h
        exact moved_stream htx rfl
      · cases h
        exact moved_same rfl rfl
  | set0rttParams _ | setRemoteParams _ | install0rttKey | installRxKey | installTxKey | syncStreamDataLimit | maxData _
    | maxStreamData _ _ =>
      have hr := hinv.step_raised hg h trivial
      exact moved_same hr.tx hr.offsets

/-- The stream takes no more data. -/
def final (c : Conn) (sid : Nat) : Prop :=
  sid ∈ c.tx.opened ∧ ∀ strm, c.tx.strms sid = some strm → strm.shutWr = true

/-- The flow control and the streams are in order, and what was ever accepted for a stream is within
its limit, also after the stream has been closed. -/
structure Sound (c : Conn) : Prop where
  flow : Inv c
  stream : StreamTx.Inv c.tx []
  unopened : ∀ sid, sid ∉ c.tx.opened → c.offsets sid = 0
  within : ∀ sid, c.offsets sid ≤ c.maxStream sid

theorem new_sound (server : Bool) : Sound (Conn.new server) :=
  ⟨new_inv server, StreamTx.new_inv, fun _ _ => rfl, fun _ => Nat.le_refl _⟩

/-- What a step makes of what was sent. -/
structure Advances (c c' : Conn) : Prop where
  sound : Sound c'
  offsets : ∀ sid, c.offsets sid ≤ c'.offsets sid
  final : ∀ sid, final c sid → final c' sid ∧ c'.offsets sid = c.offsets sid

theorem Sound.step (h : Sound c) {i : Input} (hg : NotLowered c i) (hrej : i.rejects = false) (hs : step c i = .ok c') :
    Advances c c' := by
  obtain ⟨hflow, hgrows⟩ := h.flow.step hg hs
  have hgrows := hgrows hrej
  have hmoved := step_moves h.flow hg hrej hs
  have hstream : StreamTx.Inv c'.tx [] := by
    obtain htx | ⟨input, htx⟩ := hmoved.stream
    · rw [htx]
      exact h.stream
    · exact step_ok_inv h.stream htx
  have hopened : ∀ sid ∈ c.tx.opened, sid ∈ c'.tx.opened := fun sid hsid => (hgrows.stream sid hsid).1
  have hmono : ∀ sid, c.offsets sid ≤ c'.offsets sid := by
    intro sid
    cases hmoved.offsets sid with
    | same heq => exact Nat.le_of_eq heq.symm
    | opens hnew heq => rw [heq, h.unopened sid hnew]
    | takes strm _ _ n heq _ => rw [heq]; exact Nat.le_add_right _ _
  refine ⟨⟨hflow, hstream, fun sid hsid => ?_, fun sid => ?_⟩, hmono, fun sid hfinal => ?_⟩
  · have hold : sid ∉ c.tx.opened := fun hmem => hsid (hopened sid hmem)
    cases hmoved.offsets sid with
    | same heq => rw [heq, h.unopened sid hold]
    | opens _ heq => exact heq
    | takes strm hstrm _ _ _ _ => exact absurd (h.flow.offsets sid strm hstrm).1 hold
  · cases hmoved.offsets sid with
    | same heq =>
        by_cases hsid : sid ∈ c.tx.opened
        · rw [heq]
          exact Nat.le_trans (h.within sid) (hgrows.stream sid hsid).2
        · rw [heq, h.unopened sid hsid]
          exact Nat.zero_le _
    | opens _ heq =>
        rw [heq]
        exact Nat.zero_le _
    | takes strm _ _ n _ hs' =>
        obtain ⟨strm', hs'⟩ := Option.isSome_iff_exists.mp hs'
        rw [(hflow.offsets sid strm' hs').2]
        exact hflow.stream sid strm' hs'
  · obtain ⟨hsid, hshut⟩ := hfinal
    refine ⟨⟨hopened sid hsid, fun strm' hs' => ?_⟩, ?_⟩
    · obtain htx | ⟨input, htx⟩ := hmoved.stream
      · rw [htx] at hs'
        exact hshut strm' hs'
      · obtain ⟨strm, hstrm, hk⟩ := step_staysShut htx hsid hs'
        exact (hk (hshut strm hstrm)).1
    · cases hmoved.offsets sid with
      | same heq => exact heq
      | opens hnew _ => exact absurd hsid hnew
      | takes strm hstrm hopen _ _ _ =>
          rw [hshut strm hstrm] at hopen
          cases hopen

/-- The limits that the peer stated: in its transport parameters and in its frames. -/
structure Stated (c c' : Conn) (i : Input) : Prop where
  params : ∀ p, c'.params = some p ∨ c'.pending = some p →
    (c.params = some p ∨ c.pending = some p) ∨ i = .set0rttParams p ∨ i = .setRemoteParams p
  maxData : ∀ n ∈ c'.maxDataRecved, n ∈ c.maxDataRecved ∨ i = .maxData n
  maxStream : ∀ sid, c'.maxStream sid = c.maxStream sid ∨ (∃ p ∈ c.params, c'.maxStream sid = c.initialLimit p sid) ∨
    ∃ n : Varint, i = .maxStreamData sid n ∧ c'.maxStream sid = n.val
  server : c'.server = c.server

theorem stated_same {i : Input} (hparams : c'.params = c.params) (hpending : c'.pending = c.pending)
    (hmaxData : c'.maxDataRecved = c.maxDataRecved) (hmaxStream : c'.maxStream = c.maxStream) (hserver : c'.server = c.server) :
    Stated c c' i := by
  refine ⟨fun p hp => Or.inl ?_, fun n hn => Or.inl ?_, fun sid => Or.inl (congrFun hmaxStream sid), hserver⟩
  · rwa [hparams, hpending] at hp
  · rwa [hmaxData] at hn

theorem write_stated {rounds : List (Nat × Nat)} {new : Option (Nat × List UInt8 × Bool × Nat)}
    (h : c.write rounds new = .ok c') : Stated c c' (.write rounds new) := by
  rw [Conn.write] at h
  split at h
  · cases h
    exact stated_same rfl rfl rfl rfl rfl
  · obtain ⟨pkt, -, h⟩ := bind_ok h
    cases new with
    | none =>
        cases h
        exact stated_same rfl rfl rfl rfl rfl
    | some call =>
        simp only at h
        split at h
        · cases h
          exact stated_same rfl rfl rfl rfl rfl
        · split at h
          · cases h
            exact stated_same rfl rfl rfl rfl rfl
          · cases h
            exact stated_same rfl rfl rfl rfl rfl

theorem submit_stated {sid : Nat} {data : List UInt8} {fin : Bool} (h : c.submit sid data fin = .ok c') :
    Stated c c' (.submit sid data fin) := by
  rw [Conn.submit] at h
  split at h
  · cases h
    exact stated_same rfl rfl rfl rfl rfl
  · simp only at h
    split at h
    · obtain ⟨tx, -, h⟩ := bind_ok h
      cases h
      exact stated_same rfl rfl rfl rfl rfl
    · cases h
      exact stated_same rfl rfl rfl rfl rfl

theorem openStream_stated {sid : Nat} (h : c.openStream sid = .ok c') : Stated c c' (.openStream sid) := by
  rw [Conn.openStream] at h
  split at h
  · cases h
    exact stated_same rfl rfl rfl rfl rfl
  · split at h
    · split at h
      · cases h
        exact stated_same rfl rfl rfl rfl rfl
      · cases h
    · rename_i p hp
      obtain ⟨tx, -, h⟩ := bind_ok h
      cases h
      refine ⟨fun q hq => Or.inl hq, fun n hn => Or.inl hn, fun j => ?_, rfl⟩
      by_cases hj : j = sid
      · subst hj
        exact Or.inr (Or.inl ⟨p, hp, Function.update_self _ _ _⟩)
      · exact Or.inl (Function.update_of_ne hj _ _)

/-- The limits of a step are those of the state before, or those that the step brings. -/
theorem step_stated {i : Input} (h : step c i = .ok c') : Stated c c' i := by
  cases i with
  | openStream sid => exact openStream_stated h
  | write rounds new => exact write_stated h
  | submit sid data fin => exact submit_stated h
  | stream input =>
      rw [step] at h
      split at h
      · obtain ⟨tx, -, h⟩ := bind_ok h
        cases h
        exact stated_same rfl rfl rfl rfl rfl
      · cases h
        exact stated_same rfl rfl rfl rfl rfl
  | earlyDataRejected oneRtt =>
      cases h
      split
      · exact stated_same rfl rfl rfl rfl rfl
      · exact stated_same rfl rfl rfl rfl rfl
  | set0rttParams p =>
      rw [step] at h
      split at h
      · cases h
      · cases h
        refine ⟨fun q hq => ?_, fun n hn => Or.inl hn, fun _ => Or.inl rfl, rfl⟩
        obtain hq | hq := hq
        · cases hq
          exact Or.inr (Or.inl rfl)
        · exact Or.inl (Or.inr hq)
  | setRemoteParams p =>
      rw [step] at h
      split at h
      · cases h
        exact stated_same rfl rfl rfl rfl rfl
      · split at h
        · cases h
          refine ⟨fun q hq => ?_, fun n hn => Or.inl hn, fun _ => Or.inl rfl, rfl⟩
          obtain hq | hq := hq
          · cases hq
            exact Or.inr (Or.inr rfl)
          · cases hq
        · split at h
          · cases h
          · cases h
            refine ⟨fun q hq => ?_, fun n hn => Or.inl hn, fun _ => Or.inl rfl, rfl⟩
            obtain hq | hq := hq
            · exact Or.inl (Or.inl hq)
            · cases hq
              exact Or.inr (Or.inr rfl)
  | install0rttKey =>
      rw [step] at h
      split at h
      · cases h
      · cases h
        exact stated_same rfl rfl rfl rfl rfl
  | installRxKey =>
      rw [step] at h
      split at h
      · cases h
      · split at h
        · rename_i p hp
          cases h
          split
          · exact stated_same rfl rfl rfl rfl rfl
          · refine ⟨fun q hq => ?_, fun n hn => Or.inl hn, fun _ => Or.inl rfl, rfl⟩
            obtain hq | hq := hq
            · cases hq
              exact Or.inl (Or.inr hp)
            · cases hq
        · cases h
          exact stated_same rfl rfl rfl rfl rfl
  | installTxKey =>
      rw [step] at h
      split at h
      · cases h
      · split at h
        · rename_i p hp
          cases h
          split
          · refine ⟨fun q hq => ?_, fun n hn => Or.inl hn, fun _ => Or.inl rfl, rfl⟩
            obtain hq | hq := hq
            · cases hq
              exact Or.inl (Or.inr hp)
            · cases hq
          · exact stated_same rfl rfl rfl rfl rfl
        · cases h
          exact stated_same rfl rfl rfl rfl rfl
  | syncStreamDataLimit =>
      rw [step, Conn.syncStreamDataLimit] at h
      split at h
      · cases h
      · rename_i p hp
        cases h
        refine ⟨fun q hq => Or.inl hq, fun n hn => Or.inl hn, fun sid => ?_, rfl⟩
        simp only
        split
        · obtain hmax | hmax := max_choice (c.maxStream sid) (c.initialLimit p sid)
          · exact Or.inl hmax
          · exact Or.inr (Or.inl ⟨p, hp, hmax⟩)
        · exact Or.inl rfl
  | maxData n =>
      rw [step] at h
      split at h
      · cases h
        refine ⟨fun q hq => Or.inl hq, fun m hm => ?_, fun _ => Or.inl rfl, rfl⟩
        obtain rfl | hm := List.mem_cons.mp hm
        · exact Or.inr rfl
        · exact Or.inl hm
      · cases h
        exact stated_same rfl rfl rfl rfl rfl
  | maxStreamData sid n =>
      rw [step] at h
      split at h
      · cases h
        refine ⟨fun q hq => Or.inl hq, fun m hm => Or.inl hm, fun j => ?_, rfl⟩
        by_cases hj : j = sid
        · subst hj
          exact Or.inr (Or.inr ⟨n, rfl, Function.update_self _ _ _⟩)
        · exact Or.inl (Function.update_of_ne hj _ _)
      · cases h
        exact stated_same rfl rfl rfl rfl rfl

end Zngtcp2.TxFlow
