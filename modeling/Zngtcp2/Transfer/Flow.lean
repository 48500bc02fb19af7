import Zngtcp2.Rx.Honours
import Zngtcp2.Transfer.FlowSender

namespace Zngtcp2.FlowNet

open Lib.Run Strm
open StreamTx (Reads newFrames FrameOf)
open TxFlow (NotLowered Varint Sound final)

/-- The sender under flow control, the receiver, and the frames between them that are about limits:
those of the streams, RESET_STREAM and STREAM_DATA_BLOCKED one way, MAX_DATA and MAX_STREAM_DATA the
other. -/
structure Net where
  tx : TxFlow.Conn
  rx : Rx.Conn
  wire : List (Nat × TxFrame)
  resets : List (Nat × Nat)
  blocked : List (Nat × Nat)
  maxData : List Nat
  maxStreamData : List (Nat × Nat)

inductive Halt
  | tx (stop : Strm.Stop)
  | rx (stop : Rx.Stop)

inductive Event
  | tx (input : TxFlow.Input)
  | blocked (sid : Nat)
  | rx (input : Rx.Input)

/-- The RESET_STREAM frame of a stream whose sending side is shut. -/
def newResets (c : TxFlow.Conn) : TxFlow.Input → List (Nat × Nat)
  | .stream (.shutdownWrite sid) | .stream (.stopSending sid) =>
      if (c.tx.strms sid).any TxStrm.resetStream then [(sid, c.offsets sid)] else []
  | _ => []

def newMaxData (rx rx' : Rx.Conn) : Rx.Input → List Nat
  | .sendMaxData _ _ => if rx.shouldSendMaxData then [rx'.maxOffset] else []
  | _ => []

def newMaxStreamData (rx' : Rx.Conn) : Rx.Input → List (Nat × Nat)
  | .sendMaxStreamData sid _ => (rx'.strms sid).toList.map fun strm => (sid, strm.maxOffset)
  | _ => []

/-- The transport parameters are those of the receiver, or remembered ones that are not above them. -/
def Agreed (p : TxFlow.Params) (rx : Rx.Conn) : Prop :=
  p.initialMaxData.val ≤ rx.maxOffset ∧ p.initialMaxStreamDataBidiLocal.val ≤ rx.params.initialMaxStreamDataBidiLocal ∧
    p.initialMaxStreamDataBidiRemote.val ≤ rx.params.initialMaxStreamDataBidiRemote ∧
    p.initialMaxStreamDataUni.val ≤ rx.params.initialMaxStreamDataUni

instance (p : TxFlow.Params) (rx : Rx.Conn) : Decidable (Agreed p rx) :=
  inferInstanceAs (Decidable (_ ∧ _))

namespace Net

variable (s : Net)

def step : Event → Except Halt Net
  | .tx input => do
      let tx ← (TxFlow.step s.tx input).mapError .tx
      .ok { s with
        tx := tx
        wire := newFrames s.tx.tx tx.tx ++ s.wire
        resets := newResets tx input ++ s.resets }
  | .blocked sid =>
      match s.tx.tx.strms sid with
      | none => .ok s
      | some strm =>
          if strm.offset = s.tx.maxStream sid then .ok { s with blocked := (sid, s.tx.maxStream sid) :: s.blocked }
          else .ok s
  | .rx input => do
      let rx ← (Rx.step s.rx input).mapError .rx
      .ok { s with
        rx := rx
        maxData := newMaxData s.rx rx input ++ s.maxData
        maxStreamData := newMaxStreamData rx input ++ s.maxStreamData }

/-- The limits that the sender reads come from the receiver. -/
def Granted : TxFlow.Input → Prop
  | .set0rttParams p => Agreed p s.rx
  | .setRemoteParams p => Agreed p s.rx
  | .maxData n => n.val ∈ s.maxData
  | .maxStreamData sid n => (sid, n.val) ∈ s.maxStreamData
  | _ => True

/-- The frames that the receiver reads come from the sender. -/
def Sent : Rx.Input → Prop
  | .recvStream fr env => (∃ p ∈ s.wire, p.1 = fr.streamId ∧ Reads fr p.2) ∧ Rx.Source.Polite env.reorder.source
  | .recvResetStream fr _ => (fr.streamId, fr.finalSize) ∈ s.resets
  | .recvStreamDataBlocked fr _ => (fr.streamId, fr.offset) ∈ s.blocked
  | _ => True

def Allowed : Event → Prop
  | .tx input => NotLowered s.tx input ∧ input.rejects = false ∧ s.Granted input
  | .blocked _ => True
  | .rx input => Rx.StopsAtGap s.rx input ∧ s.Sent input

instance decidableGranted : (input : TxFlow.Input) → Decidable (s.Granted input)
  | .set0rttParams p => inferInstanceAs (Decidable (Agreed p s.rx))
  | .setRemoteParams p => inferInstanceAs (Decidable (Agreed p s.rx))
  | .maxData n => inferInstanceAs (Decidable (n.val ∈ s.maxData))
  | .maxStreamData sid n => inferInstanceAs (Decidable ((sid, n.val) ∈ s.maxStreamData))
  | .install0rttKey | .installRxKey | .installTxKey | .syncStreamDataLimit | .openStream _ | .write _ _ | .submit _ _ _
  | .earlyDataRejected _ | .stream _ => isTrue trivial

instance decidableSent : (input : Rx.Input) → Decidable (s.Sent input)
  | .recvStream fr env =>
      inferInstanceAs (Decidable ((∃ p ∈ s.wire, p.1 = fr.streamId ∧ Reads fr p.2) ∧ Rx.Source.Polite env.reorder.source))
  | .recvResetStream fr _ => inferInstanceAs (Decidable ((fr.streamId, fr.finalSize) ∈ s.resets))
  | .recvStreamDataBlocked fr _ => inferInstanceAs (Decidable ((fr.streamId, fr.offset) ∈ s.blocked))
  | .callbackReturns | .shutdownStreamRead _ | .extendMaxOffset _ | .extendMaxStreamOffset _ _ | .openBidiStream
  | .sendSide _ _ _ _ _ | .sendMaxData _ _ | .sendMaxStreamData _ _ => isTrue trivial

instance decidableAllowed : (event : Event) → Decidable (s.Allowed event)
  | .tx input => inferInstanceAs (Decidable (NotLowered s.tx input ∧ input.rejects = false ∧ s.Granted input))
  | .blocked _ => isTrue trivial
  | .rx input => inferInstanceAs (Decidable (Rx.StopsAtGap s.rx input ∧ s.Sent input))

def init (server : Bool) (conn : Rx.Conn) : Net :=
  ⟨.new server, conn, [], [], [], [], []⟩

def ledger : Rx.Ledger :=
  ⟨s.rx.server, s.rx.params, s.tx.offsets, final s.tx,
    fun id n => n ≤ s.tx.maxStream id ∨ n ≤ s.rx.initialStreamRxOffset id ∨ ∃ m, (id, m) ∈ s.maxStreamData ∧ n ≤ m,
    s.rx.initialStreamRxOffset, s.rx.maxOffset⟩

/-- The receiver honours what it told the sender, and the sender keeps to it. -/
structure Inv (s : Net) : Prop where
  sound : Sound s.tx
  rx : Rx.Inv s.rx
  honours : Rx.Honours s.ledger s.rx
  roles : s.rx.server = !s.tx.server
  agreed : ∀ p, s.tx.params = some p ∨ s.tx.pending = some p → Agreed p s.rx
  recved : ∀ n ∈ s.tx.maxDataRecved, n.val ≤ s.rx.maxOffset
  maxData : ∀ n ∈ s.maxData, n ≤ s.rx.maxOffset
  wire : ∀ p ∈ s.wire, p.2.endOff ≤ s.tx.offsets p.1 ∧
    (p.2.fin = true → final s.tx p.1 ∧ p.2.endOff = s.tx.offsets p.1)
  resets : ∀ r ∈ s.resets, final s.tx r.1 ∧ r.2 = s.tx.offsets r.1
  blocked : ∀ b ∈ s.blocked, b.2 ≤ s.tx.offsets b.1

variable {s : Net}

theorem Inv.limit (h : Inv s) : s.tx.maxOffset ≤ s.rx.maxOffset := by
  apply h.sound.flow.source
  · intro p hp
    exact (h.agreed p (Or.inl hp)).1
  · exact h.recved

/-- What was accepted for any of the streams is within the limit of the connection. -/
theorem sum_offsets_le {c : TxFlow.Conn} (h : Sound c) (ids : Finset Nat) : ∑ id ∈ ids, c.offsets id ≤ c.offset := by
  have hzero : ∀ id ∈ ids ∪ c.tx.opened.toFinset, id ∉ c.tx.opened.toFinset → c.offsets id = 0 := by
    intro id _ hid
    exact h.unopened id fun hmem => hid (List.mem_toFinset.mpr hmem)
  calc ∑ id ∈ ids, c.offsets id
      ≤ ∑ id ∈ ids ∪ c.tx.opened.toFinset, c.offsets id := Finset.sum_le_sum_of_subset Finset.subset_union_left
    _ = ∑ id ∈ c.tx.opened.toFinset, c.offsets id := (Finset.sum_subset Finset.subset_union_right hzero).symm
    _ = c.offset := by rw [h.flow.sum, List.sum_toFinset _ h.flow.nodup]

theorem Inv.valid (h : Inv s) : s.ledger.Valid := by
  refine ⟨fun id => Or.inl (h.sound.within id), fun ids => ?_⟩
  have hsum := sum_offsets_le h.sound ids
  have hconn := h.sound.flow.conn
  have hlimit := h.limit
  simp only [ledger]
  omega

/-- A stream starts with the limit that its sender was told. -/
theorem initialLimit_le {c : TxFlow.Conn} {rx : Rx.Conn} (hroles : rx.server = !c.server) {p : TxFlow.Params}
    (hp : Agreed p rx) (sid : Nat) : c.initialLimit p sid ≤ rx.initialStreamRxOffset sid := by
  obtain ⟨-, hlocal, hremote, huni⟩ := hp
  have hbidi : Rx.bidiStream sid = TxFlow.Conn.bidiStream sid := by
    simp only [Rx.bidiStream, TxFlow.Conn.bidiStream, decide_eq_decide]
    omega
  have hside : rx.localStream sid = !c.localStream sid := by
    obtain hmod | hmod := Nat.mod_two_eq_zero_or_one sid
    · simp only [Rx.Conn.localStream, TxFlow.Conn.localStream, hroles, hmod]
      cases c.server <;> rfl
    · simp only [Rx.Conn.localStream, TxFlow.Conn.localStream, hroles, hmod]
      cases c.server <;> rfl
  rw [TxFlow.Conn.initialLimit, Rx.Conn.initialStreamRxOffset, hbidi, hside]
  cases TxFlow.Conn.bidiStream sid with
  | true =>
      cases c.localStream sid with
      | true => simpa using hremote
      | false => simpa using hlocal
  | false =>
      cases c.localStream sid with
      | true => simpa using huni
      | false => simp

/-- The frames of a new packet are within what was accepted. -/
theorem newFrames_sent {c c' : TxFlow.Conn} (h : Sound c') (hopen : ∀ p ∈ newFrames c.tx c'.tx, (c'.tx.strms p.1).isSome = true) :
    ∀ p ∈ newFrames c.tx c'.tx, p.2.endOff ≤ c'.offsets p.1 ∧
      (p.2.fin = true → final c' p.1 ∧ p.2.endOff = c'.offsets p.1) := by
  intro p hp
  obtain ⟨strm, hs⟩ := Option.isSome_iff_exists.mp (hopen p hp)
  obtain ⟨hopened, hoff⟩ := h.flow.offsets p.1 strm hs
  have hframe : FrameOf strm p.2 := by
    obtain ⟨e, he, hpe⟩ := StreamTx.newFrames_mem hp
    exact (h.stream.sent e he p hpe).2 strm hs
  refine ⟨by rw [hoff]; exact hframe.le, fun hfin => ?_⟩
  obtain ⟨hend, hshut⟩ := hframe.fin hfin
  refine ⟨⟨hopened, fun strm' hs' => ?_⟩, hend.trans hoff.symm⟩
  rw [hs] at hs'
  cases hs'
  exact hshut

theorem newResets_sent {c : TxFlow.Conn} (h : Sound c) (input : TxFlow.Input) :
    ∀ r ∈ newResets c input, final c r.1 ∧ r.2 = c.offsets r.1 := by
  have hreset : ∀ sid, (c.tx.strms sid).any TxStrm.resetStream = true → final c sid := by
    intro sid hany
    obtain ⟨strm, hs, hreset⟩ := (Option.any_eq_true ..).mp hany
    refine ⟨h.stream.known sid strm hs, fun strm' hs' => ?_⟩
    rw [hs] at hs'
    cases hs'
    exact (h.stream.streams sid strm hs).reset hreset
  intro r hr
  unfold newResets at hr
  split at hr
  · split at hr
    · rename_i hany
      cases List.mem_singleton.mp hr
      exact ⟨hreset _ hany, rfl⟩
    · cases hr
  · split at hr
    · rename_i hany
      cases List.mem_singleton.mp hr
      exact ⟨hreset _ hany, rfl⟩
    · cases hr
  · cases hr

theorem Inv.tx (h : Inv s) {input : TxFlow.Input} (hg : NotLowered s.tx input) (hrej : input.rejects = false)
    (hgrant : s.Granted input) {tx : TxFlow.Conn} (hs : TxFlow.step s.tx input = .ok tx) :
    Inv { s with
      tx := tx
      wire := newFrames s.tx.tx tx.tx ++ s.wire
      resets := newResets tx input ++ s.resets } := by
  obtain ⟨hsound, hoffsets, hfinal⟩ := h.sound.step hg hrej hs
  have hstated := TxFlow.step_stated hs
  have hopen : ∀ p ∈ newFrames s.tx.tx tx.tx, (tx.tx.strms p.1).isSome = true := by
    obtain heq | ⟨i, hi⟩ := (TxFlow.step_moves h.sound.flow hg hrej hs).stream
    · rw [heq, StreamTx.newFrames_eq_nil (Nat.le_refl _)]
      simp
    · exact StreamTx.newFrames_open hi
  refine ⟨hsound, h.rx, ?_, by rw [hstated.server]; exact h.roles, fun p hp => ?_, fun n hn => ?_, h.maxData, fun p hp => ?_,
    fun r hr => ?_, fun b hb => Nat.le_trans (h.blocked b hb) (hoffsets _)⟩
  · refine h.honours.grow ⟨hoffsets, hfinal, fun id n hn => ⟨n, ?_, Nat.le_refl n⟩, rfl, rfl, rfl⟩ (Nat.le_refl _)
    obtain hn | hn := hn
    · obtain heq | ⟨p, hp, heq⟩ | ⟨m, rfl, heq⟩ := hstated.maxStream id
      · rw [heq] at hn
        exact Or.inl hn
      · rw [heq] at hn
        exact Or.inr (Or.inl (Nat.le_trans hn (initialLimit_le h.roles (h.agreed p (Or.inl hp)) id)))
      · rw [heq] at hn
        exact Or.inr (Or.inr ⟨m.val, hgrant, hn⟩)
    · exact Or.inr hn
  · obtain hp | rfl | rfl := hstated.params p hp
    · exact h.agreed p hp
    · exact hgrant
    · exact hgrant
  · obtain hn | rfl := hstated.maxData n hn
    · exact h.recved n hn
    · exact h.maxData _ hgrant
  · obtain hp | hp := List.mem_append.mp hp
    · exact newFrames_sent hsound hopen p hp
    · obtain ⟨hle, hfin⟩ := h.wire p hp
      refine ⟨Nat.le_trans hle (hoffsets _), fun hf => ?_⟩
      obtain ⟨hold, hend⟩ := hfin hf
      obtain ⟨hnew, heq⟩ := hfinal _ hold
      exact ⟨hnew, hend.trans heq.symm⟩
  · obtain hr | hr := List.mem_append.mp hr
    · exact newResets_sent hsound input r hr
    · obtain ⟨hold, hsize⟩ := h.resets r hr
      obtain ⟨hnew, heq⟩ := hfinal _ hold
      exact ⟨hnew, hsize.trans heq.symm⟩

theorem Inv.sendBlocked (h : Inv s) {sid : Nat} {strm : TxStrm} (hs : s.tx.tx.strms sid = some strm)
    (hat : strm.offset = s.tx.maxStream sid) : Inv { s with blocked := (sid, s.tx.maxStream sid) :: s.blocked } := by
  refine ⟨h.sound, h.rx, h.honours, h.roles, h.agreed, h.recved, h.maxData, h.wire, h.resets, fun b hb => ?_⟩
  obtain rfl | hb := List.mem_cons.mp hb
  · exact Nat.le_of_eq (hat.symm.trans (h.sound.flow.offsets sid strm hs).2.symm)
  · exact h.blocked b hb

/-- What the receiver reads keeps to the limits it gave. -/
theorem Inv.admits (h : Inv s) {input : Rx.Input} (hsent : s.Sent input) : s.ledger.Admits input := by
  cases input with
  | recvStream fr env =>
      obtain ⟨⟨p, hp, hid, hoff, hbytes, hfin⟩, henv⟩ := hsent
      obtain ⟨hle, hend⟩ := h.wire p hp
      have hendOff : fr.endOffset = p.2.endOff := by
        rw [Rx.StreamFrame.endOffset, TxFrame.endOff, TxFrame.datalen, hoff, hbytes]
      rw [hid] at hle hend
      refine ⟨⟨hendOff.symm ▸ hle, fun hf => ?_⟩, henv⟩
      rw [hfin] at hf
      rw [hendOff]
      exact hend hf
  | recvResetStream fr env => exact h.resets _ hsent
  | recvStreamDataBlocked fr env => exact h.blocked _ hsent
  | callbackReturns | shutdownStreamRead _ | extendMaxOffset _ | extendMaxStreamOffset _ _ | openBidiStream
    | sendSide _ _ _ _ _ | sendMaxData _ _ | sendMaxStreamData _ _ => trivial

theorem Inv.receive (h : Inv s) {input : Rx.Input} {rx : Rx.Conn} (hrx : Rx.Inv rx) (hold : Rx.Honours s.ledger rx) :
    Inv { s with
      rx := rx
      maxData := newMaxData s.rx rx input ++ s.maxData
      maxStreamData := newMaxStreamData rx input ++ s.maxStreamData } := by
  obtain ⟨hserver, hparams⟩ := hold.own
  have hlimit : s.rx.maxOffset ≤ rx.maxOffset := hold.limit
  refine ⟨h.sound, hrx, ?_, hserver.trans h.roles, fun p hp => ?_, fun n hn => Nat.le_trans (h.recved n hn) hlimit,
    fun n hn => ?_, h.wire, h.resets, h.blocked⟩
  · refine (hold.promise hrx).grow ⟨fun _ => Nat.le_refl _, fun _ hf => ⟨hf, rfl⟩, fun id n hn => ?_, ?_, ?_⟩ (Nat.le_refl _)
    · obtain hn | hn | ⟨m, hm, hle⟩ := hn
      · exact ⟨n, Or.inl (Or.inl hn), Nat.le_refl n⟩
      · refine ⟨n, Or.inl (Or.inr (Or.inl ?_)), Nat.le_refl n⟩
        exact Nat.le_trans hn (Nat.le_of_eq (hold.initial id))
      · obtain hm | hm := List.mem_append.mp hm
        · refine ⟨n, Or.inr ?_, Nat.le_refl n⟩
          unfold newMaxStreamData at hm
          split at hm
          · simp only [List.mem_map, Option.mem_toList, Prod.mk.injEq] at hm
            obtain ⟨strm, hs, rfl, rfl⟩ := hm
            exact ⟨strm, hs, hle⟩
          · cases hm
        · exact ⟨n, Or.inl (Or.inr (Or.inr ⟨m, hm, hle⟩)), Nat.le_refl n⟩
    · exact funext hold.initial
    · exact ⟨hserver, hparams⟩
  · obtain ⟨hmax, hstrms⟩ := h.agreed p hp
    refine ⟨Nat.le_trans hmax hlimit, ?_⟩
    rw [show rx.params = s.rx.params from hparams]
    exact hstrms
  · obtain hn | hn := List.mem_append.mp hn
    · unfold newMaxData at hn
      split at hn
      · split at hn
        · exact Nat.le_of_eq (List.mem_singleton.mp hn)
        · cases hn
      · cases hn
    · exact Nat.le_trans (h.maxData n hn) hlimit

/-- The error of the receiver, if any, is not that the sender went beyond a limit or a final size. -/
def Polite : Halt → Prop
  | .tx _ => True
  | .rx stop => Rx.Polite stop

theorem step_ends (s : Net) (event : Event) (h : Inv s) (hg : s.Allowed event) : Ends Polite Inv (step s event) := by
  cases event with
  | tx input =>
      obtain ⟨hlow, hrej, hgrant⟩ := hg
      simp only [step]
      cases hs : TxFlow.step s.tx input with
      | error stop => exact trivial
      | ok tx => exact h.tx hlow hrej hgrant hs
  | blocked sid =>
      unfold step
      simp only
      split
      · exact h
      · rename_i strm hs
        split
        · rename_i hat
          exact h.sendBlocked hs hat
        · exact h
  | rx input =>
      obtain ⟨hstop, hsent⟩ := hg
      have hends := h.honours.step h.rx h.valid (h.admits hsent)
      simp only [step]
      cases hs : Rx.step s.rx input with
      | error stop =>
          rw [hs] at hends
          exact hends
      | ok rx =>
          rw [hs] at hends
          exact h.receive (Rx.step_inv s.rx input rx h.rx hstop hs) hends

theorem init_inv {server : Bool} {conn : Rx.Conn} (hinit : Rx.Initial conn) (hroles : conn.server = !server) :
    Inv (init server conn) := by
  refine ⟨TxFlow.new_sound server, hinit.inv, ?_, hroles, ?_, ?_, ?_, ?_, ?_, ?_⟩
  · refine ⟨fun id => ?_, fun id strm hs => ?_, fun id n hn _ => ?_, fun _ => rfl, ⟨rfl, rfl⟩, Nat.le_refl _, ?_⟩
    · obtain ⟨hopen, hclosed⟩ := hinit.strms id
      simp [Rx.Snap.last, Rx.Conn.snap, init, hopen, hclosed]
    · rw [show (init server conn).rx = conn from rfl, (hinit.strms id).1] at hs
      cases hs
    · obtain hn | hn | ⟨m, hm, -⟩ := hn
      · exact Nat.le_trans hn (Nat.zero_le _)
      · exact hn
      · cases hm
    · rw [show (init server conn).rx = conn from rfl, hinit.ctl]
      trivial
  · rintro p (hp | hp) <;> cases hp
  all_goals
    intro _ hmem
    cases hmem

/-- Sender and receiver agree on the limits: what was received is at most what was sent, that is
within what the sender knows of the limits, and these are not above those of the receiver. -/
structure InLimits (s : Net) : Prop where
  conn : s.rx.offset ≤ s.tx.offset ∧ s.tx.offset ≤ s.tx.maxOffset ∧ s.tx.maxOffset ≤ s.rx.maxOffset
  stream : ∀ sid, (s.rx.snap sid).last ≤ s.tx.offsets sid ∧ s.tx.offsets sid ≤ s.tx.maxStream sid
  limit : ∀ sid strm, s.rx.strms sid = some strm → s.tx.maxStream sid ≤ strm.maxOffset

theorem Inv.inLimits (h : Inv s) : InLimits s := by
  refine ⟨⟨?_, h.sound.flow.conn, h.limit⟩, fun sid => ⟨h.honours.last sid, h.sound.within sid⟩, fun sid strm hs => ?_⟩
  · calc s.rx.offset = ∑ id ∈ s.rx.opened, (s.rx.snap id).last := h.rx.total
      _ ≤ ∑ id ∈ s.rx.opened, s.tx.offsets id := Finset.sum_le_sum fun id _ => h.honours.last id
      _ ≤ s.tx.offset := sum_offsets_le h.sound _
  · obtain ⟨hid, hf⟩ := h.honours.fits sid strm hs
    subst hid
    exact hf.max _ (Or.inl (Nat.le_refl _))

def smallConn : Rx.Conn :=
  { Rx.serverConn with
    params := ⟨4, 4, 4⟩
    maxOffset := 4
    unsentMaxOffset := 4
    window := 4 }

theorem smallConn_initial : Rx.Initial smallConn :=
  ⟨rfl, rfl, fun _ => ⟨rfl, rfl⟩, fun _ => rfl, rfl, rfl, ⟨rfl, rfl, by simp [smallConn, maxVarint]⟩, by decide,
    by simp [smallConn, maxVarint]⟩

/-- A client uses up the limits, says so, gets new ones, sends more, and resets the stream; the
receiver sees the first data last. -/
def blockedEvents (limit raised : TxFlow.Varint) : List Event :=
  [.tx (.setRemoteParams ⟨limit, limit, limit, limit⟩), .tx .installRxKey, .tx (.openStream 0),
    .tx (.write [] (some (0, [1, 2, 3, 4, 5, 6], false, 100))), .blocked 0,
    .rx (.recvStreamDataBlocked ⟨0, 4⟩ Rx.freshEnv), .rx .callbackReturns, .rx (.extendMaxOffset 4),
    .rx (.sendMaxStreamData 0 4), .rx (.sendMaxData 0 0), .tx (.maxStreamData 0 raised), .tx (.maxData raised),
    .tx (.write [] (some (0, [5, 6], false, 100))), .tx (.stream (.shutdownWrite 0)),
    .rx (.recvStream ⟨0, 4, [5, 6], false⟩ Rx.freshEnv), .rx (.recvResetStream ⟨0, 6⟩ Rx.freshEnv),
    .rx .callbackReturns, .rx (.recvStream ⟨0, 0, [1, 2, 3, 4], false⟩ Rx.freshEnv)]

end Net

end Zngtcp2.FlowNet
