import Zngtcp2.Rx.LifecycleSteps
import Zngtcp2.Rx.Conservation

namespace Zngtcp2.Rx

open Lib.Run

/-- A connection before its first stream. -/
structure InitialStreams (st : Streams) : Prop where
  ctl : st.conn.ctl = .idle
  opened : st.conn.opened = ∅
  strms : ∀ id, st.conn.strms id = none
  calls : st.conn.calls = []
  after : st.after = .nothing
  idtrs : st.bidiIdtr = [] ∧ st.uniIdtr = []
  nextBidi : st.conn.localStream st.conn.localBidiNextStreamId = true ∧ bidiStream st.conn.localBidiNextStreamId = true
  nextUni : st.conn.localStream st.localUniNextStreamId = true ∧ bidiStream st.localUniNextStreamId = false

theorem InitialStreams.inv {st : Streams} (h : InitialStreams st) : StreamsInv st := by
  have hused : ∀ bidi q, Used st.conn bidi q ↔ False := by
    intro bidi q
    simp [Used, h.opened]
  refine ⟨⟨?_, fun id => ?_, ?_⟩, ?_, ?_, ?_, ?_, ?_⟩
  · intro id strm hs
    rw [h.strms] at hs
    cases hs
  · exact .unopened (by simp [h.opened]) (h.strms id) (by rw [h.calls]; rfl)
  · intro id hid
    rw [h.ctl] at hid
    cases hid
  · intro id hid
    rw [h.after] at hid
    cases hid
  · rw [h.idtrs.1]
    exact marks_nil.congr (hused true)
  · rw [h.idtrs.2]
    exact marks_nil.congr (hused false)
  · exact ⟨h.nextBidi.1, h.nextBidi.2, by simp [h.opened]⟩
  · exact ⟨h.nextUni.1, h.nextUni.2, by simp [h.opened]⟩

/-- The frames for the sending side of a stream. -/
def Frame.forSending : Frame → Bool
  | .stopSending _ | .maxStreamData _ => true
  | _ => false

/-- The ordinal of a stream id of the peer is above the limit announced to it. -/
def Exceeds (conn : Conn) (id : Nat) : Prop :=
  (if bidiStream id then conn.remoteBidiMaxStreams else conn.remoteUniMaxStreams) < ordStreamId id

/-- The streams come and go in order. A frame for the sending side of a stream on which only the peer
sends is an error of its own kind, whatever the limit. -/
structure Orderly (st : Streams) : Prop where
  life : ∀ id, History st.conn id
  map_ok : ∀ id rv, .insert id rv ∈ st.conn.calls ∨ .remove id rv ∈ st.conn.calls → rv = .ok
  tracked : ∀ id ≤ maxVarint, st.conn.localStream id = false →
    (.streamOpen id ∈ st.conn.calls ∧ idtrOpen (st.idtr id) id = .ok none) ∨
      (.streamOpen id ∉ st.conn.calls ∧ ∃ idtr, idtrOpen (st.idtr id) id = .ok (some idtr))
  ignored : ∀ fr env st', .streamClose fr.streamId ∈ st.conn.calls → st.step (.recv fr env) = .ok st' →
    ∃ rlim, st' = { st with conn := { st.conn with glitchRlim := rlim } }
  limited : ∀ fr env, st.conn.ctl = .idle → st.conn.localStream fr.streamId = false → Exceeds st.conn fr.streamId →
    st.step (.recv fr env) =
      .error (.error (if fr.forSending ∧ bidiStream fr.streamId = false then .streamState else .streamLimit))

theorem glitch_ignored {st st' : Streams} {ts : Nat} (hr : st.lift (st.conn.glitch ts) = .ok st') :
    ∃ rlim, st' = { st with conn := { st.conn with glitchRlim := rlim } } := by
  obtain ⟨conn', hok, rfl⟩ := lift_ok hr
  unfold Conn.glitch at hok
  split at hok
  · cases hok
  · cases hok
    exact ⟨_, rfl⟩
  · cases hok

/-- A frame for a closed stream goes to the branch that ignores it. -/
theorem findOrOpen_ignored {st st' : Streams} {id : Nat} {env : RecvEnv} {precheck : Rv} {ctl : Ctl} {after : After}
    {ignore : Except Stop Streams} {found : Strm → Except Stop Streams} (h : StreamsInv st)
    (hr : st.findOrOpen id env precheck ctl after ignore found = .ok st') (hopen : id ∈ st.conn.opened)
    (hnone : st.conn.strms id = none) : ignore = .ok st' := by
  unfold Streams.findOrOpen at hr
  rw [hnone] at hr
  simp only at hr
  split at hr
  · exact hr
  · rename_i hremote
    rw [Bool.not_eq_true] at hremote
    have hused := (used_iff hremote).mpr hopen
    have hid : id ≤ maxVarint := by
      have hsmall := (marks_idtr h id).small _ hused
      simp only [Streams.maxStreams] at hsmall
      simp only [maxVarint]
      omega
    rcases (marks_idtr h id).idtrOpen hid with ⟨-, heq⟩ | ⟨hnew, -⟩
    · rw [heq] at hr
      exact hr
    · exact absurd hused hnew

theorem recv_ignored {st st' : Streams} {fr : Frame} {env : RecvEnv} (h : StreamsInv st) (hopen : fr.streamId ∈ st.conn.opened) (hnone : st.conn.strms fr.streamId = none)
    (hr : st.recv fr env = .ok st') : ∃ rlim, st' = { st with conn := { st.conn with glitchRlim := rlim } } := by
  cases fr with
  | stream fr =>
      change st.recvStream fr env = .ok st' at hr
      unfold Streams.recvStream at hr
      split at hr
      · split at hr
        · cases hr
        · exact glitch_ignored (findOrOpen_ignored h hr hopen hnone)
      · cases hr
  | resetStream fr =>
      change st.recvResetStream fr env = .ok st' at hr
      unfold Streams.recvResetStream at hr
      split at hr
      · split at hr
        · cases hr
        · exact glitch_ignored (findOrOpen_ignored h hr hopen hnone)
      · cases hr
  | stopSending fr =>
      change st.recvStopSending fr env = .ok st' at hr
      unfold Streams.recvStopSending at hr
      split at hr
      · exact glitch_ignored (findOrOpen_ignored h hr hopen hnone)
      · cases hr
  | maxStreamData fr =>
      change st.recvMaxStreamData fr env = .ok st' at hr
      unfold Streams.recvMaxStreamData at hr
      split at hr
      · exact glitch_ignored (findOrOpen_ignored h hr hopen hnone)
      · cases hr
  | streamDataBlocked fr =>
      change st.recvStreamDataBlocked fr env = .ok st' at hr
      unfold Streams.recvStreamDataBlocked at hr
      split at hr
      · cases findOrOpen_ignored h hr hopen hnone
        exact ⟨st.conn.glitchRlim, rfl⟩
      · cases hr

theorem checkStreamId_exceeds {conn : Conn} {id : Nat} (hremote : conn.localStream id = false) (he : Exceeds conn id)
    (localUni : Rv) : conn.checkStreamId id localUni = .streamLimit := by
  unfold Exceeds at he
  unfold Conn.checkStreamId
  rw [hremote]
  split
  · rename_i hb
    rw [if_pos hb] at he
    simp [he]
  · rename_i hb
    rw [if_neg hb] at he
    simp [he]

theorem checkTxStreamId_exceeds {st : Streams} {id : Nat} (hremote : st.conn.localStream id = false)
    (he : Exceeds st.conn id) :
    st.checkTxStreamId id = if bidiStream id = false then .streamState else .streamLimit := by
  unfold Exceeds at he
  unfold Streams.checkTxStreamId
  rw [hremote]
  split
  · rename_i hb
    rw [if_pos hb] at he
    simp [he, hb]
  · rename_i hb
    simp [hb]

theorem recv_limited {st : Streams} (fr : Frame) (env : RecvEnv) (hremote : st.conn.localStream fr.streamId = false)
    (he : Exceeds st.conn fr.streamId) :
    st.recv fr env =
      .error (.error (if fr.forSending ∧ bidiStream fr.streamId = false then .streamState else .streamLimit)) := by
  cases fr with
  | stream fr =>
      have hc : st.conn.checkStreamId fr.streamId .streamState = .streamLimit := checkStreamId_exceeds hremote he _
      simp [Streams.recv, Streams.recvStream, hc, Frame.forSending]
  | resetStream fr =>
      have hc : st.conn.checkStreamId fr.streamId .proto = .streamLimit := checkStreamId_exceeds hremote he _
      simp [Streams.recv, Streams.recvResetStream, hc, Frame.forSending]
  | stopSending fr =>
      have hc : st.checkTxStreamId fr.streamId = _ := checkTxStreamId_exceeds hremote he
      simp only [Streams.recv, Streams.recvStopSending, hc, Frame.forSending, Frame.streamId]
      cases bidiStream fr.streamId <;> simp
  | maxStreamData fr =>
      have hc : st.checkTxStreamId fr.streamId = _ := checkTxStreamId_exceeds hremote he
      simp only [Streams.recv, Streams.recvMaxStreamData, hc, Frame.forSending, Frame.streamId]
      cases bidiStream fr.streamId <;> simp
  | streamDataBlocked fr =>
      have hc : st.conn.checkStreamId fr.streamId .streamState = .streamLimit := checkStreamId_exceeds hremote he _
      simp [Streams.recv, Streams.recvStreamDataBlocked, hc, Frame.forSending]

theorem StreamsInv.orderly {st : Streams} (h : StreamsInv st) : Orderly st := by
  refine ⟨h.conn.history, fun id rv hm => (h.conn.history id).map_ok hm, fun id hid hremote => ?_,
    fun fr env st' hm hr => ?_, fun fr env hctl hremote he => ?_⟩
  · have hiff := (h.conn.history id).streamOpen_iff hremote
    rcases (marks_idtr h id).idtrOpen hid with ⟨hu, heq⟩ | ⟨hu, idtr, heq, -⟩
    · exact Or.inl ⟨hiff.mpr ((used_iff hremote).mp hu), heq⟩
    · exact Or.inr ⟨fun hm => hu ((used_iff hremote).mpr (hiff.mp hm)), idtr, heq⟩
  · obtain ⟨-, hr⟩ := streamsWhenIdle_ok hr
    obtain ⟨hopen, hnone⟩ := (h.conn.history fr.streamId).closed_of_mem hm
    exact recv_ignored h hopen hnone hr
  · simp only [Streams.step, Streams.whenIdle, hctl]
    exact recv_limited fr env hremote he

theorem findOrOpen_refines {st st' : Streams} {id : Nat} {env : RecvEnv} {precheck : Rv} {pending : Pending}
    {ignore : Conn → Except Stop Conn} {found : Strm → Except Stop Conn} (h : StreamsInv st) (hid : id ≤ maxVarint)
    (hr : st.findOrOpen id env precheck (.streamOpen pending) .nothing (st.lift (ignore st.conn))
      (fun strm => st.lift (found strm)) = .ok st') :
    st.conn.findOrOpen id env pending ignore found = .ok st'.conn ∧
      (st.conn.strms id = none → st.conn.localStream id = false → id ∉ st.conn.opened → precheck = .ok) := by
  have hlift : ∀ {r : Except Stop Conn}, st.lift r = .ok st' → r = .ok st'.conn := by
    intro r hl
    obtain ⟨conn', hok, rfl⟩ := lift_ok hl
    exact hok
  unfold Streams.findOrOpen at hr
  unfold Conn.findOrOpen
  cases hs : st.conn.strms id with
  | some strm =>
      rw [hs] at hr
      exact ⟨hlift hr, fun hn => by cases hn⟩
  | none =>
      rw [hs] at hr
      simp only at hr ⊢
      cases hl : st.conn.localStream id with
      | true =>
          rw [hl] at hr
          exact ⟨hlift hr, fun _ hn => by cases hn⟩
      | false =>
          rw [hl] at hr
          rcases (marks_idtr h id).idtrOpen hid with ⟨hu, heq⟩ | ⟨hu, idtr, heq, -⟩
          · rw [heq] at hr
            have hopen := (used_iff hl).mp hu
            exact ⟨by simpa [hopen] using hlift hr, fun _ _ hn => absurd hopen hn⟩
          · rw [heq] at hr
            have hnew : id ∉ st.conn.opened := fun hm => hu ((used_iff hl).mpr hm)
            simp only [Bool.false_eq_true, if_false] at hr
            split at hr
            · cases hr
            rename_i hcheck
            split at hr
            · cases hr
            rename_i hmem
            cases hr
            exact ⟨by simp [hnew, hmem], fun _ _ _ => by simpa using hcheck⟩

/-- With the trackers, the three frames of the receiving side do what they do in the model that keeps
the set of the used ids. -/
theorem recv_refines {st st' : Streams} (h : StreamsInv st) (env : RecvEnv) :
    (∀ fr : StreamFrame, fr.streamId ≤ maxVarint → st.recvStream fr env = .ok st' →
      st.conn.recvStream fr env = .ok st'.conn) ∧
    (∀ fr : ResetStream, fr.streamId ≤ maxVarint → st.recvResetStream fr env = .ok st' →
      st.conn.recvResetStream fr env = .ok st'.conn) ∧
    (∀ fr : StreamDataBlocked, fr.streamId ≤ maxVarint → st.recvStreamDataBlocked fr env = .ok st' →
      st.conn.recvStreamDataBlocked fr env = .ok st'.conn) := by
  refine ⟨fun fr hid hr => ?_, fun fr hid hr => ?_, fun fr hid hr => ?_⟩
  · unfold Streams.recvStream at hr
    unfold Conn.recvStream
    cases hc : st.conn.checkStreamId fr.streamId .streamState with
    | ok =>
        simp only [hc] at hr ⊢
        split at hr
        · cases hr
        · rename_i hv
          rw [if_neg hv]
          exact (@findOrOpen_refines st st' _ _ _ _ (fun conn => conn.glitch env.ts) _ h hid hr).1
    | _ =>
        simp only [hc] at hr
        cases hr
  · unfold Streams.recvResetStream at hr
    unfold Conn.recvResetStream
    cases hc : st.conn.checkStreamId fr.streamId .proto with
    | ok =>
        simp only [hc] at hr ⊢
        split at hr
        · cases hr
        · rename_i hv
          obtain ⟨href, hcheck⟩ := @findOrOpen_refines st st' _ _ _ _ (fun conn => conn.glitch env.ts) _ h hid hr
          rw [if_neg hv, if_neg, href]
          rintro ⟨hn, hl, hnew, hviol⟩
          have hok := hcheck hn hl hnew
          rw [if_pos hviol] at hok
          cases hok
    | _ =>
        simp only [hc] at hr
        cases hr
  · unfold Streams.recvStreamDataBlocked at hr
    unfold Conn.recvStreamDataBlocked
    cases hc : st.conn.checkStreamId fr.streamId .streamState with
    | ok =>
        simp only [hc] at hr ⊢
        exact (@findOrOpen_refines st st' _ _ _ _ (fun c => .ok c) _ h hid hr).1
    | _ =>
        simp only [hc] at hr
        cases hr

/-- In every run from a fresh connection the streams come and go in order. -/
theorem run_orderly (st st' : Streams) (events : List Event) (hinit : InitialStreams st)
    (hwire : ∀ e ∈ events, e.Wire) (hrun : run Streams.step st events = .ok st') : Orderly st' :=
  (run_preserves (fun s e s' hs hw hr => StreamsInv.step s e s' hs hw hr) hinit.inv
    (guarded_of_forall (fun e he _ => hwire e he) st) hrun).orderly

def serverStreams : Streams where
  conn := serverConn
  bidiIdtr := []
  uniIdtr := []
  remoteBidiUnsentMaxStreams := 10
  remoteUniUnsentMaxStreams := 10
  localUniMaxStreams := 10
  localUniNextStreamId := 3
  remoteParams := ⟨1000, 1000, 1000⟩
  txMaxOffset := fun _ => 0
  stopSendingRecved := fun _ => false
  after := .nothing

theorem serverStreams_initial : InitialStreams serverStreams :=
  ⟨rfl, rfl, fun _ => rfl, rfl, rfl, ⟨rfl, rfl⟩, by decide, by decide⟩

/-- STOP_SENDING opens the stream, FIN arrives, and the stream closes when the RESET_STREAM sent in
return is acknowledged; a late frame is ignored. -/
def stopThenFinish : List Event :=
  [.recv (.stopSending ⟨0⟩) freshEnv, .callbackReturns, .recv (.stream ⟨0, 0, [1], true⟩) freshEnv, .callbackReturns,
    .ackResetStream 0, .recv (.stream ⟨0, 0, [1], true⟩) freshEnv]

def callsAfter : Except Stop Streams → Option (List Call)
  | .ok st => some st.conn.calls
  | .error _ => none

theorem callsAfter_ok {r : Except Stop Streams} {calls : List Call} (h : callsAfter r = some calls) :
    ∃ st, r = .ok st ∧ st.conn.calls = calls := by
  cases r with
  | ok st => exact ⟨st, rfl, by simpa [callsAfter] using h⟩
  | error e => cases h

theorem run_orderly_stopThenFinish :
    ∃ st', run Streams.step serverStreams stopThenFinish = .ok st' ∧ Orderly st' ∧
      st'.conn.calls = [.insert 0 .ok, .streamOpen 0, .recvStreamData 0, .streamClose 0, .remove 0 .ok] := by
  obtain ⟨st', hrun, hcalls⟩ := callsAfter_ok (r := run Streams.step serverStreams stopThenFinish) (by with_unfolding_all rfl)
  refine ⟨st', hrun, run_orderly serverStreams st' stopThenFinish serverStreams_initial ?_ hrun, hcalls⟩
  simp [stopThenFinish, Event.Wire, Frame.streamId]

/-- STOP_SENDING for a unidirectional stream of the peer, far above the limit. -/
theorem stopSending_uni_not_streamLimit :
    serverStreams.conn.localStream 42 = false ∧ Exceeds serverStreams.conn 42 ∧
      serverStreams.step (.recv (.stopSending ⟨42⟩) freshEnv) = .error (.error .streamState) ∧
      serverStreams.step (.recv (.stopSending ⟨42⟩) freshEnv) ≠ .error (.error .streamLimit) := by
  have hstep : serverStreams.step (.recv (.stopSending ⟨42⟩) freshEnv) = .error (.error .streamState) := by
    with_unfolding_all rfl
  refine ⟨by decide, by unfold Exceeds; decide, hstep, ?_⟩
  rw [hstep]
  simp

end Zngtcp2.Rx
