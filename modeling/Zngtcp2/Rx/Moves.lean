import Zngtcp2.Rx.Step
import Zngtcp2.Conn.Release
import Zngtcp2.Lib.Run

namespace Zngtcp2.Rx

open Reorder Lib.Run

def Pending.streamId : Pending → Nat
  | .stream fr _ => fr.streamId
  | .reset fr _ => fr.streamId
  | .blocked fr => fr.streamId

/-- The stream whose callback the library is in, if what is left to do after it is about a stream. -/
def Ctl.stream : Ctl → Option Nat
  | .idle | .other => none
  | .streamOpen pending => some pending.streamId
  | .recvStreamData streamId _ _ => some streamId
  | .streamReset fr _ => some fr.streamId

def Call.streamId : Call → Nat
  | .insert id _ | .remove id _ | .streamOpen id | .recvStreamData id | .streamReset id | .streamClose id
  | .extendMaxStreamData id | .ackedStreamDataOffset id | .streamStopSending id => id

/-- The callbacks between the opening and the closing of a stream. -/
def Call.inner : Call → Bool
  | .insert _ _ | .remove _ _ | .streamOpen _ | .streamClose _ => false
  | _ => true

/-- Every stream is found under its own id. -/
def Keyed (conn : Conn) : Prop :=
  ∀ id strm, conn.strms id = some strm → strm.streamId = id

/-- What no step of the receiving side changes, all streams but one included. -/
structure Keeps (id : Nat) (conn conn' : Conn) : Prop where
  server : conn'.server = conn.server
  bidi : conn'.remoteBidiMaxStreams = conn.remoteBidiMaxStreams
  uni : conn'.remoteUniMaxStreams = conn.remoteUniMaxStreams
  keyed : Keyed conn → Keyed conn'
  others : ∀ x, x ≠ id → conn'.strms x = conn.strms x

/-- The set of the streams stays as it is, and so does the history of the calls. -/
structure Quiet (id : Nat) (conn conn' : Conn) : Prop extends Keeps id conn conn' where
  next : conn'.localBidiNextStreamId = conn.localBidiNextStreamId
  opened : conn'.opened = conn.opened
  present : (conn'.strms id).isSome = (conn.strms id).isSome
  calls : conn'.calls = conn.calls
  ctl : conn'.ctl = conn.ctl

/-- All that a step can do with one stream, but for opening it. -/
inductive Moves (id : Nat) (conn conn' : Conn) : Prop
  | keep (h : Keeps id conn conn') (hnext : conn'.localBidiNextStreamId = conn.localBidiNextStreamId)
      (hopened : conn'.opened = conn.opened) (hpresent : (conn'.strms id).isSome = (conn.strms id).isSome)
      (hcalls : conn'.calls = conn.calls) (hctl : conn'.ctl = .idle ∨ conn'.ctl = conn.ctl)
  | call (c : Call) (h : Keeps id conn conn') (hnext : conn'.localBidiNextStreamId = conn.localBidiNextStreamId)
      (hopened : conn'.opened = conn.opened) (hpresent : (conn'.strms id).isSome = (conn.strms id).isSome)
      (hc : c.inner = true) (hcid : c.streamId = id) (hid : (conn.strms id).isSome = true)
      (hcalls : conn'.calls = conn.calls ++ [c]) (hctl : conn'.ctl.stream = some id ∨ conn'.ctl = .other)
  | close (h : Keeps id conn conn') (hnext : conn'.localBidiNextStreamId = conn.localBidiNextStreamId)
      (hopened : conn'.opened = conn.opened) (hid : (conn.strms id).isSome = true) (hnone : conn'.strms id = none)
      (hcalls : conn'.calls = conn.calls ++ [.streamClose id, .remove id .ok]) (hctl : conn'.ctl = .idle)
      (hother : conn.ctl ≠ .other)

/-- A stream of the peer is opened. -/
structure Opens (id : Nat) (conn conn' : Conn) : Prop extends Keeps id conn conn' where
  next : conn'.localBidiNextStreamId = conn.localBidiNextStreamId
  remote : conn.localStream id = false
  fresh : id ∉ conn.opened
  none : conn.strms id = none
  opened : conn'.opened = insert id conn.opened
  present : (conn'.strms id).isSome = true
  calls : conn'.calls = conn.calls ++ [.insert id .ok, .streamOpen id]
  ctl : conn'.ctl.stream = some id ∨ conn'.ctl = .other

/-- A stream in the hands of a function, while one is stored under its id. -/
structure On (id : Nat) (conn : Conn) (strm : Strm) : Prop where
  streamId : strm.streamId = id
  present : (conn.strms id).isSome = true

variable {id : Nat}

theorem Keeps.refl (conn : Conn) : Keeps id conn conn :=
  ⟨rfl, rfl, rfl, fun hk => hk, fun _ _ => rfl⟩

theorem Keeps.trans {a b c : Conn} (h : Keeps id a b) (h' : Keeps id b c) : Keeps id a c :=
  ⟨h'.server.trans h.server, h'.bidi.trans h.bidi, h'.uni.trans h.uni, fun hk => h'.keyed (h.keyed hk),
    fun x hx => (h'.others x hx).trans (h.others x hx)⟩

theorem Keeps.localStream {conn conn' : Conn} (h : Keeps id conn conn') (x : Nat) :
    conn'.localStream x = conn.localStream x := by
  rw [Conn.localStream, Conn.localStream, h.server]

theorem Quiet.refl (conn : Conn) : Quiet id conn conn :=
  ⟨Keeps.refl conn, rfl, rfl, rfl, rfl, rfl⟩

theorem Keeps.of_eq {conn conn' : Conn} (hserver : conn'.server = conn.server)
    (hbidi : conn'.remoteBidiMaxStreams = conn.remoteBidiMaxStreams)
    (huni : conn'.remoteUniMaxStreams = conn.remoteUniMaxStreams) (hstrms : conn'.strms = conn.strms) :
    Keeps id conn conn' := by
  refine ⟨hserver, hbidi, huni, fun hk x strm hs => ?_, fun x _ => ?_⟩
  · rw [hstrms] at hs
    exact hk x strm hs
  · rw [hstrms]

theorem Quiet.of_eq {conn conn' : Conn} (hserver : conn'.server = conn.server)
    (hbidi : conn'.remoteBidiMaxStreams = conn.remoteBidiMaxStreams)
    (huni : conn'.remoteUniMaxStreams = conn.remoteUniMaxStreams)
    (hnext : conn'.localBidiNextStreamId = conn.localBidiNextStreamId) (hopened : conn'.opened = conn.opened)
    (hstrms : conn'.strms = conn.strms) (hcalls : conn'.calls = conn.calls) (hctl : conn'.ctl = conn.ctl) :
    Quiet id conn conn' :=
  ⟨Keeps.of_eq hserver hbidi huni hstrms, hnext, hopened, by rw [hstrms], hcalls, hctl⟩

theorem Quiet.trans {a b c : Conn} (h : Quiet id a b) (h' : Quiet id b c) : Quiet id a c :=
  ⟨h.toKeeps.trans h'.toKeeps, h'.next.trans h.next, h'.opened.trans h.opened, h'.present.trans h.present,
    h'.calls.trans h.calls, h'.ctl.trans h.ctl⟩

theorem Quiet.moves {a b c : Conn} (h : Quiet id a b) (hm : Moves id b c) : Moves id a c := by
  cases hm with
  | keep hk hnext hopened hpresent hcalls hctl =>
      exact .keep (h.toKeeps.trans hk) (hnext.trans h.next) (hopened.trans h.opened) (hpresent.trans h.present)
        (hcalls.trans h.calls) (by rwa [h.ctl] at hctl)
  | call k hk hnext hopened hpresent hc hcid hid hcalls hctl =>
      exact .call k (h.toKeeps.trans hk) (hnext.trans h.next) (hopened.trans h.opened) (hpresent.trans h.present) hc
        hcid (by rwa [h.present] at hid) (by rwa [h.calls] at hcalls) hctl
  | close hk hnext hopened hid hnone hcalls hctl hother =>
      exact .close (h.toKeeps.trans hk) (hnext.trans h.next) (hopened.trans h.opened) (by rwa [h.present] at hid)
        hnone (by rwa [h.calls] at hcalls) hctl (by rwa [h.ctl] at hother)

theorem Quiet.keep {conn conn' : Conn} (h : Quiet id conn conn') : Moves id conn conn' :=
  .keep h.toKeeps h.next h.opened h.present h.calls (Or.inr h.ctl)

/-- The end of a callback, or nothing. -/
theorem Moves.idle {conn conn' : Conn} (h : Moves id { conn with ctl := .idle } conn') (hctl : conn.ctl ≠ .other) :
    Moves id conn conn' := by
  cases h with
  | keep hk hnext hopened hpresent hcalls hidle =>
      exact .keep ⟨hk.server, hk.bidi, hk.uni, hk.keyed, hk.others⟩ hnext hopened hpresent hcalls
        (Or.inl (by simpa using hidle))
  | call k hk hnext hopened hpresent hc hcid hid hcalls hc' =>
      exact .call k ⟨hk.server, hk.bidi, hk.uni, hk.keyed, hk.others⟩ hnext hopened hpresent hc hcid hid hcalls hc'
  | close hk hnext hopened hid hnone hcalls hidle _ =>
      exact .close ⟨hk.server, hk.bidi, hk.uni, hk.keyed, hk.others⟩ hnext hopened hid hnone hcalls hidle hctl

theorem Moves.keeps {conn conn' : Conn} (h : Moves id conn conn') : Keeps id conn conn' := by
  cases h with
  | keep hk => exact hk
  | call _ hk => exact hk
  | close hk => exact hk

theorem Moves.next {conn conn' : Conn} (h : Moves id conn conn') :
    conn'.localBidiNextStreamId = conn.localBidiNextStreamId := by
  cases h with
  | keep _ hn => exact hn
  | call _ _ hn => exact hn
  | close _ hn => exact hn

theorem Moves.opened {conn conn' : Conn} (h : Moves id conn conn') : conn'.opened = conn.opened := by
  cases h with
  | keep _ _ ho => exact ho
  | call _ _ _ ho => exact ho
  | close _ _ ho => exact ho

theorem On.quiet {conn conn' : Conn} {strm : Strm} (h : On id conn strm) (hq : Quiet id conn conn') :
    On id conn' strm :=
  ⟨h.streamId, by rw [hq.present, h.present]⟩

namespace Conn

theorem quiet_glitch {conn conn' : Conn} {ts : Nat} (hg : conn.glitch ts = .ok conn') : Quiet id conn conn' := by
  unfold glitch at hg
  split at hg
  · cases hg
  · cases hg
    exact Quiet.of_eq rfl rfl rfl rfl rfl rfl rfl rfl
  · cases hg

theorem quiet_glitchUnless {conn conn' : Conn} {isNew : Bool} {ts : Nat} (hg : conn.glitchUnless isNew ts = .ok conn') :
    Quiet id conn conn' := by
  unfold glitchUnless at hg
  split at hg
  · cases hg
    exact Quiet.refl conn
  · exact quiet_glitch hg

theorem quiet_release (conn : Conn) (rels : List Release) : Quiet id conn (conn.release rels) :=
  Quiet.of_eq rfl rfl rfl rfl rfl rfl rfl rfl

theorem quiet_credit (conn : Conn) (x n : Nat) : Quiet id conn (conn.credit x n) :=
  Quiet.of_eq rfl rfl rfl rfl rfl rfl rfl rfl

theorem quiet_account (conn : Conn) (strm : Strm) (endOffset : Nat) : Quiet id conn (conn.account strm endOffset) := by
  unfold account
  split
  · split <;> exact Quiet.of_eq rfl rfl rfl rfl rfl rfl rfl rfl
  · exact Quiet.refl conn

theorem quiet_sendMaxData (conn : Conn) (ts rtt : Nat) : Quiet id conn (conn.sendMaxData ts rtt) := by
  unfold sendMaxData
  split
  · simp only
    split
    · exact Quiet.of_eq rfl rfl rfl rfl rfl rfl rfl rfl
    · exact Quiet.of_eq rfl rfl rfl rfl rfl rfl rfl rfl
  · exact Quiet.refl conn

theorem setStrm_self (conn : Conn) (strm : Strm) : (conn.setStrm strm).strms strm.streamId = some strm :=
  Function.update_self _ _ _

theorem setStrm_of_ne (conn : Conn) {strm : Strm} {id : Nat} (hne : id ≠ strm.streamId) :
    (conn.setStrm strm).strms id = conn.strms id :=
  Function.update_of_ne hne _ _

theorem quiet_setStrm {conn : Conn} {strm : Strm} (hid : On id conn strm) : Quiet id conn (conn.setStrm strm) := by
  obtain ⟨rfl, hsome⟩ := hid
  refine ⟨⟨rfl, rfl, rfl, fun hk x s hs => ?_, fun x hx => setStrm_of_ne conn hx⟩, rfl, rfl, ?_, rfl, rfl⟩
  · by_cases heq : x = strm.streamId
    · subst heq
      rw [setStrm_self, Option.some.injEq] at hs
      rw [← hs]
    · rw [setStrm_of_ne conn heq] at hs
      exact hk x s hs
  · rw [setStrm_self, hsome]
    rfl

theorem on_setStrm (conn : Conn) {strm : Strm} (hsid : strm.streamId = id) : On id (conn.setStrm strm) strm := by
  subst hsid
  refine ⟨rfl, ?_⟩
  rw [setStrm_self]
  rfl

theorem closeStream_moves {conn : Conn} {strm : Strm} (hid : On id conn strm) (hctl : conn.ctl = .idle) :
    Moves id conn (conn.closeStream strm) := by
  obtain ⟨rfl, hsome⟩ := hid
  refine .close ⟨rfl, rfl, rfl, fun hk x s hs => ?_, fun x hx => ?_⟩ rfl rfl hsome ?_ ?_ hctl (by rw [hctl]; simp)
  · by_cases heq : x = strm.streamId
    · subst heq
      simp only [closeStream, Function.update_self] at hs
      cases hs
    · simp only [closeStream, Function.update_of_ne heq] at hs
      exact hk x s hs
  · simp only [closeStream, Function.update_of_ne hx]
  · simp only [closeStream, Function.update_self]
  · simp only [closeStream, hsome, if_true]

theorem closeIf_moves {conn : Conn} {strm : Strm} (hid : On id conn strm)
    (hctl : conn.ctl = .idle) : Moves id conn (conn.closeStreamIfShutRdwr strm) := by
  unfold closeStreamIfShutRdwr
  split
  · exact closeStream_moves hid hctl
  · exact (Quiet.refl conn).keep

theorem setStrm_closeIf_moves {conn : Conn} {strm : Strm} (hid : On id conn strm)
    (hctl : conn.ctl = .idle) : Moves id conn ((conn.setStrm strm).closeStreamIfShutRdwr strm) :=
  (quiet_setStrm hid).moves (closeIf_moves (on_setStrm conn hid.streamId) hctl)

/-- The same at the end of a callback. -/
theorem closeIf_idle_moves {conn : Conn} {strm : Strm} (hid : On id conn strm)
    (hctl : conn.ctl ≠ .other) : Moves id conn { conn.closeStreamIfShutRdwr strm with ctl := .idle } := by
  have heq : ({ conn.closeStreamIfShutRdwr strm with ctl := .idle } : Conn) =
      ({ conn with ctl := .idle } : Conn).closeStreamIfShutRdwr strm := by
    unfold closeStreamIfShutRdwr
    split <;> rfl
  rw [heq]
  exact Moves.idle (closeIf_moves ⟨hid.streamId, hid.present⟩ rfl) hctl

theorem callRecvStreamData_moves {conn : Conn} {strm : Strm} (hid : On id conn strm)
    (offset : Nat) (data : List UInt8) (rxOffset : Nat) (popping : Option (Nat × Nat)) :
    Moves id conn (conn.callRecvStreamData strm offset data rxOffset popping) :=
  .call (.recvStreamData strm.streamId) (Keeps.of_eq rfl rfl rfl rfl) rfl rfl rfl rfl hid.streamId hid.present rfl
    (Or.inl (by rw [← hid.streamId]; rfl))

theorem emitPendingStreamData_moves {conn conn' : Conn} {strm : Strm} {rxOffset : Nat}
    (he : conn.emitPendingStreamData strm rxOffset = .ok conn')
    (hid : On id conn strm) (hctl : conn.ctl ≠ .other) : Moves id conn conn' := by
  unfold emitPendingStreamData at he
  split at he
  · cases he
    exact closeIf_idle_moves hid hctl
  · split at he
    · cases he
      exact closeIf_idle_moves hid hctl
    · split at he
      · cases he
      · split at he
        · cases he
          exact closeIf_idle_moves hid hctl
        · cases he
      · cases he
        exact callRecvStreamData_moves hid _ _ _ _

theorem returnRecvStreamData_moves {conn conn' : Conn} {strm : Strm} {rxOffset : Nat} {popping : Option (Nat × Nat)}
    (he : conn.returnRecvStreamData strm rxOffset popping = .ok conn')
    (hid : On id conn strm) (hctl : conn.ctl ≠ .other) : Moves id conn conn' := by
  cases popping with
  | none => exact emitPendingStreamData_moves he hid hctl
  | some p =>
      unfold returnRecvStreamData at he
      simp only at he
      split at he
      · cases he
        exact closeIf_idle_moves hid hctl
      · split at he
        · cases he
        · rename_i released _
          refine Quiet.moves (Quiet.trans (quiet_release conn released) (quiet_setStrm ?_))
            (emitPendingStreamData_moves he (on_setStrm _ hid.streamId) hctl)
          exact ⟨hid.streamId, hid.present⟩

theorem takeInOrder_streamId (strm : Strm) (fr : StreamFrame) (rxOffset : Nat) :
    (takeInOrder strm fr rxOffset).1.streamId = strm.streamId := by
  unfold takeInOrder
  split
  · rfl
  · cases h : strm.reorder <;> simp [Strm.updateRxOffset, h]

theorem deliverInOrder_moves {conn conn' : Conn} {strm : Strm} {fr : StreamFrame} {rxOffset : Nat}
    (hd : conn.deliverInOrder strm fr rxOffset = .ok conn')
    (hid : On id conn strm) (hctl : conn.ctl = .idle) : Moves id conn conn' := by
  have hsid : (takeInOrder strm fr rxOffset).1.streamId = id := by
    rw [takeInOrder_streamId, hid.streamId]
  have hq : Quiet id conn ((conn.release (takeInOrder strm fr rxOffset).2.1).setStrm (takeInOrder strm fr rxOffset).1) :=
    (quiet_release conn _).trans (quiet_setStrm ⟨hsid, hid.present⟩)
  unfold deliverInOrder at hd
  simp only at hd
  split at hd
  · cases hd
    exact hq.moves (closeIf_moves (on_setStrm _ hsid) hctl)
  · split at hd
    · cases hd
      exact hq.moves (callRecvStreamData_moves (on_setStrm _ hsid) _ _ _ _)
    · cases hd

theorem connRecvReordering_streamId (stats : BufStats) (strm : Strm) (data : List UInt8) (offset : Nat)
    (env : ReorderEnv) : (connRecvReordering stats strm data offset env).strm.streamId = strm.streamId := by
  rcases Release.connRecvReordering_strm stats strm data offset env with heq | ⟨-, -, buf, owned, -, heq⟩
  · rw [heq]
  · rw [heq]

theorem bufferStream_moves {conn conn' : Conn} {strm : Strm} {fr : StreamFrame} {env : RecvEnv}
    (hd : conn.bufferStream strm fr env = .ok conn')
    (hid : On id conn strm) (hctl : conn.ctl = .idle) : Moves id conn conn' := by
  set strm' := (connRecvReordering conn.stats strm fr.data fr.offset env.reorder).strm with hstrm'
  have hsid : strm'.streamId = id := by
    rw [hstrm', connRecvReordering_streamId, hid.streamId]
  have hq : Quiet id conn { conn.setStrm strm' with
      stats := (connRecvReordering conn.stats strm fr.data fr.offset env.reorder).stats } :=
    (quiet_setStrm ⟨hsid, hid.present⟩).trans (Quiet.of_eq rfl rfl rfl rfl rfl rfl rfl rfl)
  have hon : On id { conn.setStrm strm' with
      stats := (connRecvReordering conn.stats strm fr.data fr.offset env.reorder).stats } strm' :=
    ⟨hsid, (on_setStrm conn hsid).present⟩
  unfold bufferStream at hd
  simp only [← hstrm'] at hd
  split at hd
  · cases hd
  · split at hd
    · split at hd
      · cases hd
      · rename_i conn₁ hg
        cases hd
        have hq₁ : Quiet id _ conn₁ := quiet_glitch hg
        refine (hq.trans hq₁).moves (closeIf_moves (hon.quiet hq₁) ?_)
        rw [hq₁.ctl]
        exact hctl
    · cases hd
      exact hq.moves (closeIf_moves hon hctl)

theorem deliverStream_moves {conn conn' : Conn} {strm : Strm} {fr : StreamFrame} {rxOffset : Nat} {env : RecvEnv}
    (hd : conn.deliverStream strm fr rxOffset env = .ok conn')
    (hid : On id conn strm) (hctl : conn.ctl = .idle) : Moves id conn conn' := by
  unfold deliverStream at hd
  split at hd
  · exact deliverInOrder_moves hd hid hctl
  · split at hd
    · exact bufferStream_moves hd hid hctl
    · cases hd
      exact setStrm_closeIf_moves hid hctl

theorem recvStreamOn_moves {conn conn' : Conn} {strm : Strm} {fr : StreamFrame} {isNew : Bool} {env : RecvEnv}
    (hr : conn.recvStreamOn strm fr isNew env = .ok conn')
    (hid : On id conn strm) (hctl : conn.ctl = .idle) : Moves id conn conn' := by
  have hq : Quiet id conn _ := quiet_account conn strm fr.endOffset
  have hid' := hid.quiet hq
  have hctl' : (conn.account strm fr.endOffset).ctl = .idle := by rwa [hq.ctl]
  unfold recvStreamOn at hr
  split at hr
  · cases hr
  split at hr
  · cases hr
  simp only at hr
  split at hr
  · split at hr
    · split at hr
      · cases hr
      split at hr
      · exact (hq.trans (quiet_glitch hr)).keep
      split at hr
      · exact (hq.trans (quiet_glitchUnless hr)).keep
      · exact hq.moves (deliverStream_moves hr hid' hctl')
    · split at hr
      · cases hr
      · exact hq.moves (deliverStream_moves hr ⟨hid'.streamId, hid'.present⟩ hctl')
  · split at hr
    · cases hr
    split at hr
    · refine (hq.trans (Quiet.trans (quiet_setStrm ?_) (quiet_glitchUnless hr))).keep
      exact ⟨hid'.streamId, hid'.present⟩
    split at hr
    · refine (hq.trans (Quiet.trans (quiet_setStrm ?_) (quiet_glitch hr))).keep
      exact ⟨hid'.streamId, hid'.present⟩
    · exact hq.moves (deliverStream_moves hr ⟨hid'.streamId, hid'.present⟩ hctl')

theorem recvResetStreamOn_moves {conn conn' : Conn} {strm : Strm} {fr : ResetStream} {env : RecvEnv}
    (hr : conn.recvResetStreamOn strm fr env = .ok conn')
    (hid : fr.streamId = id) (hsome : (conn.strms id).isSome = true) : Moves id conn conn' := by
  subst hid
  unfold recvResetStreamOn at hr
  split at hr
  · cases hr
  split at hr
  · cases hr
  split at hr
  · exact (quiet_glitch hr).keep
  split at hr
  · cases hr
  simp only at hr
  split at hr
  · cases hr
  · cases hr
    exact .call (.streamReset fr.streamId) (Keeps.of_eq rfl rfl rfl rfl) rfl rfl rfl rfl rfl hsome rfl (Or.inl rfl)

theorem returnStreamReset_moves {conn : Conn} {strm : Strm} {fr : ResetStream} {datalen : Nat}
    (hid : On id conn strm) (hctl : conn.ctl ≠ .other) :
    Moves id conn (conn.returnStreamReset strm fr datalen) := by
  unfold returnStreamReset
  set conn₁ := if strm.stopSending then conn else conn.credit strm.streamId (strm.lastOffset - strm.rxOffset) with h₁
  have hq₁ : Quiet id conn conn₁ := by
    rw [h₁]
    split
    · exact Quiet.refl conn
    · exact quiet_credit conn _ _
  have hq₂ : Quiet id conn₁ { conn₁ with offset := conn₁.offset + datalen } :=
    Quiet.of_eq rfl rfl rfl rfl rfl rfl rfl rfl
  have hq := (hq₁.trans hq₂).trans (quiet_credit _ strm.streamId datalen)
  refine Quiet.moves (hq.trans (quiet_setStrm ?_)) (closeIf_idle_moves (on_setStrm _ hid.streamId) ?_)
  · exact ⟨hid.streamId, (hid.quiet hq).present⟩
  · change conn₁.ctl ≠ .other
    rwa [hq₁.ctl]

theorem recvStreamDataBlockedOn_moves {conn conn' : Conn} {strm : Strm} {fr : StreamDataBlocked}
    (hr : conn.recvStreamDataBlockedOn strm fr = .ok conn')
    (hid : On id conn strm) : Moves id conn conn' := by
  unfold recvStreamDataBlockedOn at hr
  split at hr
  · cases hr
  split at hr
  · cases hr
    exact (Quiet.refl conn).keep
  split at hr
  · cases hr
  split at hr
  · cases hr
  · cases hr
    have hq : Quiet id conn _ := quiet_account conn strm fr.offset
    refine (hq.trans (quiet_setStrm ?_)).keep
    exact ⟨hid.streamId, (hid.quiet hq).present⟩

theorem initStream_isSome (conn : Conn) (id : Nat) : ((conn.initStream id).strms id).isSome = true := by
  simp [initStream, setStrm, newStrm]

theorem initStream_of_ne (conn : Conn) {id x : Nat} (hx : x ≠ id) : (conn.initStream id).strms x = conn.strms x := by
  simp [initStream, setStrm, newStrm, hx]

theorem keyed_initStream {conn : Conn} (hk : Keyed conn) (id : Nat) : Keyed (conn.initStream id) := by
  intro x strm hs
  by_cases hx : x = id
  · subst hx
    simp only [initStream, setStrm, newStrm, Function.update_self, Option.some.injEq] at hs
    rw [← hs]
  · simp only [initStream, setStrm, newStrm, Function.update_of_ne hx] at hs
    exact hk x strm hs

theorem opens_initStream {conn : Conn} {id : Nat} (hremote : conn.localStream id = false) (hnew : id ∉ conn.opened)
    (hnone : conn.strms id = none) {ctl : Ctl} (hctl : ctl.stream = some id ∨ ctl = .other) :
    Opens id conn { conn.initStream id with calls := (conn.initStream id).calls ++ [.streamOpen id], ctl := ctl } := by
  refine ⟨⟨rfl, rfl, rfl, fun hk => keyed_initStream hk id, fun x hx => initStream_of_ne conn hx⟩, rfl, hremote, hnew,
    hnone, rfl, initStream_isSome conn id, ?_, hctl⟩
  simp [initStream, hnone]

theorem findOrOpen_moves {conn conn' : Conn} {id : Nat} {env : RecvEnv} {pending : Pending}
    {ignore : Conn → Except Stop Conn} {found : Strm → Except Stop Conn}
    (hr : conn.findOrOpen id env pending ignore found = .ok conn') (hid : pending.streamId = id)
    (hignore : ∀ c, ignore conn = .ok c → Moves id conn c)
    (hfound : ∀ strm c, conn.strms id = some strm → found strm = .ok c → Moves id conn c) :
    Moves id conn conn' ∨ Opens id conn conn' := by
  unfold findOrOpen at hr
  split at hr
  · rename_i strm hs
    exact Or.inl (hfound strm conn' hs hr)
  · rename_i hnone
    split at hr
    · exact Or.inl (hignore conn' hr)
    rename_i hremote
    split at hr
    · exact Or.inl (hignore conn' hr)
    rename_i hnew
    split at hr
    · cases hr
    · cases hr
      exact Or.inr (opens_initStream (by simpa using hremote) hnew hnone (Or.inl (by rw [Ctl.stream, hid])))

theorem stopReading_quiet {conn : Conn} {strm : Strm} (hid : On id conn strm) : Quiet id conn (conn.stopReading strm) := by
  unfold stopReading
  have hsid : ({ strm with stopSending := true } : Strm).discardReorderedData.1.streamId = id := by
    rw [← hid.streamId]
    cases strm.reorder <;> simp [Strm.discardReorderedData]
  exact ((quiet_credit conn _ _).trans (quiet_release _ _)).trans (quiet_setStrm ⟨hsid, hid.present⟩)

theorem on_of_some {conn : Conn} (hk : Keyed conn) {strm : Strm} (hs : conn.strms id = some strm) : On id conn strm :=
  ⟨hk id strm hs, by rw [hs]; rfl⟩

theorem quiet_shutdownStreamRead {conn : Conn} (hk : Keyed conn) (id : Nat) : Quiet id conn (conn.shutdownStreamRead id) := by
  unfold shutdownStreamRead
  split
  · exact Quiet.refl conn
  · split
    · exact Quiet.refl conn
    · rename_i hs
      split
      · exact stopReading_quiet (on_of_some hk hs)
      · exact Quiet.refl conn

theorem quiet_extendMaxStreamOffset {conn : Conn} (hk : Keyed conn) (id n : Nat) :
    Quiet id conn (conn.extendMaxStreamOffset id n) := by
  unfold extendMaxStreamOffset
  split
  · exact Quiet.refl conn
  · split
    · exact Quiet.refl conn
    · rename_i hs
      have hid := on_of_some hk hs
      apply quiet_setStrm
      exact ⟨hid.streamId, hid.present⟩

theorem quiet_sendMaxStreamData {conn : Conn} (hk : Keyed conn) (id delta : Nat) :
    Quiet id conn (conn.sendMaxStreamData id delta) := by
  unfold sendMaxStreamData
  split
  · exact Quiet.refl conn
  · rename_i hs
    have hid := on_of_some hk hs
    apply quiet_setStrm
    exact ⟨hid.streamId, hid.present⟩

theorem sendSide_moves {conn : Conn} (hk : Keyed conn) (id : Nat) (shutWr resetStream resetStreamAcked txDataFinAcked : Bool) :
    Moves id conn (conn.sendSide id shutWr resetStream resetStreamAcked txDataFinAcked) := by
  unfold sendSide
  split
  · exact (Quiet.refl conn).keep
  · rename_i strm hs
    have hid := on_of_some hk hs
    simp only
    split
    · rename_i hctl
      apply setStrm_closeIf_moves _ hctl
      exact ⟨hid.streamId, hid.present⟩
    · apply Quiet.keep (quiet_setStrm _)
      exact ⟨hid.streamId, hid.present⟩

/-- Inside a callback the stream stays. -/
theorem sendSide_ctl (conn : Conn) (id : Nat) (shutWr resetStream resetStreamAcked txDataFinAcked : Bool)
    (hctl : conn.ctl ≠ .idle) : (conn.sendSide id shutWr resetStream resetStreamAcked txDataFinAcked).ctl = conn.ctl := by
  unfold sendSide
  split
  · rfl
  · simp only
    rfl

end Conn

/-- The stream that a step is about. -/
def Input.stream (conn : Conn) : Input → Option Nat
  | .recvStream fr _ => some fr.streamId
  | .recvResetStream fr _ => some fr.streamId
  | .recvStreamDataBlocked fr _ => some fr.streamId
  | .callbackReturns => conn.ctl.stream
  | .shutdownStreamRead streamId => some streamId
  | .extendMaxStreamOffset streamId _ => some streamId
  | .sendSide streamId _ _ _ _ => some streamId
  | .sendMaxStreamData streamId _ => some streamId
  | .openBidiStream => some conn.localBidiNextStreamId
  | .extendMaxOffset _ | .sendMaxData _ _ => none

theorem callbackReturns_moves {conn conn' : Conn} (hk : Keyed conn) (hid : conn.ctl.stream = some id ∨ conn.ctl.stream = none)
    (hr : callbackReturns conn = .ok conn') : Moves id conn conn' := by
  unfold callbackReturns at hr
  split at hr
  · cases hr
  · rename_i pending hctl
    have hne : conn.ctl ≠ .other := by
      rw [hctl]
      simp
    have hpid : pending.streamId = id := by simpa [hctl, Ctl.stream] using hid
    refine Moves.idle ?_ hne
    simp only at hr
    split at hr
    · split at hr
      · cases hr
      · rename_i hs
        rw [← hpid]
        exact Conn.recvStreamOn_moves hr ⟨hk _ _ hs, by rw [Pending.streamId, hs]; rfl⟩ rfl
    · split at hr
      · cases hr
      · rename_i hs
        rw [← hpid]
        exact Conn.recvResetStreamOn_moves hr rfl (by rw [Pending.streamId, hs]; rfl)
    · split at hr
      · cases hr
      · rename_i hs
        rw [← hpid]
        exact Conn.recvStreamDataBlockedOn_moves hr ⟨hk _ _ hs, by rw [Pending.streamId, hs]; rfl⟩
  · rename_i x rx popping hctl
    have hx : x = id := by simpa [hctl, Ctl.stream] using hid
    subst hx
    split at hr
    · cases hr
    · rename_i hs
      exact Conn.returnRecvStreamData_moves hr (Conn.on_of_some hk hs) (by rw [hctl]; simp)
  · rename_i fr datalen hctl
    have hx : fr.streamId = id := by simpa [hctl, Ctl.stream] using hid
    subst hx
    split at hr
    · cases hr
    · rename_i hs
      cases hr
      exact Conn.returnStreamReset_moves (Conn.on_of_some hk hs) (by rw [hctl]; simp)
  · cases hr
    exact .keep (Keeps.of_eq rfl rfl rfl rfl) rfl rfl rfl rfl (Or.inl rfl)

/-- The inversion of a step, but for the opening of a local stream. -/
theorem step_moves {conn conn' : Conn} {input : Input} (hk : Keyed conn) (hlocal : input ≠ .openBidiStream)
    (hid : input.stream conn = some id ∨ input.stream conn = none) (hr : step conn input = .ok conn') :
    Moves id conn conn' ∨ Opens id conn conn' := by
  cases input with
  | recvStream fr env =>
      obtain ⟨hctl, hr⟩ := whenIdle_ok hr
      have hx : fr.streamId = id := by simpa [Input.stream] using hid
      subst hx
      unfold Conn.recvStream at hr
      split at hr
      · split at hr
        · cases hr
        · exact Conn.findOrOpen_moves hr rfl (fun c hc => (Conn.quiet_glitch hc).keep)
            (fun strm c hs hc => Conn.recvStreamOn_moves hc (Conn.on_of_some hk hs) hctl)
      · cases hr
  | recvResetStream fr env =>
      obtain ⟨hctl, hr⟩ := whenIdle_ok hr
      have hx : fr.streamId = id := by simpa [Input.stream] using hid
      subst hx
      unfold Conn.recvResetStream at hr
      split at hr
      · split at hr
        · cases hr
        · split at hr
          · cases hr
          · exact Conn.findOrOpen_moves hr rfl (fun c hc => (Conn.quiet_glitch hc).keep)
              (fun strm c hs hc => Conn.recvResetStreamOn_moves hc rfl (by rw [hs]; rfl))
      · cases hr
  | recvStreamDataBlocked fr env =>
      obtain ⟨hctl, hr⟩ := whenIdle_ok hr
      have hx : fr.streamId = id := by simpa [Input.stream] using hid
      subst hx
      unfold Conn.recvStreamDataBlocked at hr
      split at hr
      · refine Conn.findOrOpen_moves hr rfl (fun c hc => ?_)
          (fun strm c hs hc => Conn.recvStreamDataBlockedOn_moves hc (Conn.on_of_some hk hs))
        cases hc
        exact (Quiet.refl conn).keep
      · cases hr
  | callbackReturns => exact Or.inl (callbackReturns_moves hk hid hr)
  | shutdownStreamRead x =>
      cases hr
      have hx : x = id := by simpa [Input.stream] using hid
      subst hx
      exact Or.inl (Conn.quiet_shutdownStreamRead hk x).keep
  | extendMaxOffset n =>
      cases hr
      left
      exact Quiet.keep (Quiet.of_eq rfl rfl rfl rfl rfl rfl rfl rfl)
  | extendMaxStreamOffset x n =>
      cases hr
      have hx : x = id := by simpa [Input.stream] using hid
      subst hx
      exact Or.inl (Conn.quiet_extendMaxStreamOffset hk x n).keep
  | openBidiStream => exact absurd rfl hlocal
  | sendSide x shutWr resetStream resetStreamAcked txDataFinAcked =>
      cases hr
      have hx : x = id := by simpa [Input.stream] using hid
      subst hx
      exact Or.inl (Conn.sendSide_moves hk x _ _ _ _)
  | sendMaxData ts rtt =>
      obtain ⟨-, hr⟩ := whenIdle_ok hr
      cases hr
      exact Or.inl (Conn.quiet_sendMaxData conn ts rtt).keep
  | sendMaxStreamData x delta =>
      obtain ⟨-, hr⟩ := whenIdle_ok hr
      cases hr
      have hx : x = id := by simpa [Input.stream] using hid
      subst hx
      exact Or.inl (Conn.quiet_sendMaxStreamData hk x delta).keep

end Zngtcp2.Rx
