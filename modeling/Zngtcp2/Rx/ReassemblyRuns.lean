import Zngtcp2.Rx.Reassembly
import Zngtcp2.Rx.Conservation
import Zngtcp2.Rx.Crypto

namespace Zngtcp2.Rx

open Reorder Reassembly Lib.Run

/-- The connection with the history of the STREAM frames it received. -/
structure Logged where
  conn : Conn
  frames : List StreamFrame

def Logged.add (st : Logged) (conn : Conn) : Input → Logged
  | .recvStream fr _ => ⟨conn, st.frames ++ [fr]⟩
  | _ => ⟨conn, st.frames⟩

def stepLogged (st : Logged) (input : Input) : Except Stop Logged :=
  match step st.conn input with
  | .error e => .error e
  | .ok conn => .ok (st.add conn input)

/-- The stream object that a frame for the stream meets, a new one if the stream is not known yet. -/
def target (conn : Conn) (sid : Nat) : Option Strm :=
  if conn.localStream sid = true ∨ sid ∈ conn.opened then conn.strms sid else some (conn.newStrm sid)

/-- A frame of the stream `sid` that carries its part of `S`, within the limits, while nothing it
needs is out of memory or exhausted. -/
structure Admissible (S : List UInt8) (sid : Nat) (conn : Conn) (fr : StreamFrame) (env : RecvEnv) : Prop where
  idle : conn.ctl = .idle
  id : fr.streamId = sid
  frame : FrameOf S fr
  allowed : conn.checkStreamId sid .streamState = .ok
  glitch : conn.glitchRlim.CanDrain 1 env.ts
  strmMem : env.strmMem = true
  accepts : ∀ strm, target conn sid = some strm → Accepts conn strm fr env

/-- The events around a stream that is neither stopped nor reset: its frames, the returns of the
callbacks, and what moves the windows or the sending side. -/
def Allowed (S : List UInt8) (sid : Nat) (st : Logged) : Input → Prop
  | .recvStream fr env => Admissible S sid st.conn fr env
  | .callbackReturns => st.conn.ctl ≠ .idle
  | .extendMaxOffset _ => True
  | .extendMaxStreamOffset id _ => id = sid
  | .sendSide id _ _ _ _ => id = sid
  | .sendMaxData _ _ => st.conn.ctl = .idle
  | .sendMaxStreamData id _ => id = sid ∧ st.conn.ctl = .idle
  | .recvResetStream _ _ | .recvStreamDataBlocked _ _ | .shutdownStreamRead _ | .openBidiStream => False

/-- No frame has to be cut around data that is already buffered. -/
def NoSplit (sid : Nat) (st : Logged) : Input → Prop
  | .recvStream fr _ => ∀ strm, target st.conn sid = some strm → Unsplit strm fr
  | _ => True

/-- The stream before its first frame: not yet opened by the peer, or opened here and untouched. -/
structure Fresh (conn : Conn) (sid : Nat) : Prop where
  ctl : conn.ctl = .idle
  calls : callsFor sid conn.delivered = []
  state : (conn.strms sid = none ∧ conn.localStream sid = false ∧ sid ∉ conn.opened) ∨
    ∃ strm, conn.strms sid = some strm ∧ Known conn sid ∧ strm.streamId = sid ∧ strm.contOffset = 0 ∧
      strm.lastOffset = 0 ∧ strm.reorder = none ∧ strm.shutRd = false ∧ strm.stopSending = false ∧
      strm.resetStreamRecved = false

inductive Phase (S : List UInt8) (sid : Nat) (st : Logged) : Prop
  | unopened (hfresh : Fresh st.conn sid) (hnone : st.conn.strms sid = none)
      (hremote : st.conn.localStream sid = false) (hnew : sid ∉ st.conn.opened) (hframes : st.frames = [])
  | opening (fr : StreamFrame) (env : RecvEnv) (strm : Strm) (hctl : st.conn.ctl = .streamOpen (.stream fr env))
      (hid : fr.streamId = sid) (hframes : st.frames = [fr]) (hfr : FrameOf S fr)
      (hlive : Live S sid { st.conn with ctl := .idle } [] strm 0) (hacc : Accepts st.conn strm fr env)
      (hu : Unsplit strm fr)
  | proceeds (h : Proceeds S sid st.conn st.frames)

/-- What the calls for the stream have passed on. Outside of the callbacks it is the longest prefix
of `S` that has arrived, with FIN if it is all of `S` and FIN has arrived. -/
structure Reassembled (S : List UInt8) (sid n : Nat) (done : Prop) (st : Logged) : Prop where
  delivers : Delivers S (callsFor sid st.conn.delivered) n done
  fin : done → (∃ fr ∈ st.frames, fr.fin = true) ∧ n = S.length
  arrived : ∀ o, o < n → InSomePush (st.frames.map StreamFrame.chunk) o
  longest : st.conn.ctl = .idle → ¬ InSomePush (st.frames.map StreamFrame.chunk) n
  complete : st.conn.ctl = .idle → (∃ fr ∈ st.frames, fr.fin = true) → n = S.length → done

theorem fresh_live {conn : Conn} {sid : Nat} (S : List UInt8) {strm : Strm} (hctl : conn.ctl = .idle)
    (hcalls : callsFor sid conn.delivered = []) (hs : conn.strms sid = some strm) (hk : Known conn sid)
    (hid : strm.streamId = sid) (hcont : strm.contOffset = 0) (hlast : strm.lastOffset = 0)
    (hre : strm.reorder = none) (hshut : strm.shutRd = false) (hstop : strm.stopSending = false)
    (hreset : strm.resetStreamRecved = false) : Live S sid conn [] strm 0 := by
  have hent : strm.entries = [] := by simp [Strm.entries, hre]
  refine ⟨hk, hs, ⟨hid, hstop, hreset, by omega, by simp [hshut], by simp [hshut]⟩, ⟨?_, by omega, ?_, ?_, ?_⟩, ?_, ?_⟩
  · rw [Strm.RxWF, hent]
    trivial
  · simp [hent, view]
  · simp [hent, hcont, Covered, view, InSomePush]
  · simp [hent, Strm.maxFragments]
  · rw [hctl]
    exact ⟨hcont.symm, by simp [Strm.rxOffset, hre]⟩
  · rw [hcalls]
    exact delivers_nil S (by simp [hshut])

theorem Fresh.phase {conn : Conn} {sid : Nat} (h : Fresh conn sid) (S : List UInt8) : Phase S sid ⟨conn, []⟩ := by
  rcases h.state with ⟨h₁, h₂, h₃⟩ | ⟨strm, hs, hk, hid, hcont, hlast, hre, hshut, hstop, hreset⟩
  · exact .unopened h h₁ h₂ h₃ rfl
  · refine .proceeds ⟨0, Or.inl (Or.inl ⟨h.ctl, strm, 0, ?_⟩)⟩
    exact fresh_live S h.ctl h.calls hs hk hid hcont hlast hre hshut hstop hreset

theorem Phase.reassembled {S : List UInt8} {sid : Nat} {st : Logged} (h : Phase S sid st) :
    ∃ n done, Reassembled S sid n done st := by
  cases h with
  | unopened hfresh hnone hremote hnew hframes =>
      refine ⟨0, False, by rw [hfresh.calls]; exact delivers_nil S not_false, False.elim, by omega, fun _ => ?_,
        fun _ hfin => ?_⟩
      · simp [hframes, InSomePush]
      · simp [hframes] at hfin
  | opening fr env strm hctl hid hframes hfr hlive =>
      have hshut : ¬ strm.shutRd = true := by simp [hlive.flags.shut]
      have hidle : st.conn.ctl ≠ .idle := by simp [hctl]
      exact ⟨0, False, hlive.delivers.congr (iff_false_intro (fun hc => hshut hc.1)), False.elim, by omega,
        fun hc => absurd hc hidle, fun hc => absurd hc hidle⟩
  | proceeds hp =>
      obtain ⟨k, (⟨hctl, strm, n, hl⟩ | hc) | ⟨strm, n, rx, popping, hctl, hl, -⟩⟩ := hp
      · obtain ⟨hn, hg⟩ := hl.at_rest hctl
        obtain ⟨h₁, h₂⟩ := hl.holds.gap
        rw [hg, ← hn] at h₁ h₂
        exact ⟨n, _, hl.delivers, fun hd => ⟨hl.flags.shut.mp hd.1, hd.2⟩, h₁, fun _ => h₂,
          fun _ hfin hS => ⟨hl.flags.shut.mpr hfin, hS⟩⟩
      · exact ⟨S.length, True, hc.delivers, fun _ => ⟨hc.fin, rfl⟩, hc.arrived, fun _ => hc.rest, fun _ _ _ => trivial⟩
      · refine ⟨n, _, hl.delivers, fun hd => ⟨hl.flags.shut.mp hd.1, hd.2⟩, fun o ho => ?_, ?_, ?_⟩
        · rw [← hl.holds.covered]
          have hpl := hl.placed
          rw [hctl, callbackOf, if_pos rfl] at hpl
          cases popping with
          | none => exact Or.inl (by rw [hpl.2, ← hpl.1]; exact ho)
          | some p =>
              obtain ⟨hn, hcont, hrx, ent, rest, hr, hrange⟩ := hpl
              by_cases hlt : o < strm.contOffset
              · exact Or.inl hlt
              · refine Or.inr ((covered_iff hl.holds.wf o).mpr ⟨ent, by simp [Strm.entries, hr], ?_, ?_⟩)
                · rw [hrange]
                  simp only
                  omega
                · rw [hrange]
                  simp only
                  omega
        · rw [hctl]
          exact fun hc => absurd hc (by simp)
        · rw [hctl]
          exact fun hc => absurd hc (by simp)

/-- What the reassembly of a stream sees of the connection. -/
structure Same (conn conn' : Conn) : Prop where
  strms : conn'.strms = conn.strms
  ctl : conn'.ctl = conn.ctl
  delivered : conn'.delivered = conn.delivered
  opened : conn'.opened = conn.opened
  server : conn'.server = conn.server

theorem Same.known {conn conn' : Conn} (h : Same conn conn') {sid : Nat} (hk : Known conn sid) : Known conn' sid := by
  rw [Known, Conn.localStream, h.server, h.opened]
  exact hk

theorem Live.same {S : List UInt8} {sid : Nat} {conn conn' : Conn} {F : List StreamFrame} {strm : Strm} {n : Nat}
    (h : Live S sid conn F strm n) (hs : Same conn conn') : Live S sid conn' F strm n :=
  ⟨hs.known h.known, by rw [hs.strms]; exact h.stored, h.flags, h.holds, by rw [hs.ctl]; exact h.placed,
    by rw [hs.delivered]; exact h.delivers⟩

theorem Closed.same {S : List UInt8} {sid : Nat} {conn conn' : Conn} {F : List StreamFrame} (h : Closed S sid conn F)
    (hs : Same conn conn') : Closed S sid conn' F :=
  ⟨by rw [hs.ctl]; exact h.ctl, hs.known h.known, by rw [hs.strms]; exact h.gone, h.fin, h.arrived, h.rest,
    by rw [hs.delivered]; exact h.delivers⟩

theorem Fresh.same {conn conn' : Conn} {sid : Nat} (h : Fresh conn sid) (hs : Same conn conn') : Fresh conn' sid := by
  refine ⟨by rw [hs.ctl]; exact h.ctl, by rw [hs.delivered]; exact h.calls, ?_⟩
  have hk : Known conn' sid = Known conn sid := by
    rw [Known, Known, Conn.localStream, Conn.localStream, hs.server, hs.opened]
  rw [hs.strms, hs.opened, Conn.localStream, hs.server, hk]
  exact h.state

theorem Within.same {S : List UInt8} {sid k : Nat} {conn conn' : Conn} {F : List StreamFrame} (h : Within k S sid conn F)
    (hs : Same conn conn') : Within k S sid conn' F := by
  rcases h with (⟨hctl, strm, n, hl⟩ | hc) | ⟨strm, n, rx, popping, hctl, hl, hk⟩
  · exact Or.inl (Or.inl ⟨by rw [hs.ctl]; exact hctl, strm, n, hl.same hs⟩)
  · exact Or.inl (Or.inr (hc.same hs))
  · exact Or.inr ⟨strm, n, rx, popping, by rw [hs.ctl]; exact hctl, hl.same hs, hk⟩

/-- A change of the connection's limits; in `stream_open` the limits for the waiting frame stay. -/
theorem Phase.same {S : List UInt8} {sid : Nat} {conn conn' : Conn} {frames : List StreamFrame}
    (h : Phase S sid ⟨conn, frames⟩) (hs : Same conn conn')
    (hlim : conn.ctl ≠ .idle → conn'.offset = conn.offset ∧ conn'.maxOffset = conn.maxOffset ∧
      conn'.glitchRlim = conn.glitchRlim) : Phase S sid ⟨conn', frames⟩ := by
  cases h with
  | unopened hfresh hnone hremote hnew hframes =>
      refine .unopened (hfresh.same hs) ?_ ?_ ?_ hframes
      · simp only [hs.strms]
        exact hnone
      · simp only [Conn.localStream, hs.server]
        exact hremote
      · simp only [hs.opened]
        exact hnew
  | opening fr env strm hctl hid hframes hfr hlive hacc hu =>
      obtain ⟨h₁, h₂, h₃⟩ := hlim (by simp only at hctl; simp [hctl])
      refine .opening fr env strm (by simp only [hs.ctl]; exact hctl) hid hframes hfr ?_ ?_ hu
      · exact hlive.same ⟨hs.strms, rfl, hs.delivered, hs.opened, hs.server⟩
      · refine ⟨hacc.window, fun hlt => ?_, by simp only [h₃]; exact hacc.glitch, hacc.supplied, hacc.room⟩
        simp only [Conn.maxDataViolated, h₁, h₂]
        exact hacc.data hlt
  | proceeds hp =>
      obtain ⟨k, hw⟩ := hp
      exact .proceeds ⟨k, hw.same hs⟩

/-- The fields of a stream that belong to its windows and to the sending side. -/
def SameRx (strm strm' : Strm) : Prop :=
  strm' = { strm with
    maxOffset := strm'.maxOffset
    unsentMaxOffset := strm'.unsentMaxOffset
    shutWr := strm'.shutWr
    resetStream := strm'.resetStream
    resetStreamAcked := strm'.resetStreamAcked
    txDataFinAcked := strm'.txDataFinAcked }

theorem Live.setStrm {S : List UInt8} {sid : Nat} {conn : Conn} {F : List StreamFrame} {strm strm' : Strm} {n : Nat}
    (h : Live S sid conn F strm n) (hs : SameRx strm strm') : Live S sid (conn.setStrm strm') F strm' n := by
  have hid : strm'.streamId = sid := by rw [hs]; exact h.flags.id
  have hcont : strm'.contOffset = strm.contOffset := by rw [hs]
  have hre : strm'.reorder = strm.reorder := by rw [hs]
  have hshut : strm'.shutRd = strm.shutRd := by rw [hs]
  refine ⟨h.known, ?_, ?_, h.holds.congr hcont hre, ?_, ?_⟩
  · simp only [Conn.setStrm, hid, Function.update_self]
  · rw [hs]
    exact ⟨h.flags.id, h.flags.stop, h.flags.live, h.flags.last_le, h.flags.shut, h.flags.final⟩
  · have hpl := h.placed
    have hrx := rxOffset_congr hcont hre
    rcases hcb : callbackOf sid conn.ctl with _ | ⟨rx, _ | ⟨o, len⟩⟩
    · rw [hcb] at hpl
      simp only [Conn.setStrm, hcb]
      exact ⟨by rw [hcont]; exact hpl.1, by rw [hrx, hcont]; exact hpl.2⟩
    · rw [hcb] at hpl
      simp only [Conn.setStrm, hcb]
      exact ⟨hpl.1, by rw [hcont]; exact hpl.2⟩
    · rw [hcb] at hpl
      simp only [Conn.setStrm, hcb]
      exact ⟨hpl.1, by rw [hcont]; exact hpl.2.1, hpl.2.2.1, by rw [hre]; exact hpl.2.2.2⟩
  · rw [hshut]
    exact h.delivers

/-- A stream whose windows or sending side have changed. -/
theorem Phase.setStrm {S : List UInt8} {sid : Nat} {conn : Conn} {frames : List StreamFrame} {strm strm' : Strm}
    (h : Phase S sid ⟨conn, frames⟩) (hst : conn.strms sid = some strm) (hs : SameRx strm strm')
    (hmax : conn.ctl ≠ .idle → strm'.maxOffset = strm.maxOffset) : Phase S sid ⟨conn.setStrm strm', frames⟩ := by
  have hcont : strm'.contOffset = strm.contOffset := by rw [hs]
  have hre : strm'.reorder = strm.reorder := by rw [hs]
  have hent : strm'.entries = strm.entries := by rw [Strm.entries, Strm.entries, hre]
  cases h with
  | unopened hfresh hnone =>
      simp only at hnone
      rw [hst] at hnone
      cases hnone
  | opening fr env strm₀ hctl hid hframes hfr hlive hacc hu =>
      have heq : strm₀ = strm := by
        have := hlive.stored
        simp only [hst] at this
        exact (Option.some.inj this).symm
      subst heq
      have hm := hmax (by simp only at hctl; simp [hctl])
      have hl : strm'.lastOffset = strm₀.lastOffset := by rw [hs]
      refine .opening fr env strm' hctl hid hframes hfr (hlive.setStrm hs) ?_ ?_
      · refine ⟨by rw [hm]; exact hacc.window, fun hlt => ?_, hacc.glitch, hacc.supplied, ?_⟩
        · rw [hl] at hlt ⊢
          exact hacc.data hlt
        · rw [hent, hcont]
          exact hacc.room
      · rw [Unsplit, rxOffset_congr hcont hre, hent, hcont]
        exact hu
  | proceeds hp =>
      obtain ⟨k, (⟨hctl, strm₀, n, hl⟩ | hc) | ⟨strm₀, n, rx, popping, hctl, hl, hk⟩⟩ := hp
      · have heq : strm₀ = strm := Option.some.inj (hl.stored.symm.trans hst)
        subst heq
        exact .proceeds ⟨k, Or.inl (Or.inl ⟨hctl, strm', n, hl.setStrm hs⟩)⟩
      · have hg := hc.gone
        simp only [hst] at hg
        cases hg
      · have heq : strm₀ = strm := Option.some.inj (hl.stored.symm.trans hst)
        subst heq
        refine .proceeds ⟨k, Or.inr ⟨strm', n, rx, popping, hctl, hl.setStrm hs, ?_⟩⟩
        rw [returnsLeft, hent]
        exact hk

theorem Phase.live_of_idle {S : List UInt8} {sid : Nat} {conn : Conn} {frames : List StreamFrame} {strm : Strm}
    (h : Phase S sid ⟨conn, frames⟩) (hctl : conn.ctl = .idle) (hst : conn.strms sid = some strm) :
    ∃ n, Live S sid conn frames strm n := by
  cases h with
  | unopened hfresh hnone =>
      simp only at hnone
      rw [hst] at hnone
      cases hnone
  | opening fr env strm₀ hctl' =>
      simp only at hctl'
      rw [hctl] at hctl'
      cases hctl'
  | proceeds hp =>
      obtain ⟨k, (⟨-, strm₀, n, hl⟩ | hc) | ⟨strm₀, n, rx, popping, hctl', -⟩⟩ := hp
      · have heq : strm₀ = strm := Option.some.inj (hl.stored.symm.trans hst)
        subst heq
        exact ⟨n, hl⟩
      · have hg := hc.gone
        simp only [hst] at hg
        cases hg
      · rw [hctl] at hctl'
        cases hctl'

theorem recvStream_phase {S : List UInt8} {sid : Nat} {conn : Conn} {frames : List StreamFrame} {fr : StreamFrame}
    {env : RecvEnv} (h : Phase S sid ⟨conn, frames⟩) (hg : Admissible S sid conn fr env)
    (hu : ∀ strm, target conn sid = some strm → Unsplit strm fr) :
    ∃ conn', step conn (.recvStream fr env) = .ok conn' ∧ Phase S sid ⟨conn', frames ++ [fr]⟩ := by
  obtain ⟨hctl, rfl, hfr, hallowed, hglitch, hmem, haccepts⟩ := hg
  have hvar : ¬ maxVarint < fr.offset + fr.data.length := by
    have := hfr.varint
    simp only [StreamFrame.endOffset] at this
    omega
  simp only [step, whenIdle, hctl, Conn.recvStream, hallowed, if_neg hvar]
  cases h with
  | unopened hfresh hnone hremote hnew hframes =>
      simp only at hnone hremote hnew hframes hfresh
      have htarget : target conn fr.streamId = some (conn.newStrm fr.streamId) := by
        rw [target, if_neg (by simp [hremote, hnew])]
      have hacc := haccepts _ htarget
      have hstored : (conn.initStream fr.streamId).strms fr.streamId = some (conn.newStrm fr.streamId) := by
        simp only [Conn.initStream, Conn.setStrm, Conn.newStrm, Function.update_self]
      refine ⟨{ conn.initStream fr.streamId with
        calls := (conn.initStream fr.streamId).calls ++ [.streamOpen fr.streamId],
        ctl := .streamOpen (.stream fr env) }, ?_, ?_⟩
      · simp only [Conn.findOrOpen, hnone, hremote, hnew, hmem, Bool.false_eq_true, Bool.true_eq_false, if_false]
      · refine .opening fr env (conn.newStrm fr.streamId) rfl rfl (by simp [hframes]) hfr ?_
          ⟨hacc.window, hacc.data, hacc.glitch, hacc.supplied, hacc.room⟩ (hu _ htarget)
        refine fresh_live S rfl hfresh.calls hstored (Or.inr ?_) rfl rfl rfl rfl ?_ rfl rfl
        · exact Finset.mem_insert_self _ _
        · simp [Conn.newStrm, hremote]
  | opening fr' env' strm hctl' =>
      simp only at hctl'
      rw [hctl] at hctl'
      cases hctl'
  | proceeds hp =>
      obtain ⟨k, (⟨-, strm, n, hl⟩ | hc) | ⟨strm, n, rx, popping, hctl', -⟩⟩ := hp
      · have htarget : target conn fr.streamId = some strm := by
          have hk : conn.localStream fr.streamId = true ∨ fr.streamId ∈ conn.opened := hl.known
          rw [target, if_pos hk]
          exact hl.stored
        obtain ⟨conn', hrecv, hp⟩ := recvStreamOn_proceeds hl hctl hfr (haccepts _ htarget) (hu _ htarget) false
        have hst : conn.strms fr.streamId = some strm := hl.stored
        refine ⟨conn', ?_, .proceeds hp⟩
        simp only [Conn.findOrOpen, hst]
        exact hrecv
      · obtain ⟨rlim, hd⟩ := hglitch
        have hgone : conn.strms fr.streamId = none := hc.gone
        have hrecv : conn.glitch env.ts = .ok { conn with glitchRlim := rlim } := by
          simp only [Conn.glitch, hd]
        refine ⟨_, ?_, .proceeds ⟨k, Or.inl (Or.inr (hc.frame hfr.slice.le rlim))⟩⟩
        simp only [Conn.findOrOpen, hgone, hrecv]
        rcases hc.known with hk | hk
        · rw [if_pos hk]
        · split_ifs <;> rfl
      · simp only [hctl] at hctl'
        cases hctl'

theorem callbackReturns_proceeds {S : List UInt8} {sid : Nat} {conn : Conn} {frames : List StreamFrame}
    (h : Phase S sid ⟨conn, frames⟩) (hctl : conn.ctl ≠ .idle) :
    ∃ conn', step conn .callbackReturns = .ok conn' ∧ Proceeds S sid conn' frames := by
  cases h with
  | unopened hfresh => exact absurd hfresh.ctl hctl
  | opening fr env strm hctl' hid hframes hfr hlive hacc hu =>
      simp only at hctl' hframes hlive
      obtain ⟨conn', hrecv, hp⟩ := recvStreamOn_proceeds hlive rfl hfr
        ⟨hacc.window, hacc.data, hacc.glitch, hacc.supplied, hacc.room⟩ hu true
      have hst : conn.strms fr.streamId = some strm := by
        rw [hid]
        exact hlive.stored
      refine ⟨conn', ?_, by rw [hframes]; exact hp⟩
      simp only [step, callbackReturns, hctl', hst]
      exact hrecv
  | proceeds hp =>
      obtain ⟨k, (⟨hidle, -⟩ | hc) | ⟨strm, n, rx, popping, hctl', hl, -⟩⟩ := hp
      · exact absurd hidle hctl
      · exact absurd hc.ctl hctl
      · obtain ⟨conn', k', hret, hw, -⟩ := returnRecvStreamData_within hl hctl'
        have hst := hl.stored
        simp only at hctl' hst hret
        refine ⟨conn', ?_, k', hw⟩
        simp only [step, callbackReturns, hctl', hst]
        exact hret

theorem sendMaxData_same (conn : Conn) (ts rtt : Nat) : Same conn (conn.sendMaxData ts rtt) := by
  unfold Conn.sendMaxData
  split
  · simp only
    split
    · exact ⟨rfl, rfl, rfl, rfl, rfl⟩
    · exact ⟨rfl, rfl, rfl, rfl, rfl⟩
  · exact ⟨rfl, rfl, rfl, rfl, rfl⟩

theorem sendSide_phase {S : List UInt8} {sid : Nat} {conn : Conn} {frames : List StreamFrame}
    (h : Phase S sid ⟨conn, frames⟩) (shutWr resetStream resetStreamAcked txDataFinAcked : Bool) :
    Phase S sid ⟨conn.sendSide sid shutWr resetStream resetStreamAcked txDataFinAcked, frames⟩ := by
  unfold Conn.sendSide
  split
  · exact h
  · rename_i strm hst
    simp only
    split
    · rename_i hctl
      obtain ⟨n, hl⟩ := h.live_of_idle hctl hst
      have hsame : SameRx strm { strm with
        shutWr := shutWr
        resetStream := resetStream
        resetStreamAcked := resetStreamAcked
        txDataFinAcked := txDataFinAcked } := rfl
      exact .proceeds ⟨0, Or.inl ((hl.setStrm hsame).closeIf hctl)⟩
    · exact h.setStrm hst rfl (fun _ => rfl)

theorem stepLogged_phase {S : List UInt8} {sid : Nat} (st : Logged) (input : Input) (h : Phase S sid st)
    (hg : Allowed S sid st input ∧ NoSplit sid st input) :
    ∃ st', stepLogged st input = .ok st' ∧ Phase S sid st' := by
  obtain ⟨conn, frames⟩ := st
  -- every other event changes the connection without an error and adds no frame
  have hquiet : ∀ conn', step conn input = .ok conn' → Phase S sid ((⟨conn, frames⟩ : Logged).add conn' input) →
      ∃ st', stepLogged ⟨conn, frames⟩ input = .ok st' ∧ Phase S sid st' := by
    intro conn' hstep hp
    exact ⟨_, by simp only [stepLogged, hstep], hp⟩
  cases input with
  | recvStream fr env =>
      obtain ⟨conn', hstep, hp⟩ := recvStream_phase h hg.1 hg.2
      exact hquiet conn' hstep hp
  | callbackReturns =>
      obtain ⟨conn', hstep, hp⟩ := callbackReturns_proceeds h hg.1
      exact hquiet conn' hstep (.proceeds hp)
  | extendMaxOffset n =>
      exact hquiet _ rfl (h.same ⟨rfl, rfl, rfl, rfl, rfl⟩ (fun _ => ⟨rfl, rfl, rfl⟩))
  | extendMaxStreamOffset id n =>
      obtain rfl : id = sid := hg.1
      refine hquiet _ rfl ?_
      simp only [Logged.add, Conn.extendMaxStreamOffset]
      split
      · exact h
      · split
        · exact h
        · rename_i strm hst
          exact h.setStrm hst rfl (fun _ => rfl)
  | sendSide id shutWr resetStream resetStreamAcked txDataFinAcked =>
      obtain rfl : id = sid := hg.1
      exact hquiet _ rfl (sendSide_phase h _ _ _ _)
  | sendMaxData ts rtt =>
      have hctl : conn.ctl = .idle := hg.1
      exact hquiet _ (by simp only [step, whenIdle, hctl])
        (h.same (sendMaxData_same conn ts rtt) (fun hc => absurd hctl hc))
  | sendMaxStreamData id delta =>
      obtain ⟨rfl, hctl⟩ : id = sid ∧ conn.ctl = .idle := hg.1
      refine hquiet (conn.sendMaxStreamData id delta) (by simp only [step, whenIdle, hctl]) ?_
      simp only [Logged.add, Conn.sendMaxStreamData]
      split
      · exact h
      · rename_i strm hst
        exact h.setStrm hst rfl (fun hc => absurd hctl hc)
  | recvResetStream | recvStreamDataBlocked | shutdownStreamRead | openBidiStream => exact hg.1.elim

theorem Within.settles {S : List UInt8} {sid k : Nat} {conn : Conn} {F : List StreamFrame} (h : Within k S sid conn F) :
    ∃ j conn', run stepLogged ⟨conn, F⟩ (List.replicate j .callbackReturns) = .ok ⟨conn', F⟩ ∧ Rests S sid conn' F := by
  induction k using Nat.strong_induction_on generalizing conn with
  | _ k ih =>
      rcases h with hr | ⟨strm, n, rx, popping, hctl, hl, hk⟩
      · exact ⟨0, conn, rfl, hr⟩
      · obtain ⟨conn₁, k₁, hret, hw, hlt⟩ := returnRecvStreamData_within hl hctl
        obtain ⟨j, conn', hrun, hr⟩ := ih k₁ (by omega) hw
        refine ⟨j + 1, conn', ?_, hr⟩
        have hstep : stepLogged ⟨conn, F⟩ .callbackReturns = .ok ⟨conn₁, F⟩ := by
          simp only [stepLogged, step, callbackReturns, hctl, hl.stored, hret, Logged.add]
        rw [List.replicate_succ, run_cons_ok hstep]
        exact hrun

theorem Rests.idle {S : List UInt8} {sid : Nat} {conn : Conn} {F : List StreamFrame} (h : Rests S sid conn F) :
    conn.ctl = .idle := by
  rcases h with ⟨hc, -⟩ | hc
  · exact hc
  · exact hc.ctl

/-- The callbacks return finitely often before the library is outside of them again. -/
theorem Phase.settles {S : List UInt8} {sid : Nat} {st : Logged} (h : Phase S sid st) :
    ∃ k st', run stepLogged st (List.replicate k .callbackReturns) = .ok st' ∧ Phase S sid st' ∧
      st'.conn.ctl = .idle ∧ st'.frames = st.frames := by
  obtain ⟨conn, frames⟩ := st
  by_cases hctl : conn.ctl = .idle
  · exact ⟨0, ⟨conn, frames⟩, rfl, h, hctl, rfl⟩
  · obtain ⟨conn₁, hstep, k, hw⟩ := callbackReturns_proceeds h hctl
    have hlogged : stepLogged ⟨conn, frames⟩ .callbackReturns = .ok ⟨conn₁, frames⟩ := by
      simp only [stepLogged, hstep, Logged.add]
    obtain ⟨j, conn', hrun, hr⟩ := hw.settles
    refine ⟨j + 1, ⟨conn', frames⟩, ?_, .proceeds ⟨0, Or.inl hr⟩, hr.idle, rfl⟩
    rw [List.replicate_succ, run_cons_ok hlogged]
    exact hrun

end Zngtcp2.Rx
