import Zngtcp2.Rx.CreditRuns
import Zngtcp2.Rx.Stream
import Zngtcp2.Strm.Reassembly

namespace Zngtcp2.Rx

open Reorder Reassembly

/-- The callback calls for one stream, in order. -/
def callsFor (streamId : Nat) (log : List Delivery) : List Delivery :=
  log.filter (fun d => d.streamId = streamId)

def Delivery.chunk (d : Delivery) : Chunk :=
  (d.offset, d.data)

def StreamFrame.chunk (fr : StreamFrame) : Chunk :=
  (fr.offset, fr.data)

/-- FIN has been passed on, by the last call only, exactly when `done` holds. -/
structure FinOnce (calls : List Delivery) (done : Prop) : Prop where
  early : ∀ d ∈ calls.dropLast, d.fin = false
  last : (∃ d ∈ calls.getLast?, d.fin = true) ↔ done

theorem FinOnce.none_fin {calls : List Delivery} {done : Prop} (h : FinOnce calls done) (hn : ¬ done) :
    ∀ d ∈ calls, d.fin = false := by
  intro d hd
  rcases List.eq_nil_or_concat calls with rfl | ⟨pre, e, rfl⟩
  · cases hd
  · have hd' : d ∈ pre ∨ d = e := by simpa using hd
    rcases hd' with hpre | rfl
    · exact h.early d (by simpa using hpre)
    · by_contra hf
      exact hn (h.last.mp ⟨d, by simp, by simpa using hf⟩)

theorem FinOnce.append {calls : List Delivery} {done : Prop} (h : FinOnce calls done) (hn : ¬ done) (d : Delivery) :
    FinOnce (calls ++ [d]) (d.fin = true) := by
  refine ⟨?_, by simp⟩
  intro e he
  rw [List.dropLast_concat] at he
  exact h.none_fin hn e he

theorem FinOnce.congr {calls : List Delivery} {p q : Prop} (h : FinOnce calls p) (hpq : p ↔ q) : FinOnce calls q :=
  ⟨h.early, h.last.trans hpq⟩

/-- The calls pass on the first `n` bytes of `S`, and FIN with the last one if `done` holds. -/
structure Delivers (S : List UInt8) (calls : List Delivery) (n : Nat) (done : Prop) : Prop where
  passed : Passed S (calls.map Delivery.chunk) n
  fin : FinOnce calls done

theorem delivers_nil (S : List UInt8) {done : Prop} (hn : ¬ done) : Delivers S [] 0 done :=
  ⟨passed_nil S, by simp, by simpa using hn⟩

theorem Delivers.append {S : List UInt8} {calls : List Delivery} {n : Nat} {done : Prop} (h : Delivers S calls n done)
    (hn : ¬ done) {d : Delivery} (hoff : d.offset = n) (hd : SliceOf S d.chunk) :
    Delivers S (calls ++ [d]) (n + d.data.length) (d.fin = true) := by
  refine ⟨?_, h.fin.append hn d⟩
  rw [List.map_append]
  exact h.passed.append hoff hd

theorem Delivers.congr {S : List UInt8} {calls : List Delivery} {n : Nat} {p q : Prop} (h : Delivers S calls n p)
    (hpq : p ↔ q) : Delivers S calls n q :=
  ⟨h.passed, h.fin.congr hpq⟩

theorem callsFor_append_self (log : List Delivery) (d : Delivery) :
    callsFor d.streamId (log ++ [d]) = callsFor d.streamId log ++ [d] := by
  simp [callsFor]

open Lib.Run

/-- The flags of a stream that is neither stopped nor reset and has received the frames `F` of `S`. -/
structure Flags (S : List UInt8) (sid : Nat) (F : List StreamFrame) (strm : Strm) : Prop where
  id : strm.streamId = sid
  stop : strm.stopSending = false
  live : strm.resetStreamRecved = false
  last_le : strm.lastOffset ≤ S.length
  shut : strm.shutRd = true ↔ ∃ fr ∈ F, fr.fin = true
  final : strm.shutRd = true → strm.lastOffset = S.length

theorem Flags.congr {S : List UInt8} {sid : Nat} {F : List StreamFrame} {strm strm' : Strm} (h : Flags S sid F strm)
    (heq : strm' = { strm with contOffset := strm'.contOffset, reorder := strm'.reorder }) : Flags S sid F strm' := by
  rw [heq]
  exact ⟨h.id, h.stop, h.live, h.last_le, h.shut, h.final⟩

/-- The connection knows the stream, or has known it. -/
def Known (conn : Conn) (sid : Nat) : Prop :=
  conn.localStream sid = true ∨ sid ∈ conn.opened

/-- The stream is open; `n` bytes of `S` have been passed on. -/
structure Live (S : List UInt8) (sid : Nat) (conn : Conn) (F : List StreamFrame) (strm : Strm) (n : Nat) : Prop where
  known : Known conn sid
  stored : conn.strms sid = some strm
  flags : Flags S sid F strm
  holds : Holds S (F.map StreamFrame.chunk) strm
  placed : Placed strm n (callbackOf sid conn.ctl)
  delivers : Delivers S (callsFor sid conn.delivered) n (strm.shutRd = true ∧ n = S.length)

/-- The stream is closed, and all of `S` with FIN has been passed on. -/
structure Closed (S : List UInt8) (sid : Nat) (conn : Conn) (F : List StreamFrame) : Prop where
  ctl : conn.ctl = .idle
  known : Known conn sid
  gone : conn.strms sid = none
  fin : ∃ fr ∈ F, fr.fin = true
  arrived : ∀ o, o < S.length → InSomePush (F.map StreamFrame.chunk) o
  rest : ¬ InSomePush (F.map StreamFrame.chunk) S.length
  delivers : Delivers S (callsFor sid conn.delivered) S.length True

theorem fin_append (F : List StreamFrame) (fr : StreamFrame) :
    (∃ f ∈ F ++ [fr], f.fin = true) ↔ (∃ f ∈ F, f.fin = true) ∨ fr.fin = true := by
  simp only [List.mem_append, List.mem_singleton]
  constructor
  · rintro ⟨f, hf | rfl, h⟩
    · exact Or.inl ⟨f, hf, h⟩
    · exact Or.inr h
  · rintro (⟨f, hf, h⟩ | h)
    · exact ⟨f, Or.inl hf, h⟩
    · exact ⟨fr, Or.inr rfl, h⟩

theorem Closed.frame {S : List UInt8} {sid : Nat} {conn : Conn} {F : List StreamFrame} (h : Closed S sid conn F)
    {fr : StreamFrame} (hle : fr.endOffset ≤ S.length) (rlim : Ratelim) :
    Closed S sid { conn with glitchRlim := rlim } (F ++ [fr]) := by
  have hmap : (F ++ [fr]).map StreamFrame.chunk = F.map StreamFrame.chunk ++ [fr.chunk] := by simp
  refine ⟨h.ctl, h.known, h.gone, (fin_append F fr).mpr (Or.inl h.fin), fun o ho => ?_, ?_, h.delivers⟩
  · rw [hmap, inSomePush_append]
    exact Or.inl (h.arrived o ho)
  · rw [hmap, inSomePush_append]
    rintro (ha | ⟨-, hlt⟩)
    · exact h.rest ha
    · simp only [StreamFrame.chunk] at hlt
      simp only [StreamFrame.endOffset] at hle
      omega

/-- A stream outside of its callback: open, or closed for good. -/
def Rests (S : List UInt8) (sid : Nat) (conn : Conn) (F : List StreamFrame) : Prop :=
  (conn.ctl = .idle ∧ ∃ strm n, Live S sid conn F strm n) ∨ Closed S sid conn F

theorem Live.closeIf {S : List UInt8} {sid : Nat} {conn : Conn} {F : List StreamFrame} {strm : Strm} {n : Nat}
    (h : Live S sid conn F strm n) (hctl : conn.ctl = .idle) : Rests S sid (conn.closeStreamIfShutRdwr strm) F := by
  unfold Conn.closeStreamIfShutRdwr
  split
  · rename_i hc
    obtain ⟨hshut, -, hall, -⟩ := hc
    have hpl := h.placed
    rw [hctl] at hpl
    have hrx : strm.rxOffset = S.length := by
      rcases hall with hr | hr
      · rw [h.flags.live] at hr
        cases hr
      · rw [hr, h.flags.final hshut]
    have hn : n = S.length := by rw [hpl.1, ← hpl.2, hrx]
    have hgap := h.holds.gap
    rw [hrx] at hgap
    subst hn
    have hid := h.flags.id
    exact Or.inr ⟨hctl, h.known, by simp [Conn.closeStream, Conn.release, hid], h.flags.shut.mp hshut, hgap.1, hgap.2,
      h.delivers.congr (iff_true_intro ⟨hshut, rfl⟩)⟩
  · exact Or.inl ⟨hctl, strm, n, h⟩

/-- The callback returns left until a stream inside its callback is at rest. -/
def returnsLeft (strm : Strm) (popping : Option (Nat × Nat)) : Nat :=
  strm.entries.length + if popping = none then 1 else 0

/-- A stream at rest, or inside its callback with at most `k` returns left. -/
def Within (k : Nat) (S : List UInt8) (sid : Nat) (conn : Conn) (F : List StreamFrame) : Prop :=
  Rests S sid conn F ∨
    ∃ strm n rx popping, conn.ctl = .recvStreamData sid rx popping ∧ Live S sid conn F strm n ∧
      returnsLeft strm popping ≤ k

def Proceeds (S : List UInt8) (sid : Nat) (conn : Conn) (F : List StreamFrame) : Prop :=
  ∃ k, Within k S sid conn F

theorem Live.toIdle {S : List UInt8} {sid : Nat} {conn : Conn} {F : List StreamFrame} {strm : Strm} {n : Nat}
    (h : Live S sid conn F strm n) (hp : Placed strm n none) :
    Rests S sid { conn.closeStreamIfShutRdwr strm with ctl := .idle } F := by
  have hidle : Live S sid { conn with ctl := .idle } F strm n :=
    ⟨h.known, h.stored, h.flags, h.holds, hp, h.delivers⟩
  have heq : ({ conn.closeStreamIfShutRdwr strm with ctl := .idle } : Conn) =
      ({ conn with ctl := .idle } : Conn).closeStreamIfShutRdwr strm := by
    unfold Conn.closeStreamIfShutRdwr
    split <;> rfl
  rw [heq]
  exact hidle.closeIf rfl

/-- The call that passes on the next piece of `S`. -/
theorem Live.call {S : List UInt8} {sid : Nat} (conn : Conn) {F : List StreamFrame} {strm : Strm} {n : Nat}
    {done : Prop} (hknown : Known conn sid) (hstored : conn.strms sid = some strm) (hflags : Flags S sid F strm)
    (hholds : Holds S (F.map StreamFrame.chunk) strm) (hdel : Delivers S (callsFor sid conn.delivered) n done)
    (hdone : ¬ done) {data : List UInt8} (hdata : SliceOf S (n, data)) (popping : Option (Nat × Nat))
    (hplaced : Placed strm (n + data.length) (some (n + data.length, popping))) :
    Live S sid (conn.callRecvStreamData strm n data (n + data.length) popping) F strm (n + data.length) := by
  refine ⟨hknown, hstored, hflags, hholds, ?_, ?_⟩
  · simp only [Conn.callRecvStreamData, callbackOf, hflags.id, if_true]
    exact hplaced
  · have happ := hdel.append hdone (d := ⟨sid, strm.shutRd && n + data.length = strm.lastOffset,
      !conn.handshakeCompleted, n, data⟩) rfl hdata
    have hcalls := callsFor_append_self conn.delivered ⟨sid, strm.shutRd && n + data.length = strm.lastOffset,
      !conn.handshakeCompleted, n, data⟩
    simp only [Conn.callRecvStreamData, hflags.id]
    simp only at hcalls
    rw [hcalls]
    refine happ.congr ?_
    simp only [Bool.and_eq_true, decide_eq_true_eq]
    constructor
    · rintro ⟨hs, hn⟩
      exact ⟨hs, by rw [hn, hflags.final hs]⟩
    · rintro ⟨hs, hn⟩
      exact ⟨hs, by rw [hn, hflags.final hs]⟩

theorem emit_within {S : List UInt8} {sid : Nat} {conn : Conn} {F : List StreamFrame} {strm : Strm} {n rx : Nat}
    (h : Live S sid conn F strm n) (hctl : conn.ctl = .recvStreamData sid rx none) :
    ∃ conn', conn.emitPendingStreamData strm rx = .ok conn' ∧ Within strm.entries.length S sid conn' F := by
  have hpl := h.placed
  rw [hctl, callbackOf, if_pos rfl] at hpl
  obtain ⟨rfl, hcont⟩ := hpl
  have hdone : strm.rxOffset = strm.contOffset →
      Within strm.entries.length S sid { conn.closeStreamIfShutRdwr strm with ctl := .idle } F :=
    fun hg => Or.inl (h.toIdle ⟨hcont.symm, hg⟩)
  have hstop := h.flags.stop
  cases hr : strm.reorder with
  | none =>
      refine ⟨_, by simp only [Conn.emitPendingStreamData, hr], hdone ?_⟩
      simp only [Strm.rxOffset, hr]
  | some reorder =>
      have hent : strm.entries = reorder := by simp [Strm.entries, hr]
      have hw : WF n reorder := by
        rw [← hcont, ← hent]
        exact h.holds.wf
      cases reorder with
      | nil =>
          have hg : strm.rxOffset = strm.contOffset := by simp [Strm.rxOffset, hr, firstGapOffset]
          refine ⟨_, ?_, hdone hg⟩
          simp only [Conn.emitPendingStreamData, hr, hstop, dataAt, hg, hcont, if_true, Bool.false_eq_true, if_false]
      | cons ent rest =>
          have hdata := dataAt_head hw
          have hlt := hw.2.1.1
          by_cases hb : ent.range.begin = n
          · rw [if_pos hb] at hdata
            obtain ⟨hslice, -⟩ := h.holds.pop hr (by rw [hb, hcont])
            rw [hcont] at hslice
            have hlen : ent.buf.bytes.length = ent.range.endOff - ent.range.begin := hw.2.1.2
            rw [hb] at hlen
            have hle := hslice.le
            simp only at hle
            have hlive := Live.call conn h.known h.stored h.flags h.holds h.delivers (by omega) hslice
              (some (n, ent.range.endOff - n)) ⟨rfl, hcont, by omega, ent, rest, hr, by
                rw [hlen, Nat.add_sub_cancel' (by omega), ← hb]⟩
            refine ⟨_, ?_, Or.inr ⟨strm, _, _, _, by rw [← h.flags.id]; rfl, hlive, by simp [returnsLeft]⟩⟩
            simp only [Conn.emitPendingStreamData, hr, hstop, hdata, Bool.false_eq_true, if_false, hlen]
          · rw [if_neg hb] at hdata
            have hg : strm.rxOffset = strm.contOffset := by
              have hle := hw.1
              simp only [Strm.rxOffset, hr, firstGapOffset]
              rw [if_neg (by omega), if_pos (by omega)]
            refine ⟨_, ?_, hdone hg⟩
            simp only [Conn.emitPendingStreamData, hr, hstop, hdata, hg, hcont, if_true, Bool.false_eq_true, if_false]

/-- The callback returns, the delivered entry is popped, and the emission goes on. -/
theorem returnRecvStreamData_within {S : List UInt8} {sid : Nat} {conn : Conn} {F : List StreamFrame} {strm : Strm}
    {n rx : Nat} {popping : Option (Nat × Nat)} (h : Live S sid conn F strm n)
    (hctl : conn.ctl = .recvStreamData sid rx popping) :
    ∃ conn' k, conn.returnRecvStreamData strm rx popping = .ok conn' ∧ Within k S sid conn' F ∧
      k < returnsLeft strm popping := by
  cases popping with
  | none =>
      obtain ⟨conn', hemit, hw⟩ := emit_within h hctl
      exact ⟨conn', strm.entries.length, hemit, hw, by simp [returnsLeft]⟩
  | some p =>
      obtain ⟨offset, datalen⟩ := p
      have hpl := h.placed
      rw [hctl, callbackOf, if_pos rfl] at hpl
      obtain ⟨rfl, hcont, hrx, ent, rest, hr, hrange⟩ := hpl
      have hb : ent.range.begin = strm.contOffset := by rw [hrange, hcont]
      have he : ent.range.endOff = n := by rw [hrange]
      have hent : strm.entries = ent :: rest := by simp [Strm.entries, hr]
      have hw : WF strm.contOffset (ent :: rest) := by
        rw [← hent]
        exact h.holds.wf
      obtain ⟨-, hholds⟩ := h.holds.pop hr hb
      have hpop := pop_head hw hb
      rw [hcont, he, ← hrx, Nat.add_sub_cancel_left] at hpop
      rw [he] at hholds
      have hid := h.flags.id
      have hlive : Live S sid { (conn.release [ent.release]).setStrm { strm with reorder := some rest, contOffset := n } with
          ctl := .recvStreamData sid n none } F { strm with reorder := some rest, contOffset := n } n := by
        refine ⟨h.known, ?_, h.flags.congr rfl, hholds, ?_, h.delivers⟩
        · simp only [Conn.setStrm, hid, Function.update_self]
        · simp only [callbackOf, if_true]
          exact ⟨rfl, rfl⟩
      obtain ⟨conn', hemit, hproc⟩ := emit_within hlive rfl
      refine ⟨conn', rest.length, ?_, hproc, by simp [returnsLeft, hent]⟩
      rw [emit_ctl] at hemit
      simp only [Conn.returnRecvStreamData, hr, hpop]
      rw [← hrx] at hemit ⊢
      exact hemit

/-- What is needed to process the data of a frame: nothing it needs is out of memory or exhausted,
and if it is buffered the list has room. -/
structure Accepts (conn : Conn) (strm : Strm) (fr : StreamFrame) (env : RecvEnv) : Prop where
  window : fr.endOffset ≤ strm.maxOffset
  data : strm.lastOffset < fr.endOffset → conn.maxDataViolated (fr.endOffset - strm.lastOffset) = false
  glitch : conn.glitchRlim.CanDrain 1 env.ts
  supplied : Supplied env.reorder
  room : (∃ o, Wanted strm.entries strm.contOffset fr.offset fr.data.length o) →
    strm.entries.length + 1 < Strm.maxFragments

/-- The bytes that a frame beyond the first gap still has to add are contiguous. -/
def Unsplit (strm : Strm) (fr : StreamFrame) : Prop :=
  strm.rxOffset < fr.offset → Contiguous strm.entries strm.contOffset fr.offset fr.data.length

/-- A frame of `S`, with FIN only at its end. -/
structure FrameOf (S : List UInt8) (fr : StreamFrame) : Prop where
  slice : SliceOf S fr.chunk
  fin : fr.fin = true → fr.endOffset = S.length
  varint : fr.endOffset ≤ maxVarint

/-- The state in which the last part of `conn_recv_stream` starts. -/
structure Pre (S : List UInt8) (sid : Nat) (conn : Conn) (F : List StreamFrame) (fr : StreamFrame) (strm : Strm) :
    Prop where
  ctl : conn.ctl = .idle
  known : Known conn sid
  flags : Flags S sid (F ++ [fr]) strm
  holds : Holds S (F.map StreamFrame.chunk) strm
  gap : strm.rxOffset = strm.contOffset
  delivers : Delivers S (callsFor sid conn.delivered) strm.contOffset False

theorem chunk_append (F : List StreamFrame) (fr : StreamFrame) :
    (F ++ [fr]).map StreamFrame.chunk = F.map StreamFrame.chunk ++ [fr.chunk] := by
  simp

theorem deliverInOrder_proceeds {S : List UInt8} {sid : Nat} {conn : Conn} {F : List StreamFrame} {fr : StreamFrame}
    {strm : Strm} (h : Pre S sid conn F fr strm) (hfr : FrameOf S fr) (hoff : fr.offset ≤ strm.rxOffset)
    (hend : strm.rxOffset ≤ fr.endOffset)
    (hcall : strm.rxOffset < fr.endOffset ∨ strm.shutRd = true ∧ fr.endOffset = S.length) :
    ∃ conn', conn.deliverInOrder strm fr strm.rxOffset = .ok conn' ∧ Proceeds S sid conn' (F ++ [fr]) := by
  have hdef : fr.endOffset = fr.offset + fr.data.length := rfl
  have hcut := hfr.slice.drop hoff hend
  simp only [StreamFrame.chunk] at hcut
  have hlen : strm.rxOffset + (fr.data.drop (strm.rxOffset - fr.offset)).length = fr.endOffset := by
    rw [List.length_drop]
    omega
  obtain ⟨strm', rels, htake, heq, hholds, hcont⟩ : ∃ strm' rels,
      Conn.takeInOrder strm fr strm.rxOffset = (strm', rels, fr.endOffset) ∧
      strm' = { strm with contOffset := strm'.contOffset, reorder := strm'.reorder } ∧
      Holds S ((F ++ [fr]).map StreamFrame.chunk) strm' ∧ strm'.contOffset = fr.endOffset := by
    rw [chunk_append]
    by_cases hnil : fr.data = []
    · have hz : fr.data.length = 0 := by rw [hnil]; rfl
      refine ⟨strm, [], ?_, rfl, h.holds.duplicate (Or.inl hnil), ?_⟩
      · rw [Conn.takeInOrder, if_pos hnil, show strm.rxOffset = fr.endOffset by omega]
      · rw [← h.gap]
        omega
    · refine ⟨(strm.updateRxOffset fr.endOffset).1, (strm.updateRxOffset fr.endOffset).2, ?_, by rw [updateRxOffset_eq],
        h.holds.take hfr.slice hoff h.gap hend, Strm.updateRxOffset_contOffset _ _⟩
      rw [Conn.takeInOrder, if_neg hnil]
      simp only
      rw [show strm.rxOffset + (fr.data.length - (strm.rxOffset - fr.offset)) = fr.endOffset by omega]
  have hflags := h.flags.congr heq
  have hid := hflags.id
  have hdel := h.delivers
  rw [← h.gap] at hdel
  have hlive := Live.call ((conn.release rels).setStrm strm') h.known
    (by simp only [Conn.setStrm, hid, Function.update_self]) hflags hholds hdel not_false hcut none
    ⟨rfl, by rw [hcont, hlen]⟩
  rw [hlen] at hlive
  refine ⟨_, ?_, _, Or.inr ⟨strm', _, fr.endOffset, none, by rw [← hid]; rfl, hlive, le_refl _⟩⟩
  simp only [Conn.deliverInOrder, htake, hflags.stop, Bool.false_eq_true, if_false]
  rw [if_pos]
  rcases hcall with hlt | ⟨hs, hS⟩
  · right
    intro hnil
    rw [hnil, List.length_nil] at hlen
    omega
  · left
    have hs' : strm'.shutRd = true := by rw [heq]; exact hs
    exact ⟨hs', by rw [hflags.final hs', hS]⟩

theorem Pre.rest {S : List UInt8} {sid : Nat} {conn : Conn} {F : List StreamFrame} {fr : StreamFrame} {strm strm' : Strm}
    (h : Pre S sid conn F fr strm) (hfr : FrameOf S fr) (hoff : strm.rxOffset < fr.offset)
    (heq : strm' = { strm with reorder := strm'.reorder })
    (hholds : Holds S ((F ++ [fr]).map StreamFrame.chunk) strm') (stats : BufStats) (rlim : Ratelim) :
    Live S sid { conn.setStrm strm' with stats := stats, glitchRlim := rlim } (F ++ [fr]) strm' strm'.contOffset := by
  have hcont : strm'.contOffset = strm.contOffset := by rw [heq]
  have hflags : Flags S sid (F ++ [fr]) strm' := h.flags.congr (by rw [hcont]; exact heq)
  have hle : fr.offset ≤ S.length := by
    have := hfr.slice.le
    simp only [StreamFrame.chunk] at this
    omega
  refine ⟨h.known, ?_, hflags, hholds, ?_, ?_⟩
  · simp only [Conn.setStrm, hflags.id, Function.update_self]
  · have hctl : ({ conn.setStrm strm' with stats := stats, glitchRlim := rlim } : Conn).ctl = .idle := h.ctl
    rw [hctl]
    refine ⟨rfl, ?_⟩
    -- the frame lies above the gap, which therefore stays
    have hnot : ¬ InSomePush ((F ++ [fr]).map StreamFrame.chunk) strm'.contOffset := by
      rw [chunk_append, inSomePush_append, hcont, ← h.gap]
      rintro (ha | ⟨hin, -⟩)
      · exact h.holds.gap.2 ha
      · simp only [StreamFrame.chunk] at hin
        omega
    rcases Nat.eq_or_lt_of_le (cont_le_rxOffset hholds.wf) with hg | hgt
    · exact hg.symm
    · exact absurd (hholds.gap.1 _ hgt) hnot
  · have hdel := h.delivers
    rw [hcont]
    refine hdel.congr ⟨False.elim, fun hbelow => ?_⟩
    have hn := hbelow.2
    have := h.gap
    omega

theorem bufferStream_rests {S : List UInt8} {sid : Nat} {conn : Conn} {F : List StreamFrame} {fr : StreamFrame}
    {strm : Strm} {env : RecvEnv} (h : Pre S sid conn F fr strm) (hfr : FrameOf S fr)
    (hoff : strm.rxOffset < fr.offset) (hglitch : conn.glitchRlim.CanDrain 1 env.ts) (hsup : Supplied env.reorder)
    (hcontig : Contiguous strm.entries strm.contOffset fr.offset fr.data.length)
    (hroom : (∃ o, Wanted strm.entries strm.contOffset fr.offset fr.data.length o) →
      strm.entries.length + 1 < Strm.maxFragments) :
    ∃ conn', conn.bufferStream strm fr env = .ok conn' ∧ Rests S sid conn' (F ++ [fr]) := by
  have hv := maxVarint_lt
  have hvar := hfr.varint
  have hdef : fr.endOffset = fr.offset + fr.data.length := rfl
  obtain ⟨hok, hholds⟩ := h.holds.recvReordering conn.stats hfr.slice (by omega) hsup hcontig hroom
  have hflags := Release.connRecvReordering_flags conn.stats strm fr.data fr.offset env.reorder
  simp only [Conn.bufferStream]
  generalize connRecvReordering conn.stats strm fr.data fr.offset env.reorder = r at hok hholds hflags
  have hlive := h.rest hfr hoff hflags (by rw [chunk_append]; exact hholds) r.stats
  rw [hok]
  simp only [ne_eq, not_true_eq_false, if_false]
  split
  · obtain ⟨rlim, hd⟩ := hglitch
    have hg : ({ conn.setStrm r.strm with stats := r.stats } : Conn).glitch env.ts =
        .ok { conn.setStrm r.strm with stats := r.stats, glitchRlim := rlim } := by
      simp only [Conn.glitch, Conn.setStrm, hd]
    rw [hg]
    exact ⟨_, rfl, (hlive rlim).closeIf h.ctl⟩
  · exact ⟨_, rfl, (hlive conn.glitchRlim).closeIf h.ctl⟩

theorem deliverStream_proceeds {S : List UInt8} {sid : Nat} {conn : Conn} {F : List StreamFrame} {fr : StreamFrame}
    {strm : Strm} {env : RecvEnv} (h : Pre S sid conn F fr strm) (hfr : FrameOf S fr)
    (hend : strm.rxOffset ≤ fr.endOffset)
    (hcall : strm.rxOffset < fr.endOffset ∨ strm.shutRd = true ∧ fr.endOffset = S.length)
    (hglitch : conn.glitchRlim.CanDrain 1 env.ts) (hsup : Supplied env.reorder) (hcontig : Unsplit strm fr)
    (hroom : (∃ o, Wanted strm.entries strm.contOffset fr.offset fr.data.length o) →
      strm.entries.length + 1 < Strm.maxFragments) :
    ∃ conn', conn.deliverStream strm fr strm.rxOffset env = .ok conn' ∧ Proceeds S sid conn' (F ++ [fr]) := by
  unfold Conn.deliverStream
  split
  · rename_i hoff
    exact deliverInOrder_proceeds h hfr hoff hend hcall
  · rename_i hoff
    split
    · obtain ⟨conn', hb, hrest⟩ := bufferStream_rests h hfr (by omega) hglitch hsup (hcontig (by omega)) hroom
      exact ⟨conn', hb, 0, Or.inl hrest⟩
    · rename_i hnil
      have hdata : fr.data = [] := by
        by_contra hne
        exact hnil ⟨hne, h.flags.stop⟩
      have hlive := h.rest hfr (by omega) rfl (by rw [chunk_append]; exact h.holds.duplicate (Or.inl hdata)) conn.stats
        conn.glitchRlim
      exact ⟨_, rfl, 0, Or.inl (hlive.closeIf h.ctl)⟩

theorem account_eq (conn : Conn) {strm : Strm} (hstop : strm.stopSending = false) (endOffset : Nat) :
    ∃ offset, conn.account strm endOffset = { conn with offset := offset } := by
  unfold Conn.account
  split
  · exact ⟨conn.offset + (endOffset - strm.lastOffset), by simp only [hstop, Bool.false_eq_true, if_false]⟩
  · exact ⟨conn.offset, rfl⟩

theorem Live.at_rest {S : List UInt8} {sid : Nat} {conn : Conn} {F : List StreamFrame} {strm : Strm} {n : Nat}
    (h : Live S sid conn F strm n) (hctl : conn.ctl = .idle) :
    n = strm.contOffset ∧ strm.rxOffset = strm.contOffset := by
  have hpl := h.placed
  rw [hctl] at hpl
  exact hpl

/-- The stream with the last offset and the final size that a frame sets. -/
theorem Live.pre {S : List UInt8} {sid : Nat} {conn : Conn} {F : List StreamFrame} {strm : Strm} {n : Nat}
    (h : Live S sid conn F strm n) (hctl : conn.ctl = .idle) {fr : StreamFrame} {last : Nat} {shutRd : Bool}
    (hlast : last ≤ S.length) (hshut : shutRd = true ↔ strm.shutRd = true ∨ fr.fin = true)
    (hfinal : shutRd = true → last = S.length) (hn : ¬ (strm.shutRd = true ∧ n = S.length)) (offset : Nat) :
    Pre S sid { conn with offset := offset } F fr { strm with lastOffset := last, shutRd := shutRd } := by
  obtain ⟨hn', hgap⟩ := h.at_rest hctl
  refine ⟨hctl, h.known, ⟨h.flags.id, h.flags.stop, h.flags.live, hlast, ?_, hfinal⟩, h.holds.congr rfl rfl, ?_, ?_⟩
  · rw [fin_append, ← h.flags.shut]
    exact hshut
  · exact (rxOffset_congr rfl rfl).trans hgap
  · have hdel := h.delivers.congr (iff_false_intro hn)
    rw [hn'] at hdel
    exact hdel

/-- A frame without new bytes leaves the stream at rest. -/
theorem Live.duplicate {S : List UInt8} {sid : Nat} {conn : Conn} {F : List StreamFrame} {strm : Strm} {n : Nat}
    (h : Live S sid conn F strm n) (hctl : conn.ctl = .idle) (fr : StreamFrame) {last : Nat}
    (hlast : last ≤ S.length) (hfinal : strm.shutRd = true → last = S.length)
    (hfin : fr.fin = true → strm.shutRd = true) (hend : fr.endOffset ≤ strm.rxOffset) (offset : Nat) (rlim : Ratelim) :
    Rests S sid { conn.setStrm { strm with lastOffset := last } with offset := offset, glitchRlim := rlim }
      (F ++ [fr]) := by
  refine Or.inl ⟨hctl, { strm with lastOffset := last }, n, h.known, ?_, ?_, ?_, ?_, h.delivers⟩
  · simp only [Conn.setStrm, h.flags.id, Function.update_self]
  · refine ⟨h.flags.id, h.flags.stop, h.flags.live, hlast, ?_, hfinal⟩
    rw [fin_append, ← h.flags.shut]
    exact ⟨Or.inl, fun hor => hor.elim id hfin⟩
  · rw [chunk_append]
    exact (h.holds.duplicate (c := fr.chunk) (Or.inr hend)).congr rfl rfl
  · have hctl' : ({ conn.setStrm { strm with lastOffset := last } with offset := offset, glitchRlim := rlim } :
        Conn).ctl = .idle := hctl
    rw [hctl']
    exact h.at_rest hctl

theorem glitchUnless_ok (conn : Conn) {ts : Nat} (isNew : Bool) (h : conn.glitchRlim.CanDrain 1 ts) :
    ∃ rlim, conn.glitchUnless isNew ts = .ok { conn with glitchRlim := rlim } := by
  obtain ⟨rlim, hd⟩ := h
  cases isNew
  · exact ⟨rlim, by simp only [Conn.glitchUnless, Conn.glitch, hd, Bool.false_eq_true, if_false]⟩
  · exact ⟨conn.glitchRlim, by simp only [Conn.glitchUnless, if_true]⟩

theorem recvStreamOn_proceeds {S : List UInt8} {sid : Nat} {conn : Conn} {F : List StreamFrame} {strm : Strm} {n : Nat}
    (h : Live S sid conn F strm n) (hctl : conn.ctl = .idle) {fr : StreamFrame} {env : RecvEnv} (hfr : FrameOf S fr)
    (hacc : Accepts conn strm fr env) (hu : Unsplit strm fr) (isNew : Bool) :
    ∃ conn', conn.recvStreamOn strm fr isNew env = .ok conn' ∧ Proceeds S sid conn' (F ++ [fr]) := by
  obtain ⟨hn, hgap⟩ := h.at_rest hctl
  have hwin := hacc.window
  have hle : fr.endOffset ≤ S.length := hfr.slice.le
  have hrx := h.holds.rxOffset_le
  have hviol : ¬ (strm.lastOffset < fr.endOffset ∧ conn.maxDataViolated (fr.endOffset - strm.lastOffset) = true) := by
    rintro ⟨hlt, hv⟩
    rw [hacc.data hlt] at hv
    cases hv
  have hlive : ¬ strm.resetStreamRecved = true := by simp [h.flags.live]
  obtain ⟨offset, hacct⟩ := account_eq conn h.flags.stop fr.endOffset
  have hself : conn.setStrm { strm with lastOffset := strm.lastOffset } = conn := by
    rw [Conn.setStrm, h.flags.id, show ({ strm with lastOffset := strm.lastOffset } : Strm) = strm from rfl, ← h.stored,
      Function.update_eq_self]
  -- the last part of the function, for the stream with its new last offset and final size
  have hdeliver : ∀ last shutRd, last ≤ S.length → (shutRd = true ↔ strm.shutRd = true ∨ fr.fin = true) →
      (shutRd = true → last = S.length) → ¬ (strm.shutRd = true ∧ n = S.length) → strm.rxOffset ≤ fr.endOffset →
      (strm.rxOffset < fr.endOffset ∨ shutRd = true ∧ fr.endOffset = S.length) →
      ∃ conn', ({ conn with offset := offset } : Conn).deliverStream { strm with lastOffset := last, shutRd := shutRd }
        fr strm.rxOffset env = .ok conn' ∧ Proceeds S sid conn' (F ++ [fr]) := by
    intro last shutRd h₁ h₂ h₃ h₄ h₅ h₆
    have hpre := h.pre hctl h₁ h₂ h₃ h₄ offset
    have hrxe : ({ strm with lastOffset := last, shutRd := shutRd } : Strm).rxOffset = strm.rxOffset :=
      rxOffset_congr rfl rfl
    rw [← hrxe] at h₅ h₆ ⊢
    exact deliverStream_proceeds hpre hfr h₅ h₆ hacc.glitch hacc.supplied (fun hlt => hu (by rw [← hrxe]; exact hlt)) hacc.room
  simp only [Conn.recvStreamOn, if_neg (by omega : ¬ strm.maxOffset < fr.endOffset), if_neg hviol, hacct]
  by_cases hfin : fr.fin = true
  · have hS := hfr.fin hfin
    rw [if_pos hfin]
    by_cases hshut : strm.shutRd = true
    · have hlast := h.flags.final hshut
      rw [if_pos hshut, if_neg (by omega), if_neg hlive]
      split
      · rename_i hdup
        obtain ⟨rlim, hg⟩ := glitchUnless_ok { conn with offset := offset } isNew hacc.glitch
        rw [hg]
        have hrest := h.duplicate hctl fr h.flags.last_le h.flags.final (fun _ => hshut) (by omega) offset rlim
        rw [hself] at hrest
        exact ⟨_, rfl, 0, Or.inl hrest⟩
      · exact hdeliver strm.lastOffset strm.shutRd h.flags.last_le (by simp [hshut]) h.flags.final
          (fun hc => by omega) (by omega) (Or.inl (by omega))
    · have hlast := h.flags.last_le
      rw [if_neg hshut, if_neg (by omega)]
      exact hdeliver fr.endOffset true hle (by simp [hfin]) (fun _ => hS) (fun hc => hshut hc.1) (by omega)
        (Or.inr ⟨rfl, hS⟩)
  · rw [if_neg hfin, if_neg (fun hc => by have := h.flags.final hc.1; omega)]
    have hlast : max strm.lastOffset fr.endOffset ≤ S.length := max_le h.flags.last_le hle
    have hfinal : strm.shutRd = true → max strm.lastOffset fr.endOffset = S.length := fun hs => by
      have := h.flags.final hs
      omega
    split
    · rename_i hdup
      obtain ⟨rlim, hg⟩ := glitchUnless_ok (({ conn with offset := offset } : Conn).setStrm
        { strm with lastOffset := max strm.lastOffset fr.endOffset }) isNew hacc.glitch
      rw [hg]
      exact ⟨_, rfl, 0, Or.inl (h.duplicate hctl fr hlast hfinal (fun hf => absurd hf hfin) hdup offset rlim)⟩
    · rename_i hnew
      exact hdeliver _ strm.shutRd hlast (by simp [hfin]) hfinal (fun hc => by omega) (by omega) (Or.inl (by omega))

end Zngtcp2.Rx
