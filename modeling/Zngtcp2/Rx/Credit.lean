import Zngtcp2.Rx.Stream
import Zngtcp2.Lib.Run
import Mathlib.Algebra.BigOperators.Group.Finset.Basic

namespace Zngtcp2.Rx

open Reorder

/-- The number of bytes of a stream that a log of callback calls carries. -/
def deliveredTo (log : List Delivery) (streamId : Nat) : Nat :=
  ((log.filter (fun d => d.streamId = streamId)).map (fun d => d.data.length)).sum

def callbackOf (streamId : Nat) : Ctl → Option (Nat × Option (Nat × Nat))
  | .recvStreamData id rxOffset popping => if id = streamId then some (rxOffset, popping) else none
  | .idle | .streamOpen _ | .streamReset _ _ | .other => none

/-- What the flow control accounting sees of one stream. -/
structure Snap where
  strm : Option Strm
  closed : Option Strm
  credited : Nat
  delivered : Nat
  cb : Option (Nat × Option (Nat × Nat))

def Conn.snap (conn : Conn) (streamId : Nat) : Snap :=
  ⟨conn.strms streamId, conn.closed streamId, conn.credited streamId, deliveredTo conn.delivered streamId,
    callbackOf streamId conn.ctl⟩

/-- The last offset of a stream, with its final value once the stream is closed. -/
def Snap.last (s : Snap) : Nat :=
  ((s.strm.or s.closed).map Strm.lastOffset).getD 0

def Halted (strm : Strm) : Prop :=
  strm.stopSending = true ∨ strm.resetStreamRecved = true

/-- The account of an open stream with `credited` bytes returned and `n` bytes delivered. -/
structure OpenInv (strm : Strm) (credited n : Nat) (cb : Option (Nat × Option (Nat × Nat))) : Prop where
  bounded : Bounded strm
  last_le : strm.lastOffset ≤ maxVarint
  stopped : strm.stopSending = true → strm.reorder = none
  account : Halted strm → credited + n = strm.lastOffset
  untouched : ¬ Halted strm → credited = 0 ∧ Placed strm n cb
  live : cb ≠ none → strm.resetStreamRecved = false
  shut : strm.resetStreamRecved = true → strm.shutRd = true

def Snap.Inv (streamId : Nat) (s : Snap) : Prop :=
  match s.strm, s.closed with
  | some strm, none => strm.streamId = streamId ∧ OpenInv strm s.credited s.delivered s.cb
  | some _, some _ => False
  | none, some strm => s.cb = none ∧ (Halted strm → s.credited + s.delivered = strm.lastOffset)
  | none, none => s.cb = none ∧ s.credited = 0 ∧ s.delivered = 0

/-- The limits of the connection. The window stays below the limit that was announced with it, so
that the tuning does not overflow, or the limit has reached its maximum. -/
structure Flow (offset maxOffset unsentMaxOffset window : Nat) : Prop where
  offset_le : offset ≤ maxOffset
  max_le : maxOffset ≤ unsentMaxOffset
  unsent_le : unsentMaxOffset ≤ maxVarint
  window_le : window ≤ maxOffset ∨ maxOffset = maxVarint

def Conn.Flow (conn : Conn) : Prop :=
  Rx.Flow conn.offset conn.maxOffset conn.unsentMaxOffset conn.window

/-- A reset whose callback runs has its new bytes within the limits. -/
def ResetPending (strms : Nat → Option Strm) (offset maxOffset : Nat) : Ctl → Prop
  | .streamReset fr datalen =>
      ∃ strm, strms fr.streamId = some strm ∧ strm.resetStreamRecved = false ∧
        strm.lastOffset + datalen = fr.finalSize ∧ fr.finalSize ≤ strm.maxOffset ∧ offset + datalen ≤ maxOffset
  | .idle | .streamOpen _ | .recvStreamData _ _ _ | .other => True

structure Inv (conn : Conn) : Prop where
  streams : ∀ id, (conn.snap id).Inv id
  fresh : ∀ id, id ∉ conn.opened → conn.strms id = none ∧ conn.closed id = none
  next_local : conn.localStream conn.localBidiNextStreamId = true ∧ bidiStream conn.localBidiNextStreamId = true
  next : ∀ id ∈ conn.opened, conn.localStream id = true → id < conn.localBidiNextStreamId
  total : conn.offset = ∑ id ∈ conn.opened, (conn.snap id).last
  flow : conn.Flow
  reset : ResetPending conn.strms conn.offset conn.maxOffset conn.ctl
  params : conn.params.initialMaxStreamDataBidiLocal ≤ maxVarint ∧
    conn.params.initialMaxStreamDataBidiRemote ≤ maxVarint ∧ conn.params.initialMaxStreamDataUni ≤ maxVarint

theorem Inv.opened {conn : Conn} (h : Inv conn) {id : Nat} {strm : Strm} (hs : conn.strms id = some strm) :
    id ∈ conn.opened := by
  by_contra hn
  rw [(h.fresh id hn).1] at hs
  cases hs

theorem Inv.open {conn : Conn} (h : Inv conn) {id : Nat} {strm : Strm} (hs : conn.strms id = some strm) :
    strm.streamId = id ∧ conn.closed id = none ∧
      OpenInv strm (conn.credited id) (deliveredTo conn.delivered id) (callbackOf id conn.ctl) := by
  have hi := h.streams id
  simp only [Snap.Inv, Conn.snap, hs] at hi
  cases hc : conn.closed id with
  | none =>
      rw [hc] at hi
      exact ⟨hi.1, rfl, hi.2⟩
  | some _ =>
      rw [hc] at hi
      exact hi.elim

/-- The fields that only the opening of streams changes. -/
def SameStreams (conn conn' : Conn) : Prop :=
  conn'.opened = conn.opened ∧ conn'.server = conn.server ∧
    conn'.localBidiNextStreamId = conn.localBidiNextStreamId ∧ conn'.params = conn.params

/-- A step that touches one open stream keeps the invariant if the stream's account is right again
and the connection's offset has moved with the stream's last offset. -/
theorem Inv.change {conn conn' : Conn} (h : Inv conn) {id : Nat} (hid : id ∈ conn.opened)
    (hsame : SameStreams conn conn') (hother : ∀ x, x ≠ id → conn'.snap x = conn.snap x)
    (hinv : (conn'.snap id).Inv id)
    (htotal : conn'.offset + (conn.snap id).last = conn.offset + (conn'.snap id).last)
    (hflow : conn'.Flow) (hreset : ResetPending conn'.strms conn'.offset conn'.maxOffset conn'.ctl) : Inv conn' := by
  obtain ⟨hopened, hserver, hnext, hparams⟩ := hsame
  have hlocal : ∀ x, conn'.localStream x = conn.localStream x := fun x => by rw [Conn.localStream, Conn.localStream, hserver]
  refine ⟨?_, ?_, ?_, ?_, ?_, hflow, hreset, by rw [hparams]; exact h.params⟩
  · intro x
    by_cases hx : x = id
    · rw [hx]
      exact hinv
    · rw [hother x hx]
      exact h.streams x
  · intro x hx
    rw [hopened] at hx
    have hne : x ≠ id := fun heq => hx (heq ▸ hid)
    have hsnap := hother x hne
    simp only [Conn.snap, Snap.mk.injEq] at hsnap
    rw [hsnap.1, hsnap.2.1]
    exact h.fresh x hx
  · rw [hnext, hlocal]
    exact h.next_local
  · intro x hx
    rw [hopened] at hx
    rw [hlocal, hnext]
    exact h.next x hx
  · have hsum := Finset.sum_erase_add conn.opened (fun x => (conn.snap x).last) hid
    have hsum' := Finset.sum_erase_add conn.opened (fun x => (conn'.snap x).last) hid
    have herase : ∑ x ∈ conn.opened.erase id, (conn'.snap x).last = ∑ x ∈ conn.opened.erase id, (conn.snap x).last :=
      Finset.sum_congr rfl (fun x hx => by rw [hother x (Finset.ne_of_mem_erase hx)])
    have ht := h.total
    rw [hopened]
    omega

theorem snap_last_open {conn : Conn} {id : Nat} {strm : Strm} (hs : conn.strms id = some strm) :
    (conn.snap id).last = strm.lastOffset := by
  simp [Snap.last, Conn.snap, hs]

/-- The connection after a step that touches one stream and leaves it open. -/
def Conn.touch (conn : Conn) (id : Nat) (strm : Strm) (credited : Nat) (log : List Delivery) (ctl : Ctl)
    (offset unsent : Nat) (stats : BufStats) (rlim : Ratelim) : Conn :=
  { conn with
    strms := Function.update conn.strms id (some strm)
    credited := Function.update conn.credited id credited
    delivered := log
    ctl := ctl
    offset := offset
    unsentMaxOffset := unsent
    stats := stats
    glitchRlim := rlim }

theorem Inv.touch {conn : Conn} (h : Inv conn) {id : Nat} {strm strm' : Strm} (hs : conn.strms id = some strm)
    {credited : Nat} {log : List Delivery} {ctl : Ctl} {offset unsent : Nat} (stats : BufStats) (rlim : Ratelim)
    (hid : strm'.streamId = id) (hlog : ∀ x, x ≠ id → deliveredTo log x = deliveredTo conn.delivered x)
    (hcb : ∀ x, x ≠ id → callbackOf x ctl = callbackOf x conn.ctl)
    (hopen : OpenInv strm' credited (deliveredTo log id) (callbackOf id ctl))
    (htotal : offset + strm.lastOffset = conn.offset + strm'.lastOffset)
    (hflow : Flow offset conn.maxOffset unsent conn.window)
    (hreset : ResetPending (Function.update conn.strms id (some strm')) offset conn.maxOffset ctl) :
    Inv (conn.touch id strm' credited log ctl offset unsent stats rlim) := by
  obtain ⟨-, hnone, -⟩ := h.open hs
  refine h.change (h.opened hs) ⟨rfl, rfl, rfl, rfl⟩ ?_ ?_ ?_ hflow hreset
  · intro x hx
    simp only [Conn.snap, Conn.touch, Function.update_of_ne hx, hlog x hx, hcb x hx]
  · simp only [Snap.Inv, Conn.snap, Conn.touch, Function.update_self, hnone]
    exact ⟨hid, hopen⟩
  · have hs' : (conn.touch id strm' credited log ctl offset unsent stats rlim).strms id = some strm' :=
      Function.update_self _ _ _
    rw [snap_last_open hs, snap_last_open hs']
    exact htotal

/-- A stream is closed outside of its callback; its account stays as it is. -/
theorem Inv.closeStream {conn : Conn} (h : Inv conn) {id : Nat} {strm : Strm} (hs : conn.strms id = some strm)
    (hctl : conn.ctl = .idle) : Inv (conn.closeStream strm) := by
  obtain ⟨hsid, hnone, hopen⟩ := h.open hs
  have hidle : (conn.closeStream strm).ctl = .idle := hctl
  have hlast : ((conn.closeStream strm).snap id).last = strm.lastOffset := by
    simp [Snap.last, Conn.snap, Conn.closeStream, Conn.release, hsid]
  refine h.change (h.opened hs) ⟨rfl, rfl, rfl, rfl⟩ ?_ ?_ ?_ h.flow ?_
  · intro x hx
    simp only [Conn.snap, Conn.closeStream, Conn.release, hsid, Function.update_of_ne hx]
  · simp only [Snap.Inv, Conn.snap, Conn.closeStream, Conn.release, hsid, Function.update_self, hctl]
    exact ⟨rfl, hopen.account⟩
  · rw [snap_last_open hs, hlast]
    rfl
  · rw [hidle]
    trivial

theorem Inv.closeIf {conn : Conn} (h : Inv conn) {id : Nat} {strm : Strm} (hs : conn.strms id = some strm)
    (hctl : conn.ctl = .idle) : Inv (conn.closeStreamIfShutRdwr strm) := by
  unfold Conn.closeStreamIfShutRdwr
  split
  · exact h.closeStream hs hctl
  · exact h

theorem ResetPending.update {strms : Nat → Option Strm} {offset maxOffset : Nat} {ctl : Ctl}
    (h : ResetPending strms offset maxOffset ctl) {id : Nat} {strm strm' : Strm} (hs : strms id = some strm)
    (hreset : strm'.resetStreamRecved = strm.resetStreamRecved) (hlast : strm'.lastOffset = strm.lastOffset)
    (hmax : strm.maxOffset ≤ strm'.maxOffset) :
    ResetPending (Function.update strms id (some strm')) offset maxOffset ctl := by
  cases ctl with
  | streamReset fr datalen =>
      obtain ⟨strm₀, hs₀, h₁, h₂, h₃, h₄⟩ := h
      by_cases hx : fr.streamId = id
      · rw [hx, hs] at hs₀
        cases hs₀
        exact ⟨strm', by rw [hx, Function.update_self], hreset.trans h₁, by rw [hlast]; exact h₂, by omega, h₄⟩
      · exact ⟨strm₀, by rw [Function.update_of_ne hx]; exact hs₀, h₁, h₂, h₃, h₄⟩
  | idle | streamOpen | recvStreamData | other => trivial

theorem Flow.extend {offset maxOffset unsent window : Nat} (h : Flow offset maxOffset unsent window) (n : Nat) :
    Flow offset maxOffset (if maxVarint < n ∨ unsent > maxVarint - n then maxVarint else unsent + n) window := by
  obtain ⟨h₁, h₂, h₃, h₄⟩ := h
  refine ⟨h₁, ?_, ?_, h₄⟩
  · split <;> omega
  · split <;> omega

theorem Flow.grow {offset maxOffset unsent window n : Nat} (h : Flow offset maxOffset unsent window)
    (hn : offset + n ≤ maxOffset) : Flow (offset + n) maxOffset unsent window :=
  ⟨hn, h.max_le, h.unsent_le, h.window_le⟩

theorem le_of_not_violated {conn : Conn} (h : conn.Flow) {n : Nat} (hv : ¬ conn.maxDataViolated n = true) :
    conn.offset + n ≤ conn.maxOffset := by
  have hmax : maxVarint < 2 ^ 64 := by simp [maxVarint]
  have h₁ := h.offset_le
  have h₂ := h.max_le
  have h₃ := h.unsent_le
  simp only [Conn.maxDataViolated, decide_eq_true_eq, sub64_of_le h₁ (by omega)] at hv
  omega

theorem deliveredTo_append (log : List Delivery) (d : Delivery) (x : Nat) :
    deliveredTo (log ++ [d]) x = deliveredTo log x + if d.streamId = x then d.data.length else 0 := by
  by_cases hx : d.streamId = x <;> simp [deliveredTo, hx]

theorem Inv.extendMaxOffset {conn : Conn} (h : Inv conn) (n : Nat) : Inv (conn.extendMaxOffset n) := by
  exact ⟨h.streams, h.fresh, h.next_local, h.next, h.total, Flow.extend h.flow n, h.reset, h.params⟩

theorem Bounded.of_maxOffset {strm : Strm} (h : Bounded strm) {maxOffset unsent : Nat} (h₁ : maxOffset ≤ maxVarint)
    (h₂ : unsent ≤ maxVarint) : Bounded { strm with maxOffset := maxOffset, unsentMaxOffset := unsent } :=
  ⟨h.wf, h.cont_le, h.end_le, h₁, h₂⟩

theorem OpenInv.of_maxOffset {strm : Strm} {credited n : Nat} {cb : Option (Nat × Option (Nat × Nat))}
    (h : OpenInv strm credited n cb) {maxOffset unsent : Nat} (h₁ : maxOffset ≤ maxVarint) (h₂ : unsent ≤ maxVarint) :
    OpenInv { strm with maxOffset := maxOffset, unsentMaxOffset := unsent } credited n cb := by
  refine ⟨h.bounded.of_maxOffset h₁ h₂, h.last_le, h.stopped, h.account, fun hn => ?_, h.live, h.shut⟩
  obtain ⟨hc, hp⟩ := h.untouched hn
  refine ⟨hc, ?_⟩
  rcases cb with _ | ⟨rx, _ | ⟨o, len⟩⟩ <;> exact hp

/-- The only step that may return less credit than is due. -/
theorem Inv.stopReading {conn : Conn} (h : Inv conn) {id : Nat} {strm : Strm} (hs : conn.strms id = some strm)
    (heff : Conn.stopsReading strm = true)
    (hgap : ∀ rx popping, conn.ctl = .recvStreamData id rx popping → strm.rxOffset = rx) :
    Inv (conn.stopReading strm) := by
  obtain ⟨rfl, -, hopen⟩ := h.open hs
  have hnot : ¬ Halted strm := by
    simp only [Conn.stopsReading, Bool.and_eq_true, Bool.not_eq_true', Bool.or_eq_false_iff] at heff
    simp [Halted, heff.1.1, heff.1.2]
  obtain ⟨hzero, hplaced⟩ := hopen.untouched hnot
  have hle := hopen.bounded.rxOffset_le
  have hn : deliveredTo conn.delivered strm.streamId = strm.rxOffset := by
    cases hctl : conn.ctl with
    | recvStreamData id' rx popping =>
        by_cases hx : id' = strm.streamId
        · subst hx
          have hrx := hgap rx popping hctl
          rw [hctl, callbackOf, if_pos rfl] at hplaced
          cases popping with
          | none => exact hplaced.1.trans hrx.symm
          | some p => exact hplaced.1.trans hrx.symm
        · rw [hctl, callbackOf, if_neg hx] at hplaced
          exact hplaced.1.trans hplaced.2.symm
    | idle | streamOpen | streamReset | other =>
        rw [hctl] at hplaced
        exact hplaced.1.trans hplaced.2.symm
  have hr : ({ strm with stopSending := true } : Strm).discardReorderedData.1 =
      { strm with stopSending := true, reorder := none, contOffset := strm.rxOffset } := by
    cases hre : strm.reorder <;> simp [Strm.discardReorderedData, Strm.rxOffset, hre]
  have heq : conn.stopReading strm = conn.touch strm.streamId
      { strm with stopSending := true, reorder := none, contOffset := strm.rxOffset }
      (conn.credited strm.streamId + (strm.lastOffset - strm.rxOffset)) conn.delivered conn.ctl conn.offset
      (conn.extendMaxOffset (strm.lastOffset - strm.rxOffset)).unsentMaxOffset
      (connReorderReleaseAll conn.stats ({ strm with stopSending := true } : Strm).discardReorderedData.2)
      conn.glitchRlim := by
    simp only [Conn.stopReading, Conn.setStrm, Conn.release, Conn.credit, Conn.extendMaxOffset, Conn.touch, hr]
  rw [heq]
  refine h.touch hs _ _ rfl (fun _ _ => rfl) (fun _ _ => rfl) ?_ rfl (Flow.extend h.flow _) ?_
  · refine ⟨⟨trivial, hle, by simp [Strm.entries], hopen.bounded.max_le, hopen.bounded.unsent_le⟩, hopen.last_le,
      fun _ => rfl, fun _ => ?_, fun hn => absurd (Or.inl rfl) hn, hopen.live, hopen.shut⟩
    rw [hn, hzero]
    simp only
    omega
  · exact h.reset.update hs rfl rfl (le_refl _)

end Zngtcp2.Rx
