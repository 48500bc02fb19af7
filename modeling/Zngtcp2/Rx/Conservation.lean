import Zngtcp2.Rx.CreditRuns

namespace Zngtcp2.Rx

open Reorder Lib.Run

theorem Inv.recvResetStreamOn {conn conn' : Conn} (h : Inv conn) {strm : Strm} {fr : ResetStream} {env : RecvEnv}
    (hs : conn.strms fr.streamId = some strm) (hctl : conn.ctl = .idle)
    (hr : conn.recvResetStreamOn strm fr env = .ok conn') : Inv conn' := by
  obtain ⟨hsid, -, hopen⟩ := h.open hs
  simp only [Conn.recvResetStreamOn] at hr
  split at hr
  · cases hr
  rename_i hfin
  split at hr
  · cases hr
  rename_i hle
  split at hr
  · exact h.glitch hr
  rename_i hreset
  split at hr
  · cases hr
  rename_i hmax
  split at hr
  · cases hr
  rename_i hviol
  cases hr
  have hlast : strm.lastOffset ≤ fr.finalSize := by
    by_contra hc
    cases hshut : strm.shutRd with
    | true => exact hfin ⟨hshut, by omega⟩
    | false => exact hle ⟨hshut, by omega⟩
  have hcb : ∀ x, callbackOf x conn.ctl = none := fun x => by rw [hctl]; rfl
  refine ⟨fun x => ?_, h.fresh, h.next_local, h.next, ?_, h.flow, ?_, h.params⟩
  · have hx := h.streams x
    simp only [Conn.snap, hcb] at hx
    exact hx
  · exact h.total
  · exact ⟨strm, hs, by simpa using hreset, by omega, by omega, le_of_not_violated h.flow hviol⟩

theorem Inv.returnStreamReset {conn : Conn} (h : Inv conn) {strm : Strm} {fr : ResetStream} {datalen : Nat}
    (hs : conn.strms fr.streamId = some strm) (hctl : conn.ctl = .streamReset fr datalen) :
    Inv (conn.returnStreamReset strm fr datalen) := by
  obtain ⟨hsid, -, hopen⟩ := h.open hs
  have hcb : ∀ x, callbackOf x conn.ctl = none := fun x => by rw [hctl]; rfl
  rw [hcb] at hopen
  have hpend := h.reset
  rw [hctl] at hpend
  obtain ⟨strm₀, hs₀, hlive, hfinal, hmax, hroom⟩ := hpend
  rw [hs] at hs₀
  cases hs₀
  have hb := hopen.bounded
  have hm := hb.max_le
  have hrx := hb.rxOffset_le
  set strm' : Strm := { strm with lastOffset := fr.finalSize, shutRd := true, resetStreamRecved := true } with hstrm'
  obtain ⟨unsent, hflow, heq⟩ : ∃ unsent, Flow (conn.offset + datalen) conn.maxOffset unsent conn.window ∧
      conn.returnStreamReset strm fr datalen = { (conn.touch fr.streamId strm' (conn.credited fr.streamId +
        (if strm.stopSending then 0 else strm.lastOffset - strm.rxOffset) + datalen) conn.delivered .idle
        (conn.offset + datalen) unsent conn.stats conn.glitchRlim).closeStreamIfShutRdwr strm' with ctl := .idle } := by
    have hclose : ∀ c : Conn, ({ c.closeStreamIfShutRdwr strm' with ctl := .idle } : Conn) =
        { ({ c with ctl := .idle } : Conn).closeStreamIfShutRdwr strm' with ctl := .idle } := by
      intro c
      unfold Conn.closeStreamIfShutRdwr
      split <;> rfl
    by_cases hst : strm.stopSending = true
    · refine ⟨_, Flow.extend (Flow.grow h.flow hroom) datalen, ?_⟩
      rw [Conn.returnStreamReset, hclose]
      simp only [hst, if_true, Conn.credit, Conn.extendMaxOffset, Conn.setStrm, Conn.touch, hsid, Nat.add_zero, hstrm']
    · refine ⟨_, Flow.extend (Flow.extend (Flow.grow h.flow hroom) (strm.lastOffset - strm.rxOffset)) datalen, ?_⟩
      rw [Conn.returnStreamReset, hclose]
      simp only [hst, if_false, Conn.credit, Conn.extendMaxOffset, Conn.setStrm, Conn.touch, hsid, hstrm',
        Bool.false_eq_true, Function.update_self, Function.update_idem]
  have htouch : Inv (conn.touch fr.streamId strm' (conn.credited fr.streamId +
      (if strm.stopSending then 0 else strm.lastOffset - strm.rxOffset) + datalen) conn.delivered .idle
      (conn.offset + datalen) unsent conn.stats conn.glitchRlim) := by
    refine h.touch hs _ _ hsid (fun _ _ => rfl) (fun x _ => by rw [hcb]; rfl) ?_ ?_ hflow trivial
    · refine ⟨⟨hb.wf, ?_, ?_, hm, hb.unsent_le⟩, ?_, hopen.stopped, fun _ => ?_,
        fun hn => absurd (Or.inr rfl) hn, fun hc => absurd rfl hc, fun _ => rfl⟩
      · have := hb.cont_le
        simp only [hstrm']
        omega
      · intro ent he
        have := hb.end_le ent he
        simp only [hstrm']
        omega
      · simp only [hstrm']
        omega
      · simp only [hstrm']
        by_cases hst : strm.stopSending = true
        · have hacc := hopen.account (Or.inl hst)
          simp only [hst, if_true]
          omega
        · obtain ⟨hz, hn₁, hn₂⟩ := hopen.untouched (by simp [Halted, hst, hlive])
          simp only [hst, if_false, Bool.false_eq_true]
          omega
    · simp only [hstrm']
      omega
  have hclosed := htouch.closeIf (touch_strms conn fr.streamId strm' _ _ _ _ _ _ _) rfl
  rw [heq]
  unfold Conn.closeStreamIfShutRdwr at hclosed ⊢
  split
  · rename_i hc
    rw [if_pos hc] at hclosed
    exact hclosed
  · exact htouch

theorem Inv.recvStreamDataBlockedOn {conn conn' : Conn} (h : Inv conn) {strm : Strm} {fr : StreamDataBlocked}
    (hs : conn.strms strm.streamId = some strm) (hctl : conn.ctl = .idle)
    (hr : conn.recvStreamDataBlockedOn strm fr = .ok conn') : Inv conn' := by
  obtain ⟨-, -, hopen⟩ := h.open hs
  simp only [Conn.recvStreamDataBlockedOn] at hr
  split at hr
  · cases hr
  rename_i hmax
  split at hr
  · cases hr
    exact h
  rename_i hlt
  split at hr
  · cases hr
  rename_i hshut
  split at hr
  · cases hr
  rename_i hviol
  cases hr
  have hacc := h.account hs hctl (by omega) (fun _ => hviol) (fun hrs => absurd (hopen.shut hrs) hshut) strm.shutRd id
  rw [show max strm.lastOffset fr.offset = fr.offset by omega] at hacc
  exact hacc

/-- Opening a stream adds an empty account. -/
theorem Inv.initStream {conn : Conn} (h : Inv conn) {id next : Nat} {ctl : Ctl} (hid : id ∉ conn.opened)
    (hnext : conn.localBidiNextStreamId ≤ next) (hlocal : conn.localStream next = true ∧ bidiStream next = true)
    (hlt : conn.localStream id = true → id < next) (hcb : ∀ x, callbackOf x ctl = callbackOf x conn.ctl)
    (hreset : ResetPending conn.strms conn.offset conn.maxOffset ctl) :
    Inv { conn.initStream id with localBidiNextStreamId := next, ctl := ctl } := by
  obtain ⟨hnone, hclosed⟩ := h.fresh id hid
  have hempty := h.streams id
  simp only [Snap.Inv, Conn.snap, hnone, hclosed] at hempty
  have hparams := h.params
  have hinit : conn.initialStreamRxOffset id ≤ maxVarint := by
    unfold Conn.initialStreamRxOffset
    split_ifs
    · exact hparams.1
    · exact hparams.2.1
    · exact Nat.zero_le _
    · exact hparams.2.2
  have hother : ∀ x, x ≠ id → ({ conn.initStream id with localBidiNextStreamId := next, ctl := ctl } : Conn).snap x =
      conn.snap x := by
    intro x hx
    simp only [Conn.snap, Conn.initStream, Conn.setStrm, Conn.newStrm, Function.update_of_ne hx, hcb x]
  have hself : ({ conn.initStream id with localBidiNextStreamId := next, ctl := ctl } : Conn).snap id =
      ⟨some (conn.newStrm id), none, 0, 0, none⟩ := by
    simp only [Conn.snap, Conn.initStream, Conn.setStrm, Conn.newStrm, Function.update_self, hcb id, hclosed, hempty]
  refine ⟨fun x => ?_, fun x hx => ?_, hlocal, fun x hx hl => ?_, ?_, h.flow, ?_, h.params⟩
  · by_cases hx : x = id
    · subst hx
      rw [hself]
      refine ⟨rfl, ⟨trivial, le_refl _, by simp [Strm.entries, Conn.newStrm], hinit, hinit⟩, Nat.zero_le _, fun _ => rfl,
        fun hh => ?_, fun _ => ⟨rfl, rfl, rfl⟩, fun hc => absurd rfl hc, fun hr => by cases hr⟩
      simp [Halted, Conn.newStrm] at hh
    · rw [hother x hx]
      exact h.streams x
  · simp only [Conn.initStream, Finset.mem_insert, not_or] at hx
    have hsnap := hother x hx.1
    simp only [Conn.snap, Snap.mk.injEq] at hsnap
    rw [hsnap.1, hsnap.2.1]
    exact h.fresh x hx.2
  · simp only [Conn.initStream, Finset.mem_insert] at hx
    rcases hx with rfl | hx
    · exact hlt hl
    · exact lt_of_lt_of_le (h.next x hx hl) hnext
  · have hsum : ∑ x ∈ conn.opened, (({ conn.initStream id with localBidiNextStreamId := next, ctl := ctl } : Conn).snap
        x).last = ∑ x ∈ conn.opened, (conn.snap x).last :=
      Finset.sum_congr rfl (fun x hx => by rw [hother x (fun heq => hid (heq ▸ hx))])
    change conn.offset = ∑ x ∈ insert id conn.opened, _
    rw [Finset.sum_insert hid, hself, hsum, ← h.total]
    exact (Nat.zero_add _).symm
  · cases ctl with
    | streamReset fr datalen =>
        obtain ⟨strm, hs, hrest⟩ := hreset
        refine ⟨strm, ?_, hrest⟩
        have hne : fr.streamId ≠ id := fun heq => by rw [heq, hnone] at hs; cases hs
        simp only [Conn.initStream, Conn.setStrm, Conn.newStrm, Function.update_of_ne hne]
        exact hs
    | idle | streamOpen | recvStreamData | other => trivial

theorem Inv.openBidiStream {conn : Conn} (h : Inv conn) : Inv conn.openBidiStream := by
  unfold Conn.openBidiStream
  split
  · exact h
  · have hnl := h.next_local
    have hfresh : conn.localBidiNextStreamId ∉ conn.opened := fun hm => absurd (h.next _ hm hnl.1) (lt_irrefl _)
    refine h.initStream hfresh (by omega) ?_ (fun _ => by omega) (fun _ => rfl) h.reset
    obtain ⟨h₁, h₂⟩ := hnl
    simp only [Conn.localStream, bidiStream, decide_eq_true_eq] at h₁ h₂ ⊢
    rw [← h₁]
    omega

/-- The announced limit never passes the maximum, and the window tuning does not overflow. -/
theorem Inv.sendMaxData {conn : Conn} (h : Inv conn) (hctl : conn.ctl = .idle) (ts rtt : Nat) :
    Inv (conn.sendMaxData ts rtt) := by
  have hv := maxVarint_lt
  obtain ⟨h₁, h₂, h₃, h₄⟩ := h.flow
  unfold Conn.sendMaxData
  split
  · rename_i hsend
    have hw : conn.window < 4 * (conn.unsentMaxOffset - conn.maxOffset) := by
      simp only [Conn.shouldSendMaxData, decide_eq_true_eq, sub64_of_le h₂ (by omega : conn.unsentMaxOffset < 2 ^ 64)] at hsend
      omega
    have hwin : conn.window ≤ conn.maxOffset := by
      rcases h₄ with hle | heq
      · exact hle
      · omega
    have hidle : ∀ strms offset maxOffset, ResetPending strms offset maxOffset conn.ctl := by
      intro _ _ _
      rw [hctl]
      trivial
    simp only
    split
    · rename_i htune
      have hmod : 2 * conn.window % 2 ^ 64 = 2 * conn.window := by omega
      have htarget : conn.window ≤ min (2 * conn.window) conn.maxWindow := by omega
      have hsub : sub64 (min (2 * conn.window) conn.maxWindow) conn.window =
          min (2 * conn.window) conn.maxWindow - conn.window := sub64_of_le htarget (by omega)
      have hclamp : sub64 maxVarint conn.unsentMaxOffset = maxVarint - conn.unsentMaxOffset := sub64_of_le h₃ (by omega)
      rw [hmod, hsub, hclamp]
      have hsum : (conn.unsentMaxOffset + (min (2 * conn.window) conn.maxWindow - conn.window)) % 2 ^ 64 =
          conn.unsentMaxOffset + (min (2 * conn.window) conn.maxWindow - conn.window) := by omega
      rw [hsum]
      refine ⟨h.streams, h.fresh, h.next_local, h.next, h.total, ?_, hidle _ _ _, h.params⟩
      split
      · exact ⟨by simp only; omega, le_refl _, by simp only; omega, Or.inr (by simp only; omega)⟩
      · exact ⟨by simp only; omega, le_refl _, by simp only; omega, Or.inl (by simp only; omega)⟩
    · exact ⟨h.streams, h.fresh, h.next_local, h.next, h.total,
        ⟨by simp only; omega, le_refl _, h₃, Or.inl (by simp only; omega)⟩, hidle _ _ _, h.params⟩
  · exact h

theorem Inv.setMaxStream {conn : Conn} (h : Inv conn) {strm : Strm} (hs : conn.strms strm.streamId = some strm)
    {maxOffset unsent : Nat} (h₁ : maxOffset ≤ maxVarint) (h₂ : unsent ≤ maxVarint)
    (hle : strm.maxOffset ≤ maxOffset ∨ conn.ctl = .idle) :
    Inv (conn.setStrm { strm with maxOffset := maxOffset, unsentMaxOffset := unsent }) := by
  obtain ⟨-, -, hopen⟩ := h.open hs
  have heq := touch_setStrm conn { strm with maxOffset := maxOffset, unsentMaxOffset := unsent } conn.stats
  rw [show conn.setStrm { strm with maxOffset := maxOffset, unsentMaxOffset := unsent } =
    { conn.setStrm { strm with maxOffset := maxOffset, unsentMaxOffset := unsent } with stats := conn.stats } from rfl, heq]
  refine h.touch hs _ _ rfl (fun _ _ => rfl) (fun _ _ => rfl) (hopen.of_maxOffset h₁ h₂) rfl h.flow ?_
  rcases hle with hle | hctl
  · exact h.reset.update hs rfl rfl hle
  · rw [hctl]
    trivial

theorem Inv.extendMaxStreamOffset {conn : Conn} (h : Inv conn) (id n : Nat) : Inv (conn.extendMaxStreamOffset id n) := by
  unfold Conn.extendMaxStreamOffset
  split
  · exact h
  · split
    · exact h
    · rename_i strm hs
      obtain ⟨rfl, -, hopen⟩ := h.open hs
      have hu := hopen.bounded.unsent_le
      exact h.setMaxStream hs hopen.bounded.max_le (by split <;> omega) (Or.inl (le_refl _))

theorem Inv.sendSide {conn : Conn} (h : Inv conn) (id : Nat) (shutWr resetStream resetStreamAcked txDataFinAcked : Bool) :
    Inv (conn.sendSide id shutWr resetStream resetStreamAcked txDataFinAcked) := by
  unfold Conn.sendSide
  split
  · exact h
  · rename_i strm hs
    obtain ⟨rfl, -, hopen⟩ := h.open hs
    set strm' : Strm := { strm with
      shutWr := shutWr
      resetStream := resetStream
      resetStreamAcked := resetStreamAcked
      txDataFinAcked := txDataFinAcked } with hstrm'
    have hb := hopen.bounded
    have hset : Inv (conn.setStrm strm') := by
      have heq := touch_setStrm conn strm' conn.stats
      rw [show conn.setStrm strm' = { conn.setStrm strm' with stats := conn.stats } from rfl, heq]
      refine h.touch hs _ _ rfl (fun _ _ => rfl) (fun _ _ => rfl) ?_ rfl h.flow (h.reset.update hs rfl rfl (le_refl _))
      refine ⟨⟨hb.wf, hb.cont_le, hb.end_le, hb.max_le, hb.unsent_le⟩, hopen.last_le, hopen.stopped, hopen.account,
        fun hn => ?_, hopen.live, hopen.shut⟩
      obtain ⟨hz, hp⟩ := hopen.untouched hn
      refine ⟨hz, ?_⟩
      rcases hcb : callbackOf strm.streamId conn.ctl with _ | ⟨rx, _ | ⟨o, len⟩⟩ <;>
        · rw [hcb] at hp
          exact hp
    simp only
    split
    · rename_i hctl
      exact hset.closeIf (Function.update_self _ _ _) hctl
    · exact hset

theorem Inv.shutdownStreamRead {conn : Conn} (h : Inv conn) {id : Nat}
    (hgap : ∀ strm rx popping, conn.strms id = some strm → Conn.stopsReading strm = true →
      conn.ctl = .recvStreamData id rx popping → strm.rxOffset = rx) : Inv (conn.shutdownStreamRead id) := by
  unfold Conn.shutdownStreamRead
  split
  · exact h
  · split
    · exact h
    · rename_i strm hs
      split
      · rename_i heff
        exact h.stopReading hs heff (fun rx popping hctl => hgap strm rx popping hs heff hctl)
      · exact h

theorem Inv.findOrOpen {conn conn' : Conn} (h : Inv conn) (hctl : conn.ctl = .idle) {id : Nat} {env : RecvEnv}
    {pending : Pending} {ignore : Conn → Except Stop Conn} {found : Strm → Except Stop Conn}
    (hignore : ∀ c, ignore conn = .ok c → Inv c)
    (hfound : ∀ strm c, conn.strms id = some strm → found strm = .ok c → Inv c)
    (hr : conn.findOrOpen id env pending ignore found = .ok conn') : Inv conn' := by
  unfold Conn.findOrOpen at hr
  split at hr
  · rename_i strm hs
    exact hfound strm conn' hs hr
  · split at hr
    · exact hignore conn' hr
    rename_i hremote
    split at hr
    · exact hignore conn' hr
    rename_i hnew
    split at hr
    · cases hr
    · cases hr
      apply Inv.of_calls (conn.initStream id).calls
      exact h.initStream hnew (le_refl _) h.next_local (fun hl => absurd hl hremote) (fun x => by rw [hctl]; rfl) trivial

/-- The frames and calls of a run; a stop from inside the callback of the same stream finds no
buffered data behind the data being delivered. -/
def StopsAtGap (conn : Conn) : Input → Prop
  | .shutdownStreamRead id =>
      ∀ strm rx popping, conn.strms id = some strm → Conn.stopsReading strm = true →
        conn.ctl = .recvStreamData id rx popping → strm.rxOffset = rx
  | _ => True

theorem Inv.idle {conn : Conn} (h : Inv conn) (hcb : ∀ x, callbackOf x conn.ctl = none) :
    Inv { conn with ctl := .idle } := by
  refine ⟨fun x => ?_, h.fresh, h.next_local, h.next, h.total, h.flow, trivial, h.params⟩
  have hx := h.streams x
  simp only [Conn.snap, hcb] at hx
  exact hx

theorem Inv.callbackReturns {conn conn' : Conn} (h : Inv conn) (hr : callbackReturns conn = .ok conn') : Inv conn' := by
  unfold Rx.callbackReturns at hr
  split at hr
  · cases hr
  · rename_i pending hctl
    have hidle := h.idle (fun x => by rw [hctl]; rfl)
    simp only at hr
    split at hr
    · split at hr
      · cases hr
      · rename_i fr env strm hs
        have hsid := (hidle.open hs).1
        exact hidle.recvStreamOn (by rw [hsid]; exact hs) rfl hr
    · split at hr
      · cases hr
      · rename_i fr env strm hs
        exact hidle.recvResetStreamOn hs rfl hr
    · split at hr
      · cases hr
      · rename_i fr strm hs
        have hsid := (hidle.open hs).1
        exact hidle.recvStreamDataBlockedOn (by rw [hsid]; exact hs) rfl hr
  · rename_i id rx popping hctl
    split at hr
    · cases hr
    · rename_i strm hs
      exact h.returnRecvStreamData hs hctl hr
  · rename_i fr datalen hctl
    split at hr
    · cases hr
    · rename_i strm hs
      cases hr
      exact h.returnStreamReset hs hctl
  · rename_i hctl
    cases hr
    exact h.idle (fun x => by rw [hctl]; rfl)

theorem step_inv (conn : Conn) (input : Input) (conn' : Conn) (h : Inv conn) (hg : StopsAtGap conn input)
    (hr : step conn input = .ok conn') : Inv conn' := by
  cases input with
  | recvStream fr env =>
      obtain ⟨hctl, hr⟩ := whenIdle_ok hr
      unfold Conn.recvStream at hr
      split at hr
      · split at hr
        · cases hr
        · refine h.findOrOpen hctl (fun c hc => h.glitch hc) (fun strm c hs hc => ?_) hr
          have hsid := (h.open hs).1
          exact h.recvStreamOn (by rw [hsid]; exact hs) hctl hc
      · cases hr
  | recvResetStream fr env =>
      obtain ⟨hctl, hr⟩ := whenIdle_ok hr
      unfold Conn.recvResetStream at hr
      split at hr
      · split at hr
        · cases hr
        · split at hr
          · cases hr
          · exact h.findOrOpen hctl (fun c hc => h.glitch hc)
              (fun strm c hs hc => h.recvResetStreamOn hs hctl hc) hr
      · cases hr
  | recvStreamDataBlocked fr env =>
      obtain ⟨hctl, hr⟩ := whenIdle_ok hr
      unfold Conn.recvStreamDataBlocked at hr
      split at hr
      · refine h.findOrOpen hctl (fun c hc => by cases hc; exact h) (fun strm c hs hc => ?_) hr
        have hsid := (h.open hs).1
        exact h.recvStreamDataBlockedOn (by rw [hsid]; exact hs) hctl hc
      · cases hr
  | callbackReturns => exact h.callbackReturns hr
  | shutdownStreamRead id =>
      cases hr
      exact h.shutdownStreamRead hg
  | extendMaxOffset n =>
      cases hr
      exact h.extendMaxOffset n
  | extendMaxStreamOffset id n =>
      cases hr
      exact h.extendMaxStreamOffset id n
  | openBidiStream =>
      cases hr
      exact h.openBidiStream
  | sendSide id shutWr resetStream resetStreamAcked txDataFinAcked =>
      cases hr
      exact h.sendSide id shutWr resetStream resetStreamAcked txDataFinAcked
  | sendMaxData ts rtt =>
      obtain ⟨hctl, hr⟩ := whenIdle_ok hr
      cases hr
      exact h.sendMaxData hctl ts rtt
  | sendMaxStreamData id delta =>
      obtain ⟨hctl, hr⟩ := whenIdle_ok hr
      cases hr
      unfold Conn.sendMaxStreamData
      split
      · exact h
      · rename_i strm hs
        obtain ⟨rfl, -, hopen⟩ := h.open hs
        exact h.setMaxStream hs (min_le_right _ _) (min_le_right _ _) (Or.inr hctl)

/-- A connection before its first stream, with the window it has announced. -/
structure Initial (conn : Conn) : Prop where
  ctl : conn.ctl = .idle
  opened : conn.opened = ∅
  strms : ∀ id, conn.strms id = none ∧ conn.closed id = none
  credited : ∀ id, conn.credited id = 0
  delivered : conn.delivered = []
  offset : conn.offset = 0
  limits : conn.maxOffset = conn.window ∧ conn.unsentMaxOffset = conn.window ∧ conn.window ≤ maxVarint
  next_local : conn.localStream conn.localBidiNextStreamId = true ∧ bidiStream conn.localBidiNextStreamId = true
  params : conn.params.initialMaxStreamDataBidiLocal ≤ maxVarint ∧
    conn.params.initialMaxStreamDataBidiRemote ≤ maxVarint ∧ conn.params.initialMaxStreamDataUni ≤ maxVarint

/-- The flow control books of the connection balance. -/
structure Conserved (conn : Conn) : Prop where
  offset_eq : conn.offset = ∑ id ∈ conn.opened, (conn.snap id).last
  offset_le : conn.offset ≤ conn.maxOffset
  max_le : conn.maxOffset ≤ conn.unsentMaxOffset
  unsent_le : conn.unsentMaxOffset ≤ maxVarint
  no_underflow : sub64 conn.maxOffset conn.offset = conn.maxOffset - conn.offset
  credit : ∀ id strm, (conn.strms id).or (conn.closed id) = some strm → Halted strm →
    conn.credited id + deliveredTo conn.delivered id = strm.lastOffset

theorem Initial.inv {conn : Conn} (h : Initial conn) : Inv conn := by
  obtain ⟨h₁, h₂, h₃⟩ := h.limits
  refine ⟨fun id => ?_, fun id _ => h.strms id, h.next_local, fun id hid => ?_, ?_, ?_, ?_, h.params⟩
  · simp [Snap.Inv, Conn.snap, (h.strms id).1, (h.strms id).2, h.credited id, h.delivered, h.ctl, callbackOf, deliveredTo]
  · rw [h.opened] at hid
    cases hid
  · rw [h.opened, h.offset]
    rfl
  · exact ⟨by rw [h.offset]; exact Nat.zero_le _, by omega, by omega, Or.inl (by omega)⟩
  · rw [h.ctl]
    trivial

theorem Inv.conserved {conn : Conn} (h : Inv conn) : Conserved conn := by
  have hv := maxVarint_lt
  obtain ⟨h₁, h₂, h₃, -⟩ := h.flow
  refine ⟨h.total, h₁, h₂, h₃, sub64_of_le h₁ (by omega), fun id strm hs hh => ?_⟩
  cases hopen : conn.strms id with
  | some s =>
      rw [hopen, Option.some_or] at hs
      cases hs
      exact (h.open hopen).2.2.account hh
  | none =>
      rw [hopen, Option.none_or] at hs
      have hi := h.streams id
      simp only [Snap.Inv, Conn.snap, hopen, hs] at hi
      exact hi.2 hh

/-- In every run without an error in which no stream is stopped from inside its own callback while
data behind the delivered data is buffered, the flow control books balance in the state reached. -/
theorem run_conserved (conn conn' : Conn) (inputs : List Input) (hinit : Initial conn)
    (hstop : Guarded step StopsAtGap conn inputs) (hrun : run step conn inputs = .ok conn') : Conserved conn' :=
  (run_preserves step_inv hinit.inv hstop hrun).conserved

/-- A stop inside the callback returns the credit that is due exactly when the first gap is where the
delivered data ends. -/
theorem stopReading_credit_iff {conn : Conn} (h : Inv conn) {strm : Strm} {rx : Nat} {popping : Option (Nat × Nat)}
    (hs : conn.strms strm.streamId = some strm) (heff : Conn.stopsReading strm = true)
    (hctl : conn.ctl = .recvStreamData strm.streamId rx popping) :
    (conn.stopReading strm).credited strm.streamId + deliveredTo (conn.stopReading strm).delivered strm.streamId =
      strm.lastOffset ↔ strm.rxOffset = rx := by
  obtain ⟨-, -, hopen⟩ := h.open hs
  have hnot : ¬ Halted strm := by
    simp only [Conn.stopsReading, Bool.and_eq_true, Bool.not_eq_true', Bool.or_eq_false_iff] at heff
    simp [Halted, heff.1.1, heff.1.2]
  obtain ⟨hzero, hplaced⟩ := hopen.untouched hnot
  have hle := hopen.bounded.rxOffset_le
  have hn : deliveredTo conn.delivered strm.streamId = rx := by
    rw [hctl, callbackOf, if_pos rfl] at hplaced
    cases popping with
    | none => exact hplaced.1
    | some p => exact hplaced.1
  have hc : (conn.stopReading strm).credited strm.streamId = strm.lastOffset - strm.rxOffset := by
    simp only [Conn.stopReading, Conn.setStrm, Conn.release, Conn.credit, Function.update_self, hzero, Nat.zero_add]
  have hd : (conn.stopReading strm).delivered = conn.delivered := by
    simp only [Conn.stopReading, Conn.setStrm, Conn.release, Conn.credit, Conn.extendMaxOffset]
  rw [hc, hd, hn]
  omega

def serverConn : Conn where
  server := true
  handshakeCompleted := true
  params := ⟨1000, 1000, 1000⟩
  maxWindow := 0
  localBidiMaxStreams := 10
  localBidiNextStreamId := 1
  remoteBidiMaxStreams := 10
  remoteUniMaxStreams := 10
  opened := ∅
  strms := fun _ => none
  offset := 0
  maxOffset := 1000
  unsentMaxOffset := 1000
  window := 1000
  lastMaxDataTs := none
  glitchRlim := ⟨100, 1, 100, 0, 0⟩
  stats := {}
  ctl := .idle
  delivered := []
  closed := fun _ => none
  credited := fun _ => 0

theorem serverConn_initial : Initial serverConn :=
  ⟨rfl, rfl, fun _ => ⟨rfl, rfl⟩, fun _ => rfl, rfl, rfl, ⟨rfl, rfl, by simp [serverConn, maxVarint]⟩, by decide,
    by simp [serverConn, maxVarint]⟩

def freshEnv : RecvEnv := ⟨0, true, ⟨.other .done, true, true⟩⟩

def isIdle : Except Stop Conn → Bool
  | .ok ⟨_, _, _, _, _, _, _, _, _, _, _, _, _, _, _, _, _, .idle, _, _, _, _⟩ => true
  | _ => false

theorem isIdle_ok {r : Except Stop Conn} (h : isIdle r = true) : ∃ conn, r = .ok conn ∧ conn.ctl = .idle := by
  unfold isIdle at h
  split at h
  · exact ⟨_, rfl, rfl⟩
  · cases h

def gapFrames : List Input :=
  [.recvStream ⟨0, 2, [12], false⟩ freshEnv, .callbackReturns, .recvStream ⟨0, 0, [10], false⟩ freshEnv,
    .callbackReturns]

def stopAndReset : List Input :=
  [.shutdownStreamRead 0, .recvResetStream ⟨0, 5⟩ freshEnv, .callbackReturns]

/-- A stream with a gap in its data is stopped between frames, and reset afterwards. -/
theorem run_conserved_stopped :
    ∃ conn, run step serverConn (gapFrames ++ stopAndReset) = .ok conn ∧ Conserved conn := by
  obtain ⟨c, hc, hidle⟩ := isIdle_ok (r := run step serverConn gapFrames) (by decide +kernel)
  obtain ⟨conn, hrun, -⟩ := isIdle_ok (r := run step serverConn (gapFrames ++ stopAndReset)) (by decide +kernel)
  have hstop : Guarded step StopsAtGap c stopAndReset := by
    refine ⟨fun strm rx popping _ _ hctl => ?_, fun _ _ => ⟨trivial, fun _ _ => ⟨trivial, fun _ _ => trivial⟩⟩⟩
    rw [hidle] at hctl
    cases hctl
  have hframes : Guarded step StopsAtGap serverConn gapFrames := by
    refine guarded_of_forall (fun input hin conn => ?_) serverConn
    simp only [gapFrames, List.mem_cons, List.not_mem_nil, or_false] at hin
    rcases hin with rfl | rfl | rfl | rfl <;> trivial
  exact ⟨conn, hrun, run_conserved serverConn conn _ serverConn_initial (hframes.append hc hstop) hrun⟩

/-- The second frame fills the gap before the first; the application stops reading while it gets the
second one. -/
def stopInCallback : List Input :=
  [.recvStream ⟨0, 2, [12], false⟩ freshEnv, .callbackReturns, .recvStream ⟨0, 0, [10, 11], false⟩ freshEnv,
    .shutdownStreamRead 0, .callbackReturns]

/-- Whether a stream is stopped, the credit returned for it, what was delivered, and its last offset. -/
def accountOf (id : Nat) : Except Stop Conn → Option (Bool × Nat × Nat × Nat)
  | .ok conn =>
      (conn.strms id).map (fun strm =>
        (strm.stopSending, conn.credited id, deliveredTo conn.delivered id, strm.lastOffset))
  | .error _ => none

theorem stopInCallback_account : accountOf 0 (run step serverConn stopInCallback) = some (true, 0, 2, 3) := by
  decide +kernel

/-- The buffered byte behind the delivered data is neither delivered nor credited. -/
theorem stopInCallback_leaks :
    ¬ ∀ conn conn' inputs, Initial conn → run step conn inputs = .ok conn' → Conserved conn' := by
  intro h
  have hacc := stopInCallback_account
  cases hrun : run step serverConn stopInCallback with
  | error e =>
      rw [hrun] at hacc
      cases hacc
  | ok conn =>
      rw [hrun] at hacc
      have hcons := h serverConn conn stopInCallback serverConn_initial hrun
      simp only [accountOf, Option.map_eq_some_iff, Prod.mk.injEq] at hacc
      obtain ⟨strm, hs, hst, hc, hd, hl⟩ := hacc
      have hcredit := hcons.credit 0 strm (by rw [hs, Option.some_or]) (Or.inl hst)
      omega

end Zngtcp2.Rx
