import Zngtcp2.Rx.Stopped

namespace Zngtcp2.Rx

open Reorder Lib.Run

/-- What holds in every state of every run of the receiving side. -/
structure RxInv (conn : Conn) : Prop where
  streams : ConnInv conn
  next : NextLocal conn true conn.localBidiNextStreamId

theorem RxInv.step {conn conn' : Conn} {input : Input} (h : RxInv conn) (hr : Rx.step conn input = .ok conn') :
    RxInv conn' := by
  by_cases hlocal : input = .openBidiStream
  · subst hlocal
    cases hr
    unfold Conn.openBidiStream
    split
    · exact h
    · exact ⟨h.streams.initLocal h.next.isLocal h.next.fresh _, h.next.take rfl rfl⟩
  · have hid : input.stream conn = some ((input.stream conn).getD 0) ∨ input.stream conn = none := by
      cases input.stream conn with
      | none => exact Or.inr rfl
      | some x => exact Or.inl rfl
    rcases step_moves h.streams.keyed hlocal hid hr with hm | ho
    · refine ⟨h.streams.moves hm, ?_⟩
      rw [hm.next]
      exact h.next.keep hm.keeps.server (fun x _ => by rw [hm.opened])
    · refine ⟨h.streams.opens ho, ?_⟩
      rw [ho.next]
      refine h.next.keep ho.server (fun x hx => ?_)
      rw [ho.opened, Finset.mem_insert]
      refine ⟨fun hor => hor.resolve_left ?_, Or.inr⟩
      rintro rfl
      rw [ho.remote] at hx
      cases hx

theorem Initial.rxInv {conn : Conn} (h : Initial conn) (hcalls : conn.calls = []) : RxInv conn := by
  refine ⟨⟨?_, fun id => ?_, ?_⟩, h.next_local.1, h.next_local.2, by simp [h.opened]⟩
  · intro id strm hs
    rw [(h.strms id).1] at hs
    cases hs
  · exact .unopened (by simp [h.opened]) (h.strms id).1 (by rw [hcalls]; rfl)
  · intro id hid
    rw [h.ctl] at hid
    cases hid

theorem run_rxInv {conn conn' : Conn} {inputs : List Input} (h : RxInv conn) (hrun : run step conn inputs = .ok conn') :
    RxInv conn' :=
  @run_preserves _ _ _ step (fun _ _ => True) RxInv (fun _ _ _ hs _ hr => hs.step hr) _ _ h _
    (guarded_of_forall (fun _ _ _ => trivial) conn) hrun

/-- The STREAM frame of a stream that waits for `stream_open` to return. -/
def pendingOf (sid : Nat) : Ctl → List StreamFrame
  | .streamOpen (.stream fr _) => if fr.streamId = sid then [fr] else []
  | _ => []

/-- The STREAM frames of a stream, in the order of their arrival. -/
def framesOf (sid : Nat) (inputs : List Input) : List StreamFrame :=
  inputs.filterMap fun
    | .recvStream fr _ => if fr.streamId = sid then some fr else none
    | _ => none

/-- No RESET_STREAM or STREAM_DATA_BLOCKED of the stream is being processed, and a pending STREAM
frame belongs to its `F` bytes. -/
def CtlFits (F sid : Nat) : Ctl → Prop
  | .streamOpen (.stream fr _) => fr.streamId = sid → FitsIn F fr
  | .streamOpen (.reset fr _) => fr.streamId ≠ sid
  | .streamOpen (.blocked fr) => fr.streamId ≠ sid
  | .streamReset fr _ => fr.streamId ≠ sid
  | .idle | .recvStreamData _ _ _ | .other => True

/-- Of the frames for the stream only STREAM frames of its `F` bytes arrive, and the acknowledgement
that finishes its sending side is processed outside of callbacks. -/
def Arrives (F sid : Nat) (conn : Conn) : Input → Prop
  | .recvStream fr _ => fr.streamId = sid → FitsIn F fr
  | .recvResetStream fr _ => fr.streamId ≠ sid
  | .recvStreamDataBlocked fr _ => fr.streamId ≠ sid
  | .sendSide id shutWr resetStream resetStreamAcked txDataFinAcked =>
      id = sid → conn.ctl = .idle ∨ ¬ (shutWr = true ∧ ((resetStream = true ∧ resetStreamAcked = true) ∨ txDataFinAcked = true))
  | _ => True

/-- A stopped stream after the frames `seen`, the last of which may still be pending. -/
structure Tracked (F sid rx : Nat) (fin : Prop) (seen : List StreamFrame) (conn : Conn) : Prop where
  done : ∃ done, seen = done ++ pendingOf sid conn.ctl ∧
    Outcome F sid (done.foldl advance rx) (fin ∨ ∃ fr ∈ done, fr.fin = true) conn
  ctl : CtlFits F sid conn.ctl
  opened : sid ∈ conn.opened

theorem pendingOf_of_ne {sid : Nat} {ctl : Ctl} (h : ctl.stream ≠ some sid) : pendingOf sid ctl = [] := by
  unfold pendingOf
  split
  · rename_i fr env
    exact if_neg (fun heq => h (by rw [Ctl.stream, Pending.streamId, heq]))
  · rfl

theorem ctlFits_of_ne {F sid : Nat} {ctl : Ctl} (h : ctl.stream ≠ some sid) : CtlFits F sid ctl := by
  unfold CtlFits
  split
  · exact fun heq => absurd (by rw [Ctl.stream, Pending.streamId, heq]) h
  · exact fun heq => h (by rw [Ctl.stream, Pending.streamId, heq])
  · exact fun heq => h (by rw [Ctl.stream, Pending.streamId, heq])
  · exact fun heq => h (by rw [Ctl.stream, heq])
  · trivial
  · trivial
  · trivial

theorem Outcome.of_strms {F sid reached : Nat} {fin : Prop} {conn conn' : Conn} (h : Outcome F sid reached fin conn)
    (heq : conn'.strms sid = conn.strms sid) : Outcome F sid reached fin conn' := by
  cases h with
  | waiting strm hs hat hw => exact .waiting strm (by rw [heq, hs]) hat hw
  | closed hnone hend => exact .closed (by rw [heq, hnone]) hend

/-- One more frame is done. -/
theorem Outcome.append {F sid rx : Nat} {fin : Prop} {done : List StreamFrame} {fr : StreamFrame} {conn : Conn}
    (h : Outcome F sid (advance (done.foldl advance rx) fr)
      ((fin ∨ ∃ fr' ∈ done, fr'.fin = true) ∨ fr.fin = true) conn) :
    Outcome F sid ((done ++ [fr]).foldl advance rx) (fin ∨ ∃ fr' ∈ done ++ [fr], fr'.fin = true) conn := by
  rw [List.foldl_append]
  cases h with
  | closed hnone hend => exact .closed hnone hend
  | waiting strm hs hat hw =>
      apply Outcome.waiting strm hs (hat.mono ?_) hw
      rintro (hf | ⟨fr', hm, hf⟩)
      · exact Or.inl (Or.inl hf)
      · rcases List.mem_append.mp hm with hm | hm
        · exact Or.inl (Or.inr ⟨fr', hm, hf⟩)
        · rw [List.mem_singleton.mp hm] at hf
          exact Or.inr hf

/-- Steps that leave the stream alone. -/
theorem Tracked.apart {F sid rx : Nat} {fin : Prop} {seen : List StreamFrame} {conn conn' : Conn}
    (h : Tracked F sid rx fin seen conn) (hstrms : conn'.strms sid = conn.strms sid) (hopened : sid ∈ conn'.opened)
    (hctl : conn'.ctl = conn.ctl ∨ (conn.ctl.stream ≠ some sid ∧ conn'.ctl.stream ≠ some sid)) :
    Tracked F sid rx fin seen conn' := by
  obtain ⟨done, hseen, hout⟩ := h.done
  rcases hctl with heq | ⟨hne, hne'⟩
  · exact ⟨⟨done, by rw [heq]; exact hseen, hout.of_strms hstrms⟩, by rw [heq]; exact h.ctl, hopened⟩
  · refine ⟨⟨done, ?_, hout.of_strms hstrms⟩, ctlFits_of_ne hne', hopened⟩
    rw [pendingOf_of_ne hne']
    rwa [pendingOf_of_ne hne] at hseen

/-- Inside a callback only its return changes where the library is. -/
theorem step_ctl {conn conn' : Conn} {input : Input} (hk : Keyed conn) (hctl : conn.ctl ≠ .idle)
    (hne : input ≠ .callbackReturns) (hr : step conn input = .ok conn') : conn'.ctl = conn.ctl := by
  have hidle : ∀ {next : Except Stop Conn}, whenIdle conn next = .ok conn' → conn'.ctl = conn.ctl :=
    fun hw => absurd (whenIdle_ok hw).1 hctl
  cases input with
  | recvStream fr env => exact hidle hr
  | recvResetStream fr env => exact hidle hr
  | recvStreamDataBlocked fr env => exact hidle hr
  | callbackReturns => exact absurd rfl hne
  | shutdownStreamRead id =>
      cases hr
      exact (Conn.quiet_shutdownStreamRead hk id).ctl
  | extendMaxOffset n =>
      cases hr
      rfl
  | extendMaxStreamOffset id n =>
      cases hr
      exact (Conn.quiet_extendMaxStreamOffset hk id n).ctl
  | openBidiStream =>
      cases hr
      unfold Conn.openBidiStream
      split <;> rfl
  | sendSide id shutWr resetStream resetStreamAcked txDataFinAcked =>
      cases hr
      exact Conn.sendSide_ctl conn id _ _ _ _ hctl
  | sendMaxData ts rtt => exact hidle hr
  | sendMaxStreamData id delta => exact hidle hr

theorem Moves.ctl_ne {conn conn' : Conn} {id sid : Nat} (hm : Moves id conn conn') (hid : id ≠ sid)
    (hctl : conn.ctl.stream ≠ some sid) : conn'.ctl.stream ≠ some sid := by
  have hof : conn'.ctl.stream = some id ∨ conn'.ctl = .other → conn'.ctl.stream ≠ some sid := by
    rintro (heq | heq)
    · rw [heq]
      simpa using hid
    · rw [heq]
      simp [Ctl.stream]
  cases hm with
  | keep _ _ _ _ _ hc =>
      rcases hc with hc | hc
      · rw [hc]
        simp [Ctl.stream]
      · rwa [hc]
  | call _ _ _ _ _ _ _ _ _ hc => exact hof hc
  | close _ _ _ _ _ _ hc =>
      rw [hc]
      simp [Ctl.stream]

/-- A step about another stream, or about none. -/
theorem Tracked.other {F sid rx : Nat} {fin : Prop} {seen : List StreamFrame} {conn conn' : Conn} {input : Input}
    (h : Tracked F sid rx fin seen conn) (hinv : RxInv conn) (hne : input.stream conn ≠ some sid)
    (hr : step conn input = .ok conn') : Tracked F sid rx fin seen conn' := by
  by_cases hlocal : input = .openBidiStream
  · subst hlocal
    have hsid : sid ≠ conn.localBidiNextStreamId := fun heq => hne (by rw [Input.stream, heq])
    cases hr
    unfold Conn.openBidiStream
    split
    · exact h
    · exact h.apart (Conn.initStream_of_ne conn hsid) (Finset.mem_insert_of_mem h.opened) (Or.inl rfl)
  · obtain ⟨id, hid, hother⟩ : ∃ id, (input.stream conn = some id ∨ input.stream conn = none) ∧ id ≠ sid := by
      cases hs : input.stream conn with
      | none => exact ⟨sid + 1, Or.inr rfl, by omega⟩
      | some x => exact ⟨x, Or.inl rfl, fun heq => hne (by rw [hs, heq])⟩
    have hkeeps : conn'.strms sid = conn.strms sid ∧ sid ∈ conn'.opened := by
      rcases step_moves hinv.streams.keyed hlocal hid hr with hm | ho
      · exact ⟨hm.keeps.others sid (Ne.symm hother), by rw [hm.opened]; exact h.opened⟩
      · exact ⟨ho.others sid (Ne.symm hother), by rw [ho.opened]; exact Finset.mem_insert_of_mem h.opened⟩
    refine h.apart hkeeps.1 hkeeps.2 ?_
    by_cases hctl : conn.ctl.stream = some sid
    · left
      refine step_ctl hinv.streams.keyed ?_ ?_ hr
      · intro hidle
        rw [hidle] at hctl
        cases hctl
      · rintro rfl
        exact hne hctl
    · right
      refine ⟨hctl, ?_⟩
      rcases step_moves hinv.streams.keyed hlocal hid hr with hm | ho
      · exact hm.ctl_ne hother hctl
      · rcases ho.ctl with hc | hc
        · rw [hc]
          simpa using hother
        · rw [hc]
          simp [Ctl.stream]

theorem framesOf_eq_nil {conn : Conn} {sid : Nat} {input : Input} (h : input.stream conn ≠ some sid) :
    framesOf sid [input] = [] := by
  cases input with
  | recvStream fr env =>
      have hne : fr.streamId ≠ sid := fun heq => h (by rw [Input.stream, heq])
      simp [framesOf, hne]
  | _ => rfl

theorem framesOf_fits {F sid : Nat} {conn : Conn} {input : Input} (h : Arrives F sid conn input) :
    ∀ fr ∈ framesOf sid [input], FitsIn F fr := by
  cases input with
  | recvStream fr env =>
      by_cases heq : fr.streamId = sid
      · simpa [framesOf, heq] using h heq
      · simp [framesOf, heq]
  | _ => simp [framesOf]

theorem foldl_advance_self {F : Nat} {frames : List StreamFrame} (h : ∀ fr ∈ frames, FitsIn F fr) :
    frames.foldl advance F = F := by
  induction frames with
  | nil => rfl
  | cons fr rest ih =>
      have heq : advance F fr = F := by
        unfold advance
        split
        · exact Nat.max_eq_left (h fr List.mem_cons_self).end_le
        · rfl
      rw [List.foldl_cons, heq]
      exact ih (fun x hx => h x (List.mem_cons_of_mem fr hx))

/-- A closed stream stays closed. -/
theorem Tracked.closed {F sid rx : Nat} {fin : Prop} {seen : List StreamFrame} {conn conn' : Conn} {input : Input}
    (h : Tracked F sid rx fin seen conn) (hinv : RxInv conn) (ha : Arrives F sid conn input)
    (hsid : input.stream conn = some sid) (hnone : conn.strms sid = none) (hr : step conn input = .ok conn') :
    Tracked F sid rx fin (seen ++ framesOf sid [input]) conn' := by
  have hctl : conn.ctl.stream ≠ some sid := fun heq => by
    have hsome := hinv.streams.ctl sid heq
    rw [hnone] at hsome
    cases hsome
  have hlocal : input ≠ .openBidiStream := by
    rintro rfl
    have heq : conn.localBidiNextStreamId = sid := by simpa [Input.stream] using hsid
    exact hinv.next.fresh (by rw [heq]; exact h.opened)
  obtain ⟨done, hseen, hout⟩ := h.done
  rw [pendingOf_of_ne hctl, List.append_nil] at hseen
  subst hseen
  have hend : seen.foldl advance rx = F := by
    cases hout with
    | waiting strm hs => rw [hnone] at hs; cases hs
    | closed _ hend => exact hend
  have hafter : conn'.strms sid = none ∧ sid ∈ conn'.opened ∧ conn'.ctl.stream ≠ some sid := by
    rcases step_moves hinv.streams.keyed hlocal (Or.inl hsid) hr with hm | ho
    · have hopened : sid ∈ conn'.opened := by
        rw [hm.opened]
        exact h.opened
      cases hm with
      | keep _ _ _ hpresent _ hc =>
          refine ⟨by rw [hnone] at hpresent; simpa using hpresent, hopened, ?_⟩
          rcases hc with hc | hc
          · rw [hc]
            simp [Ctl.stream]
          · rwa [hc]
      | call _ _ _ _ _ _ _ hid => rw [hnone] at hid; cases hid
      | close _ _ _ hid => rw [hnone] at hid; cases hid
    · exact absurd h.opened ho.fresh
  refine ⟨⟨seen ++ framesOf sid [input], ?_, .closed hafter.1 ?_⟩, ctlFits_of_ne hafter.2.2, hafter.2.1⟩
  · rw [pendingOf_of_ne hafter.2.2, List.append_nil]
  · rw [List.foldl_append, hend]
    exact foldl_advance_self (framesOf_fits ha)

/-- The stream is changed in what plays no part here. -/
theorem Tracked.setStrm {F sid rx : Nat} {fin : Prop} {seen : List StreamFrame} {conn : Conn} {strm strm' : Strm}
    (h : Tracked F sid rx fin seen conn) (hs : conn.strms sid = some strm) (hid : strm'.streamId = sid)
    (hsame : ∀ reached finSeen, StoppedAt F reached finSeen strm → Waits strm →
      StoppedAt F reached finSeen strm' ∧ Waits strm') : Tracked F sid rx fin seen (conn.setStrm strm') := by
  obtain ⟨done, hseen, hout⟩ := h.done
  refine ⟨⟨done, hseen, ?_⟩, h.ctl, h.opened⟩
  cases hout with
  | closed hnone => rw [hs] at hnone; cases hnone
  | waiting strm₀ hs₀ hat hw =>
      rw [hs] at hs₀
      cases hs₀
      obtain ⟨hat', hw'⟩ := hsame _ _ hat hw
      refine .waiting strm' ?_ hat' hw'
      rw [← hid]
      exact Conn.setStrm_self conn strm'

/-- The callback that was under way when the stream was stopped, or a pending frame. -/
theorem Tracked.callback {F sid rx : Nat} {fin : Prop} {seen : List StreamFrame} {conn conn' : Conn} {strm : Strm}
    (h : Tracked F sid rx fin seen conn) (hinv : RxInv conn) (hs : conn.strms sid = some strm)
    (hsid : conn.ctl.stream = some sid) (hr : callbackReturns conn = .ok conn') : Tracked F sid rx fin seen conn' := by
  have hstrm := hinv.streams.keyed sid strm hs
  have hopened : sid ∈ conn'.opened := by
    rw [(callbackReturns_moves hinv.streams.keyed (Or.inl hsid) hr).opened]
    exact h.opened
  obtain ⟨done, hseen, hout⟩ := h.done
  have hfits := h.ctl
  cases hout with
  | closed hnone => rw [hs] at hnone; cases hnone
  | waiting strm₀ hs₀ hat hw =>
      rw [hs] at hs₀
      cases hs₀
      unfold callbackReturns at hr
      split at hr
      · cases hr
      · rename_i pending hctl
        rw [hctl] at hfits hseen
        have hpid : pending.streamId = sid := by simpa [hctl, Ctl.stream] using hsid
        simp only at hr
        cases pending with
        | stream fr env =>
            change fr.streamId = sid at hpid
            simp only [hpid, hs] at hr
            have hs' : ({ conn with ctl := .idle } : Conn).strms strm.streamId = some strm := by rw [hstrm]; exact hs
            obtain ⟨hout, hctl'⟩ := recvStreamOn_outcome hs' hat hw (hfits hpid) hr
            change conn'.ctl = .idle at hctl'
            refine ⟨⟨done ++ [fr], ?_, ?_⟩, by rw [hctl']; trivial, hopened⟩
            · rw [hctl', hseen]
              simp [pendingOf, hpid]
            · rw [hstrm] at hout
              exact hout.append
        | reset fr env => exact absurd hpid hfits
        | blocked fr => exact absurd hpid hfits
      · rename_i x rxOffset popping hctl
        have hx : x = sid := by simpa [hctl, Ctl.stream] using hsid
        subst hx
        simp only [hctl, pendingOf, List.append_nil] at hseen
        rw [hs] at hr
        have hclose : conn' = { conn.closeStreamIfShutRdwr strm with ctl := .idle } := by
          cases popping with
          | none =>
              simp only [Conn.returnRecvStreamData, Conn.emitPendingStreamData, hat.discarded] at hr
              cases hr
              rfl
          | some p =>
              simp only [Conn.returnRecvStreamData, hat.discarded] at hr
              cases hr
              rfl
        subst hclose
        refine ⟨⟨seen, ?_, ?_⟩, trivial, hopened⟩
        · simp [pendingOf]
        · have hcl := closeIf_outcome (by rw [hstrm]; exact hs) hat
          rw [hstrm, ← hseen] at hcl
          exact hcl.of_strms rfl
      · rename_i fr datalen hctl
        rw [hctl] at hfits
        exact absurd (by simpa [hctl, Ctl.stream] using hsid) hfits
      · rename_i hctl
        rw [hctl] at hsid
        cases hsid

theorem Tracked.recvStream {F sid rx : Nat} {fin : Prop} {seen : List StreamFrame} {conn conn' : Conn} {strm : Strm}
    (h : Tracked F sid rx fin seen conn) (hinv : RxInv conn) (hs : conn.strms sid = some strm) {fr : StreamFrame}
    {env : RecvEnv} (hfr : FitsIn F fr) (hsid : fr.streamId = sid) (hctl : conn.ctl = .idle)
    (hr : conn.recvStream fr env = .ok conn') : Tracked F sid rx fin (seen ++ [fr]) conn' := by
  have hstrm := hinv.streams.keyed sid strm hs
  obtain ⟨done, hseen, hout⟩ := h.done
  simp only [hctl, pendingOf, List.append_nil] at hseen
  subst hseen
  cases hout with
  | closed hnone => rw [hs] at hnone; cases hnone
  | waiting strm₀ hs₀ hat hw =>
      rw [hs] at hs₀
      cases hs₀
      unfold Conn.recvStream at hr
      split at hr
      · split at hr
        · cases hr
        unfold Conn.findOrOpen at hr
        simp only [hsid, hs] at hr
        have hm : Moves sid conn conn' := Conn.recvStreamOn_moves hr (Conn.on_of_some hinv.streams.keyed hs) hctl
        obtain ⟨hout, hctl'⟩ := recvStreamOn_outcome (by rw [hstrm]; exact hs) hat hw hfr hr
        rw [hctl] at hctl'
        refine ⟨⟨seen ++ [fr], ?_, ?_⟩, by rw [hctl']; trivial, by rw [hm.opened]; exact h.opened⟩
        · rw [hctl']
          simp [pendingOf]
        · rw [hstrm] at hout
          exact hout.append
      · cases hr

theorem Tracked.sendSide {F sid rx : Nat} {fin : Prop} {seen : List StreamFrame} {conn : Conn} {strm : Strm}
    (h : Tracked F sid rx fin seen conn) (hinv : RxInv conn) (hs : conn.strms sid = some strm)
    {shutWr resetStream resetStreamAcked txDataFinAcked : Bool}
    (ha : conn.ctl = .idle ∨ ¬ (shutWr = true ∧ ((resetStream = true ∧ resetStreamAcked = true) ∨ txDataFinAcked = true))) :
    Tracked F sid rx fin seen (conn.sendSide sid shutWr resetStream resetStreamAcked txDataFinAcked) := by
  have hstrm := hinv.streams.keyed sid strm hs
  have hopened := (Conn.sendSide_moves hinv.streams.keyed sid shutWr resetStream resetStreamAcked txDataFinAcked).opened
  by_cases hctl : conn.ctl = .idle
  · obtain ⟨done, hseen, hout⟩ := h.done
    simp only [hctl, pendingOf, List.append_nil] at hseen
    subst hseen
    cases hout with
    | closed hnone => rw [hs] at hnone; cases hnone
    | waiting strm₀ hs₀ hat hw =>
        rw [hs] at hs₀
        cases hs₀
        set strm' : Strm := { strm with
          shutWr := shutWr
          resetStream := resetStream
          resetStreamAcked := resetStreamAcked
          txDataFinAcked := txDataFinAcked } with hstrm'
        have heq : conn.sendSide sid shutWr resetStream resetStreamAcked txDataFinAcked =
            (conn.setStrm strm').closeStreamIfShutRdwr strm' := by
          simp only [Conn.sendSide, hs, hctl, hstrm']
        have hctl' : ((conn.setStrm strm').closeStreamIfShutRdwr strm').ctl = .idle := by
          unfold Conn.closeStreamIfShutRdwr
          split <;> exact hctl
        have hat' : StoppedAt F (seen.foldl advance rx) (fin ∨ ∃ fr ∈ seen, fr.fin = true) strm' :=
          ⟨hat.stopped, hat.live, hat.discarded, hat.cont, hat.last_le, hat.shut, hat.fin⟩
        have hout := closeIf_outcome (Conn.setStrm_self conn strm') hat'
        have hid : strm'.streamId = sid := hstrm
        rw [hid] at hout
        rw [heq] at hopened ⊢
        refine ⟨⟨seen, ?_, hout⟩, by rw [hctl']; trivial, by rw [hopened]; exact h.opened⟩
        rw [hctl']
        simp [pendingOf]
  · have hnot := ha.resolve_left hctl
    have heq : conn.sendSide sid shutWr resetStream resetStreamAcked txDataFinAcked = conn.setStrm { strm with
        shutWr := shutWr
        resetStream := resetStream
        resetStreamAcked := resetStreamAcked
        txDataFinAcked := txDataFinAcked } := by
      simp only [Conn.sendSide, hs]
    rw [heq]
    exact h.setStrm hs hstrm (fun _ _ hat hw =>
      ⟨⟨hat.stopped, hat.live, hat.discarded, hat.cont, hat.last_le, hat.shut, hat.fin⟩,
        fun hc => hnot ⟨hc.2.2.1, hc.2.2.2⟩⟩)

theorem Tracked.step {F sid rx : Nat} {fin : Prop} {seen : List StreamFrame} {conn conn' : Conn} {input : Input}
    (h : Tracked F sid rx fin seen conn) (hinv : RxInv conn) (ha : Arrives F sid conn input)
    (hr : Rx.step conn input = .ok conn') : Tracked F sid rx fin (seen ++ framesOf sid [input]) conn' := by
  by_cases hsid : input.stream conn = some sid
  · cases hs : conn.strms sid with
    | none => exact h.closed hinv ha hsid hs hr
    | some strm =>
        have hstrm := hinv.streams.keyed sid strm hs
        cases input with
        | recvStream fr env =>
            obtain ⟨hctl, hr⟩ := whenIdle_ok hr
            have hid : fr.streamId = sid := by simpa [Input.stream] using hsid
            have hframes : framesOf sid [.recvStream fr env] = [fr] := by simp [framesOf, hid]
            rw [hframes]
            exact h.recvStream hinv hs (ha hid) hid hctl hr
        | recvResetStream fr env => exact absurd (by simpa [Input.stream] using hsid) ha
        | recvStreamDataBlocked fr env => exact absurd (by simpa [Input.stream] using hsid) ha
        | callbackReturns =>
            rw [show framesOf sid [.callbackReturns] = [] from rfl, List.append_nil]
            exact h.callback hinv hs hsid hr
        | shutdownStreamRead id =>
            have hid : id = sid := by simpa [Input.stream] using hsid
            subst hid
            rw [show framesOf id [.shutdownStreamRead id] = [] from rfl, List.append_nil]
            cases hr
            -- a second call has no effect
            obtain ⟨done, -, hout⟩ := h.done
            cases hout with
            | closed hnone => rw [hs] at hnone; cases hnone
            | waiting strm₀ hs₀ hat hw =>
                rw [hs] at hs₀
                cases hs₀
                have hno : Conn.stopsReading strm = false := by simp [Conn.stopsReading, hat.stopped]
                unfold Conn.shutdownStreamRead
                split
                · exact h
                · simp only [hs, hno, Bool.false_eq_true, if_false]
                  exact h
        | extendMaxOffset n => cases hsid
        | extendMaxStreamOffset id n =>
            have hid : id = sid := by simpa [Input.stream] using hsid
            subst hid
            rw [show framesOf id [.extendMaxStreamOffset id n] = [] from rfl, List.append_nil]
            cases hr
            unfold Conn.extendMaxStreamOffset
            split
            · exact h
            · simp only [hs]
              exact h.setStrm hs hstrm (fun _ _ hat hw =>
                ⟨⟨hat.stopped, hat.live, hat.discarded, hat.cont, hat.last_le, hat.shut, hat.fin⟩, hw⟩)
        | openBidiStream =>
            have hid : conn.localBidiNextStreamId = sid := by simpa [Input.stream] using hsid
            exact absurd (by rw [hid]; exact h.opened) hinv.next.fresh
        | sendSide id shutWr resetStream resetStreamAcked txDataFinAcked =>
            have hid : id = sid := by simpa [Input.stream] using hsid
            subst hid
            rw [show framesOf id [.sendSide id shutWr resetStream resetStreamAcked txDataFinAcked] = [] from rfl,
              List.append_nil]
            cases hr
            exact h.sendSide hinv hs (ha rfl)
        | sendMaxData ts rtt => cases hsid
        | sendMaxStreamData id delta =>
            obtain ⟨-, hr⟩ := whenIdle_ok hr
            have hid : id = sid := by simpa [Input.stream] using hsid
            subst hid
            rw [show framesOf id [.sendMaxStreamData id delta] = [] from rfl, List.append_nil]
            cases hr
            simp only [Conn.sendMaxStreamData, hs]
            exact h.setStrm hs hstrm (fun _ _ hat hw =>
              ⟨⟨hat.stopped, hat.live, hat.discarded, hat.cont, hat.last_le, hat.shut, hat.fin⟩, hw⟩)
  · rw [framesOf_eq_nil hsid, List.append_nil]
    exact h.other hinv hsid hr

theorem framesOf_cons (sid : Nat) (input : Input) (inputs : List Input) :
    framesOf sid (input :: inputs) = framesOf sid [input] ++ framesOf sid inputs := by
  rw [framesOf, framesOf, framesOf, ← List.filterMap_append]
  rfl

theorem run_tracked {F sid rx : Nat} {fin : Prop} {seen : List StreamFrame} {conn conn' : Conn} {inputs : List Input}
    (h : Tracked F sid rx fin seen conn) (hinv : RxInv conn) (hg : Guarded step (Arrives F sid) conn inputs)
    (hrun : run step conn inputs = .ok conn') : Tracked F sid rx fin (seen ++ framesOf sid inputs) conn' := by
  induction inputs generalizing conn seen with
  | nil =>
      cases hrun
      simpa [framesOf] using h
  | cons input rest ih =>
      cases hr : step conn input with
      | error e =>
          rw [run, hr] at hrun
          cases hrun
      | ok conn₁ =>
          rw [run_cons_ok hr] at hrun
          rw [framesOf_cons, ← List.append_assoc]
          exact ih (h.step hinv hg.1 hr) (hinv.step hr) (hg.2 conn₁ hr) hrun

theorem framesOf_fits_run {F sid : Nat} {conn conn' : Conn} {inputs : List Input}
    (hg : Guarded step (Arrives F sid) conn inputs) (hrun : run step conn inputs = .ok conn') :
    ∀ fr ∈ framesOf sid inputs, FitsIn F fr := by
  induction inputs generalizing conn with
  | nil => simp [framesOf]
  | cons input rest ih =>
      cases hr : step conn input with
      | error e =>
          rw [run, hr] at hrun
          cases hrun
      | ok conn₁ =>
          rw [run_cons_ok hr] at hrun
          intro fr hfr
          rw [framesOf_cons, List.mem_append] at hfr
          rcases hfr with hfr | hfr
          · exact framesOf_fits hg.1 fr hfr
          · exact ih (hg.2 conn₁ hr) hrun fr hfr

theorem pendingOf_fits {F sid : Nat} {ctl : Ctl} (h : CtlFits F sid ctl) : ∀ fr ∈ pendingOf sid ctl, FitsIn F fr := by
  unfold pendingOf
  split
  · rename_i fr env
    split
    · rename_i hid
      simpa using h hid
    · simp
  · simp

/-- `ngtcp2_conn_shutdown_stream_read` takes effect on a stream. -/
structure Stops (conn : Conn) (sid : Nat) (strm : Strm) : Prop where
  direction : bidiStream sid = true ∨ conn.localStream sid = false
  found : conn.strms sid = some strm
  stops : Conn.stopsReading strm = true

theorem Stops.eq {conn : Conn} {sid : Nat} {strm : Strm} (h : Stops conn sid strm) :
    conn.shutdownStreamRead sid = conn.stopReading strm := by
  unfold Conn.shutdownStreamRead
  rw [if_neg, h.found]
  · simp only [h.stops, if_true]
  · rintro ⟨hb, hl⟩
    rcases h.direction with hd | hd
    · rw [hb] at hd
      cases hd
    · rw [hl] at hd
      cases hd

/-- The state right after the stop. -/
theorem Stops.tracked {conn : Conn} {F sid : Nat} {strm : Strm} (h : Stops conn sid strm) (hinv : RxInv conn)
    (hlast : strm.lastOffset ≤ F) (hshut : strm.shutRd = true → strm.lastOffset = F) (hctl : CtlFits F sid conn.ctl) :
    Tracked F sid strm.rxOffset (strm.shutRd = true) (pendingOf sid conn.ctl) (conn.shutdownStreamRead sid) := by
  have hstrm := hinv.streams.keyed sid strm h.found
  obtain ⟨⟨-, hreset⟩, hopen⟩ : (strm.stopSending = false ∧ strm.resetStreamRecved = false) ∧
      ¬ (strm.shutRd = true ∧ strm.rxOffset = strm.lastOffset) := by
    have hs := h.stops
    simp only [Conn.stopsReading, Bool.and_eq_true, Bool.not_eq_true', Bool.or_eq_false_iff] at hs
    refine ⟨hs.1, fun hc => ?_⟩
    simp [hc.1, hc.2] at hs
  set strm' := ({ strm with stopSending := true } : Strm).discardReorderedData.1 with hstrm'
  have heq : strm' = { strm with stopSending := true, contOffset := strm.rxOffset, reorder := none } := by
    rw [hstrm']
    cases hr : strm.reorder with
    | none => simp [Strm.discardReorderedData, Strm.rxOffset, hr]
    | some reorder => simp [Strm.discardReorderedData, Strm.rxOffset, hr]
  have hq := Conn.quiet_shutdownStreamRead hinv.streams.keyed sid
  have hs' : (conn.shutdownStreamRead sid).strms sid = some strm' := by
    rw [h.eq]
    have hid : strm'.streamId = sid := by rw [heq]; exact hstrm
    rw [← hid]
    exact Conn.setStrm_self _ strm'
  refine ⟨⟨[], by rw [hq.ctl]; rfl, .waiting strm' hs' ?_ ?_⟩, by rw [hq.ctl]; exact hctl, ?_⟩
  · rw [heq]
    exact ⟨rfl, hreset, rfl, rfl, hlast, hshut, by simp⟩
  · rw [heq]
    exact fun hc => hopen ⟨hc.1, hc.2.1⟩
  · rw [hq.opened]
    exact (hinv.streams.history sid).opened_of_some (by rw [h.found]; rfl)

/-- A stream of `F` bytes is stopped, all its frames arrive, and its sending side is finished. Then it
has been closed if and only if some of the frames that came after the stop lead, in the order of their
arrival, from the end of the contiguous part at the stop to the end of the stream. -/
theorem run_stopped_closes_iff (F sid : Nat) (conn₀ conn conn' : Conn) (strm : Strm) (pre post : List Input)
    (hinit : Initial conn₀) (hcalls : conn₀.calls = []) (hpre : run step conn₀ pre = .ok conn)
    (hstops : Stops conn sid strm) (hlast : strm.lastOffset ≤ F) (hshut : strm.shutRd = true → strm.lastOffset = F)
    (hctl : CtlFits F sid conn.ctl) (hpost : Guarded step (Arrives F sid) (conn.shutdownStreamRead sid) post)
    (hfin : strm.shutRd = true ∨ ∃ fr ∈ pendingOf sid conn.ctl ++ framesOf sid post, fr.fin = true)
    (hrun : run step conn (.shutdownStreamRead sid :: post) = .ok conn') (hidle : conn'.ctl = .idle)
    (hdone : ∀ strm', conn'.strms sid = some strm' → SendDone strm') :
    (.streamClose sid ∈ conn'.calls ∧ conn'.strms sid = none) ↔
      ∃ chain, chain.Sublist (pendingOf sid conn.ctl ++ framesOf sid post) ∧ Chain F strm.rxOffset chain := by
  have hinv : RxInv conn := run_rxInv (hinit.rxInv hcalls) hpre
  have hstep : step conn (.shutdownStreamRead sid) = .ok (conn.shutdownStreamRead sid) := rfl
  have hinv₁ := hinv.step hstep
  rw [run_cons_ok hstep] at hrun
  have htracked := run_tracked (hstops.tracked hinv hlast hshut hctl) hinv₁ hpost hrun
  obtain ⟨done, hseen, hout⟩ := htracked.done
  have hnothing : pendingOf sid conn'.ctl = [] := by
    rw [hidle]
    rfl
  rw [hnothing, List.append_nil] at hseen
  have hfits : ∀ fr ∈ pendingOf sid conn.ctl ++ framesOf sid post, fr.endOffset ≤ F := by
    intro fr hfr
    rcases List.mem_append.mp hfr with hfr | hfr
    · exact (pendingOf_fits hctl fr hfr).end_le
    · exact (framesOf_fits_run hpost hrun fr hfr).end_le
  rw [hseen] at hfin hfits ⊢
  rw [← foldl_advance_eq_iff hfits]
  constructor
  · rintro ⟨-, hnone⟩
    cases hout with
    | waiting strm' hs => rw [hs] at hnone; cases hnone
    | closed _ hend => exact hend
  · intro hend
    have hnone : conn'.strms sid = none := by
      cases hout with
      | closed hnone => exact hnone
      | waiting strm' hs hat hw =>
          have hrd := hat.fin hfin
          exact absurd ⟨hrd, by rw [hat.cont, hend, hat.shut hrd], hdone strm' hs⟩ hw
    refine ⟨?_, hnone⟩
    cases (run_rxInv hinv₁ hrun).streams.history sid with
    | unopened hnew => exact absurd htracked.opened hnew
    | live _ hsome => rw [hnone] at hsome; cases hsome
    | closed _ _ cbs _ hc =>
        have hm : Call.streamClose sid ∈ callsOf sid conn'.calls := by simp [hc]
        exact mem_callsOf.mp hm

/-- Opens a stream on which only the peer sends, and delivers its first byte. -/
def firstByte : List Input :=
  [.recvStream ⟨2, 0, [1], false⟩ freshEnv, .callbackReturns, .callbackReturns]

def lastByte : Input :=
  .recvStream ⟨2, 2, [3], true⟩ freshEnv

def middleByte : Input :=
  .recvStream ⟨2, 1, [2], false⟩ freshEnv

def reached (r : Except Stop Conn) : Conn :=
  match r with
  | .ok conn => conn
  | .error _ => serverConn

/-- Whether a run ends outside of callbacks and without the stream. -/
def gone (sid : Nat) (r : Except Stop Conn) : Bool :=
  isIdle r && ((reached r).strms sid).isNone

theorem gone_ok {sid : Nat} {r : Except Stop Conn} (h : gone sid r = true) :
    ∃ conn, r = .ok conn ∧ conn.ctl = .idle ∧ conn.strms sid = none := by
  simp only [gone, Bool.and_eq_true] at h
  obtain ⟨conn, rfl, hctl⟩ := isIdle_ok h.1
  exact ⟨conn, rfl, hctl, by simpa [reached] using h.2⟩

/-- With its bytes in order the stopped stream is closed. -/
theorem run_stopped_closes_iff_inOrder :
    ∃ conn', run step serverConn (firstByte ++ [.shutdownStreamRead 2, middleByte, lastByte]) = .ok conn' ∧
      .streamClose 2 ∈ conn'.calls ∧ conn'.strms 2 = none := by
  have hgone : gone 2 (run step serverConn (firstByte ++ [.shutdownStreamRead 2, middleByte, lastByte])) = true := by
    with_unfolding_all rfl
  obtain ⟨conn', hall, hidle, hnone⟩ := gone_ok hgone
  set conn := reached (run step serverConn firstByte) with hconn
  set strm := (conn.strms 2).getD (serverConn.newStrm 2) with hstrm
  have hpre : run step serverConn firstByte = .ok conn := by with_unfolding_all rfl
  have hrun := hall
  rw [run_append, hpre] at hrun
  have hstops : Stops conn 2 strm := ⟨Or.inr (by with_unfolding_all rfl), by with_unfolding_all rfl, by with_unfolding_all rfl⟩
  have hlast : strm.lastOffset = 1 := by with_unfolding_all rfl
  have hopen : strm.shutRd = false := by with_unfolding_all rfl
  have hctl : conn.ctl = .idle := by with_unfolding_all rfl
  have hrx : strm.rxOffset = 1 := by with_unfolding_all rfl
  have hpost : Guarded step (Arrives 3 2) (conn.shutdownStreamRead 2) [middleByte, lastByte] := by
    apply guarded_of_forall
    simp only [List.mem_cons, List.not_mem_nil, or_false, forall_eq_or_imp, forall_eq]
    exact ⟨fun _ _ => ⟨by decide, by decide⟩, fun _ _ => ⟨by decide, by decide⟩⟩
  have hfin : ∃ fr ∈ pendingOf 2 conn.ctl ++ framesOf 2 [middleByte, lastByte], fr.fin = true := by
    rw [hctl]
    simp [pendingOf, framesOf, middleByte, lastByte]
  have hiff := run_stopped_closes_iff 3 2 serverConn conn conn' strm firstByte [middleByte, lastByte] serverConn_initial
    rfl hpre hstops (by omega) (by simp [hopen]) (by rw [hctl]; trivial) hpost (Or.inr hfin) hrun hidle
    (fun strm' hs => by rw [hnone] at hs; cases hs)
  refine ⟨conn', hall, hiff.mpr ⟨framesOf 2 [middleByte, lastByte], by simp, ?_⟩⟩
  rw [hrx]
  exact .link (by decide) (by decide) (.link (by decide) (by decide) .done)

/-- Whether a stream is still there, with its sending side finished and FIN received. -/
def lingers (sid : Nat) : Except Stop Conn → Option Bool
  | .ok conn => some ((conn.strms sid).any fun strm => strm.shutRd && strm.shutWr && strm.txDataFinAcked)
  | .error _ => none

/-- The same two frames after the stop: in order the stream closes, in the other order it stays for
good. -/
theorem stopped_stream_lingers :
    lingers 2 (run step serverConn (firstByte ++ [.shutdownStreamRead 2, middleByte, lastByte])) = some false ∧
      lingers 2 (run step serverConn (firstByte ++ [.shutdownStreamRead 2, lastByte, middleByte])) = some true := by
  constructor
  · with_unfolding_all rfl
  · with_unfolding_all rfl

end Zngtcp2.Rx
