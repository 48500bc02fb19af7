import Zngtcp2.Rx.LifecycleSteps
import Zngtcp2.Rx.Conservation

namespace Zngtcp2.Rx

open Reorder Lib.Run

/-- How far the contiguous part of a stopped stream gets with one more frame. -/
def advance (rx : Nat) (fr : StreamFrame) : Nat :=
  if fr.offset ≤ rx then max rx fr.endOffset else rx

/-- Frames that lead from `rx` to `F` in this order: each starts at or before the point reached so
far, and ends at or after it. -/
inductive Chain (F : Nat) : Nat → List StreamFrame → Prop
  | done : Chain F F []
  | link {rx : Nat} {fr : StreamFrame} {rest : List StreamFrame} (hstart : fr.offset ≤ rx)
      (hend : rx ≤ fr.endOffset) (hrest : Chain F fr.endOffset rest) : Chain F rx (fr :: rest)

theorem Chain.le {F rx : Nat} {chain : List StreamFrame} (h : Chain F rx chain) : rx ≤ F := by
  induction h with
  | done => exact Nat.le_refl F
  | link _ hend _ ih => exact Nat.le_trans hend ih

theorem advance_le {F rx : Nat} {fr : StreamFrame} (hrx : rx ≤ F) (hfr : fr.endOffset ≤ F) : advance rx fr ≤ F := by
  unfold advance
  split
  · exact Nat.max_le.mpr ⟨hrx, hfr⟩
  · exact hrx

theorem foldl_advance_le {F : Nat} {frames : List StreamFrame} (h : ∀ fr ∈ frames, fr.endOffset ≤ F) {rx : Nat}
    (hrx : rx ≤ F) : frames.foldl advance rx ≤ F := by
  induction frames generalizing rx with
  | nil => exact hrx
  | cons fr rest ih =>
      rw [List.foldl_cons]
      exact ih (fun x hx => h x (List.mem_cons_of_mem fr hx)) (advance_le hrx (h fr List.mem_cons_self))

theorem le_advance (rx : Nat) (fr : StreamFrame) : rx ≤ advance rx fr := by
  unfold advance
  split
  · exact Nat.le_max_left _ _
  · exact Nat.le_refl rx

/-- The frames that move the contiguous part form a chain. -/
theorem exists_chain (frames : List StreamFrame) (rx : Nat) :
    ∃ chain, chain.Sublist frames ∧ Chain (frames.foldl advance rx) rx chain := by
  induction frames generalizing rx with
  | nil => exact ⟨[], List.Sublist.refl _, .done⟩
  | cons fr rest ih =>
      rw [List.foldl_cons]
      by_cases hmoves : fr.offset ≤ rx ∧ rx ≤ fr.endOffset
      · have heq : advance rx fr = fr.endOffset := by
          rw [advance, if_pos hmoves.1]
          exact Nat.max_eq_right hmoves.2
        rw [heq]
        obtain ⟨chain, hsub, hchain⟩ := ih fr.endOffset
        exact ⟨fr :: chain, hsub.cons_cons fr, .link hmoves.1 hmoves.2 hchain⟩
      · have heq : advance rx fr = rx := by
          unfold advance
          split
          · rename_i hstart
            exact Nat.max_eq_left (by omega)
          · rfl
        rw [heq]
        obtain ⟨chain, hsub, hchain⟩ := ih rx
        exact ⟨chain, hsub.cons fr, hchain⟩

/-- No chain gets further than all frames together do. -/
theorem Chain.le_foldl {F rx : Nat} {chain frames : List StreamFrame} (h : Chain F rx chain) (hsub : chain.Sublist frames)
    {rx' : Nat} (hrx : rx ≤ rx') : F ≤ frames.foldl advance rx' := by
  induction hsub generalizing rx rx' with
  | slnil =>
      cases h
      exact hrx
  | cons fr _ ih =>
      rw [List.foldl_cons]
      exact ih h (Nat.le_trans hrx (le_advance rx' fr))
  | cons_cons fr _ ih =>
      cases h with
      | link hstart hend hrest =>
          rw [List.foldl_cons]
          refine ih hrest ?_
          rw [advance, if_pos (Nat.le_trans hstart hrx)]
          exact Nat.le_max_right _ _

/-- The frames of a stream of `F` bytes reach its end exactly if some of them form a chain. -/
theorem foldl_advance_eq_iff {F : Nat} {frames : List StreamFrame} (h : ∀ fr ∈ frames, fr.endOffset ≤ F) (rx : Nat) :
    frames.foldl advance rx = F ↔ ∃ chain, chain.Sublist frames ∧ Chain F rx chain := by
  constructor
  · intro heq
    obtain ⟨chain, hsub, hchain⟩ := exists_chain frames rx
    rw [heq] at hchain
    exact ⟨chain, hsub, hchain⟩
  · rintro ⟨chain, hsub, hchain⟩
    exact Nat.le_antisymm (foldl_advance_le h hchain.le) (hchain.le_foldl hsub (Nat.le_refl rx))

/-- The sending side of a stream is finished. -/
def SendDone (strm : Strm) : Prop :=
  strm.shutWr = true ∧ ((strm.resetStream = true ∧ strm.resetStreamAcked = true) ∨ strm.txDataFinAcked = true)

/-- A stopped stream of `F` bytes whose contiguous part ends at `reached`. -/
structure StoppedAt (F reached : Nat) (finSeen : Prop) (strm : Strm) : Prop where
  stopped : strm.stopSending = true
  live : strm.resetStreamRecved = false
  discarded : strm.reorder = none
  cont : strm.contOffset = reached
  last_le : strm.lastOffset ≤ F
  shut : strm.shutRd = true → strm.lastOffset = F
  fin : finSeen → strm.shutRd = true

/-- It does not linger: what would close it is not there yet. -/
def Waits (strm : Strm) : Prop :=
  ¬ (strm.shutRd = true ∧ strm.contOffset = strm.lastOffset ∧ SendDone strm)

theorem StoppedAt.rxOffset {F reached : Nat} {finSeen : Prop} {strm : Strm} (h : StoppedAt F reached finSeen strm) :
    strm.rxOffset = reached := by
  rw [Strm.rxOffset, h.discarded]
  exact h.cont

theorem StoppedAt.mono {F reached : Nat} {p q : Prop} {strm : Strm} (h : StoppedAt F reached p strm) (hpq : q → p) :
    StoppedAt F reached q strm :=
  ⟨h.stopped, h.live, h.discarded, h.cont, h.last_le, h.shut, fun hq => h.fin (hpq hq)⟩

/-- What has become of a stopped stream: it waits for more, or it was closed at its end. -/
inductive Outcome (F sid reached : Nat) (finSeen : Prop) (conn : Conn) : Prop
  | waiting (strm : Strm) (hs : conn.strms sid = some strm) (hat : StoppedAt F reached finSeen strm) (hw : Waits strm)
  | closed (hnone : conn.strms sid = none) (hend : reached = F)

theorem closeIf_outcome {F reached : Nat} {finSeen : Prop} {conn : Conn} {strm : Strm}
    (hs : conn.strms strm.streamId = some strm) (h : StoppedAt F reached finSeen strm) :
    Outcome F strm.streamId reached finSeen (conn.closeStreamIfShutRdwr strm) := by
  unfold Conn.closeStreamIfShutRdwr
  rw [h.rxOffset]
  split
  · rename_i hc
    refine .closed (by simp [Conn.closeStream]) ?_
    obtain ⟨hrd, -, hend, -⟩ := hc
    rw [h.live] at hend
    have heq : reached = strm.lastOffset := by simpa using hend
    rw [heq, h.shut hrd]
  · rename_i hc
    refine .waiting strm hs h (fun hw => hc ?_)
    obtain ⟨hrd, hend, hwr, hdone⟩ := hw
    rw [h.cont] at hend
    exact ⟨hrd, hwr, Or.inr hend, hdone⟩

theorem takeInOrder_stopped {F reached : Nat} {finSeen : Prop} {strm : Strm} (h : StoppedAt F reached finSeen strm)
    {fr : StreamFrame} (hoff : fr.offset ≤ reached) :
    StoppedAt F (advance reached fr) finSeen (Conn.takeInOrder strm fr reached).1 := by
  have hend : fr.endOffset = fr.offset + fr.data.length := rfl
  have hadv : advance reached fr = reached + (fr.data.length - (reached - fr.offset)) := by
    rw [advance, if_pos hoff]
    omega
  unfold Conn.takeInOrder
  split
  · rename_i hnil
    rw [hadv, hnil]
    simpa using h
  · simp only [Strm.updateRxOffset, h.discarded]
    exact ⟨h.stopped, h.live, rfl, hadv.symm, h.last_le, h.shut, h.fin⟩

theorem deliverStream_outcome {F reached : Nat} {finSeen : Prop} {conn conn' : Conn} {strm : Strm} {fr : StreamFrame}
    {env : RecvEnv} (h : StoppedAt F reached finSeen strm) (hd : conn.deliverStream strm fr reached env = .ok conn') :
    Outcome F strm.streamId (advance reached fr) finSeen conn' ∧ conn'.ctl = conn.ctl := by
  unfold Conn.deliverStream at hd
  split at hd
  · rename_i hoff
    have htake := takeInOrder_stopped h hoff
    have hsid := Conn.takeInOrder_streamId strm fr reached
    unfold Conn.deliverInOrder at hd
    simp only [htake.stopped, if_true] at hd
    cases hd
    constructor
    · rw [← hsid]
      exact closeIf_outcome (Conn.setStrm_self _ _) htake
    · unfold Conn.closeStreamIfShutRdwr
      split <;> rfl
  · rename_i hoff
    rw [if_neg (by simp [h.stopped])] at hd
    cases hd
    have hadv : advance reached fr = reached := if_neg hoff
    constructor
    · rw [hadv]
      exact closeIf_outcome (Conn.setStrm_self _ _) h
    · unfold Conn.closeStreamIfShutRdwr
      split <;> rfl

/-- A STREAM frame of a stream of `F` bytes. -/
structure FitsIn (F : Nat) (fr : StreamFrame) : Prop where
  end_le : fr.endOffset ≤ F
  fin : fr.fin = true → fr.endOffset = F

theorem recvStreamOn_outcome {F reached : Nat} {finSeen : Prop} {conn conn' : Conn} {strm : Strm} {fr : StreamFrame}
    {isNew : Bool} {env : RecvEnv} (hs : conn.strms strm.streamId = some strm) (h : StoppedAt F reached finSeen strm)
    (hw : Waits strm) (hfr : FitsIn F fr) (hr : conn.recvStreamOn strm fr isNew env = .ok conn') :
    Outcome F strm.streamId (advance reached fr) (finSeen ∨ fr.fin = true) conn' ∧ conn'.ctl = conn.ctl := by
  have hq : Quiet strm.streamId conn (conn.account strm fr.endOffset) := Conn.quiet_account conn strm fr.endOffset
  have hstrms : (conn.account strm fr.endOffset).strms = conn.strms := by
    unfold Conn.account
    split
    · split <;> rfl
    · rfl
  have hglitch : ∀ {c c' : Conn} {ts : Nat}, c.glitch ts = .ok c' → c'.strms = c.strms ∧ c'.ctl = c.ctl := by
    intro c c' ts hg
    unfold Conn.glitch at hg
    split at hg <;> cases hg
    exact ⟨rfl, rfl⟩
  have hunless : ∀ {c c' : Conn} {ts : Nat}, c.glitchUnless isNew ts = .ok c' → c'.strms = c.strms ∧ c'.ctl = c.ctl := by
    intro c c' ts hg
    unfold Conn.glitchUnless at hg
    split at hg
    · cases hg
      exact ⟨rfl, rfl⟩
    · exact hglitch hg
  -- a frame that ends at or below the point reached changes nothing
  have hstay : fr.endOffset ≤ reached → advance reached fr = reached := by
    intro hle
    unfold advance
    split
    · exact Nat.max_eq_left hle
    · rfl
  unfold Conn.recvStreamOn at hr
  rw [h.rxOffset] at hr
  split at hr
  · cases hr
  split at hr
  · cases hr
  simp only at hr
  split at hr
  · rename_i hfin
    split at hr
    · rename_i hrd
      have hfin' : StoppedAt F reached (finSeen ∨ fr.fin = true) strm :=
        ⟨h.stopped, h.live, h.discarded, h.cont, h.last_le, h.shut, fun _ => hrd⟩
      split at hr
      · cases hr
      split at hr
      · rename_i hreset
        rw [h.live] at hreset
        cases hreset
      split at hr
      · rename_i heq
        obtain ⟨h₁, h₂⟩ := hunless hr
        rw [hstay (Nat.le_of_eq heq.symm)]
        exact ⟨.waiting strm (by rw [h₁, hstrms, hs]) hfin' hw, by rw [h₂, hq.ctl]⟩
      · obtain ⟨hout, hctl⟩ := deliverStream_outcome hfin' hr
        exact ⟨hout, by rw [hctl, hq.ctl]⟩
    · split at hr
      · cases hr
      · have hfin' : StoppedAt F reached (finSeen ∨ fr.fin = true)
            { strm with lastOffset := fr.endOffset, shutRd := true } :=
          ⟨h.stopped, h.live, h.discarded, h.cont, hfr.end_le, fun _ => hfr.fin hfin, fun _ => rfl⟩
        obtain ⟨hout, hctl⟩ := deliverStream_outcome hfin' hr
        exact ⟨hout, by rw [hctl, hq.ctl]⟩
  · rename_i hnofin
    split at hr
    · cases hr
    rename_i hfinal
    have hlast : StoppedAt F reached (finSeen ∨ fr.fin = true)
        { strm with lastOffset := max strm.lastOffset fr.endOffset } := by
      refine ⟨h.stopped, h.live, h.discarded, h.cont, Nat.max_le.mpr ⟨h.last_le, hfr.end_le⟩, fun hrd => ?_, ?_⟩
      · have hl := h.shut hrd
        have hle := hfr.end_le
        simp only
        omega
      · rintro (hf | hf)
        · exact h.fin hf
        · exact absurd hf hnofin
    split at hr
    · rename_i hle
      obtain ⟨h₁, h₂⟩ := hunless hr
      rw [hstay hle]
      refine ⟨.waiting { strm with lastOffset := max strm.lastOffset fr.endOffset } ?_ hlast ?_, by rw [h₂]; exact hq.ctl⟩
      · rw [h₁]
        exact Conn.setStrm_self _ _
      · -- the last offset grows only while the stream is not shut
        rintro ⟨hrd, hc, hdone⟩
        have hl : max strm.lastOffset fr.endOffset = strm.lastOffset :=
          Nat.max_eq_left (by by_contra hlt; exact hfinal ⟨hrd, by omega⟩)
        simp only [hl] at hc
        exact hw ⟨hrd, hc, hdone⟩
    · split at hr
      · rename_i hreset
        simp only [h.live] at hreset
        cases hreset
      · obtain ⟨hout, hctl⟩ := deliverStream_outcome hlast hr
        exact ⟨hout, by rw [hctl, hq.ctl]⟩

end Zngtcp2.Rx
