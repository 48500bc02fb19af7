import Mathlib.Algebra.Order.BigOperators.Group.List
import Mathlib.Algebra.Order.Group.Nat
import Zngtcp2.Tx.Flow

namespace Zngtcp2.TxFlow

open Strm StreamTx TxFrame Lib.Run Conn

/-- Every byte of the frame was accepted for the stream in one of the chunks. -/
structure Logged (log : List Chunk) (sid : Nat) (f : TxFrame) : Prop where
  data : f.data = []
  max : f.endOff ≤ uint64Max
  bytes : ∀ x, f.offset ≤ x → x < f.endOff → ∃ ch ∈ log, ch.sid = sid ∧ ch.offset ≤ x ∧ x < ch.offset + ch.len

theorem logged_hereditary (log : List Chunk) : Hereditary (Logged log) := by
  refine ⟨fun h => h.data, fun h => h.max, fun {sid f g} h hw => ⟨hw.data, Nat.le_trans hw.ge h.max, fun x hle hlt => ?_⟩⟩
  exact h.bytes x (Nat.le_trans hw.le hle) (Nat.lt_of_lt_of_le hlt hw.ge)

theorem Logged.append {log : List Chunk} {sid : Nat} {f : TxFrame} (h : Logged log sid f) (more : List Chunk) :
    Logged (log ++ more) sid f := by
  refine ⟨h.data, h.max, fun x hle hlt => ?_⟩
  obtain ⟨ch, hmem, hin⟩ := h.bytes x hle hlt
  exact ⟨ch, List.mem_append_left _ hmem, hin⟩

/-- What holds of the sending side in every run in which no installation lowers the limit. -/
structure Inv (c : Conn) : Prop where
  stream : ∀ sid strm, c.tx.strms sid = some strm → strm.offset ≤ c.maxStream sid
  conn : c.offset ≤ c.maxOffset
  sum : c.offset = (c.tx.opened.map c.offsets).sum
  offsets : ∀ sid strm, c.tx.strms sid = some strm → sid ∈ c.tx.opened ∧ c.offsets sid = strm.offset
  nodup : c.tx.opened.Nodup
  framed : Framed (Logged c.accepted) c.tx
  chunks : ∀ ch ∈ c.accepted, ch.offset + ch.len ≤ ch.strmLimit ∧ ch.offset + ch.len ≤ ch.connLimit
  source : ∀ b, (∀ p ∈ c.params, p.initialMaxData.val ≤ b) → (∀ m ∈ c.maxDataRecved, m.val ≤ b) → c.maxOffset ≤ b
  maxOffset_lt : c.maxOffset < 2 ^ 62
  maxStream_lt : ∀ sid, c.maxStream sid < 2 ^ 62

theorem new_inv (server : Bool) : Inv (Conn.new server) := by
  refine ⟨?_, Nat.le_refl 0, rfl, ?_, List.nodup_nil, ⟨⟨?_, ?_⟩, ?_⟩, ?_, ?_, ?_, ?_⟩
  all_goals simp [Conn.new, StreamTx.State.new]

theorem Inv.fcCredits_eq {c : Conn} (h : Inv c) {sid : Nat} {strm : TxStrm} (hs : c.tx.strms sid = some strm) :
    c.fcCredits sid strm = min (c.maxStream sid - strm.offset) (c.maxOffset - c.offset) := by
  have hs₁ := h.maxStream_lt sid
  have hs₂ := h.maxOffset_lt
  rw [fcCredits, sub64_of_le (h.stream sid strm hs) (by omega), sub64_of_le h.conn (by omega)]

/-- The offset of a stream is at most that of the connection. -/
theorem Inv.offset_le {c : Conn} (h : Inv c) {sid : Nat} {strm : TxStrm} (hs : c.tx.strms sid = some strm) :
    strm.offset ≤ c.offset := by
  obtain ⟨hmem, hoff⟩ := h.offsets sid strm hs
  rw [← hoff, h.sum]
  exact List.single_le_sum (fun _ _ => Nat.zero_le _) _ (List.mem_map_of_mem hmem)

theorem sum_update {l : List Nat} (hl : l.Nodup) {sid : Nat} (hmem : sid ∈ l) (f : Nat → Nat) (n : Nat) :
    (l.map (Function.update f sid (f sid + n))).sum = (l.map f).sum + n := by
  induction l with
  | nil => cases hmem
  | cons a l ih =>
      obtain ⟨ha, hl⟩ := List.nodup_cons.mp hl
      rw [List.map_cons, List.sum_cons, List.map_cons, List.sum_cons]
      by_cases has : a = sid
      · subst has
        have hsame : l.map (Function.update f a (f a + n)) = l.map f := by
          refine List.map_congr_left (fun b hb => Function.update_of_ne ?_ _ _)
          rintro rfl
          exact ha hb
        rw [Function.update_self, hsame]
        omega
      · rw [Function.update_of_ne has, ih hl ((List.mem_cons.mp hmem).resolve_left (Ne.symm has))]
        omega

/-- The streams after data was accepted for one of them. -/
structure Advanced (c : Conn) (sid n : Nat) (tx : StreamTx.State) : Prop where
  opened : tx.opened = c.tx.opened
  strms : ∀ j strm', tx.strms j = some strm' → ∃ strm, c.tx.strms j = some strm ∧
    strm'.offset = strm.offset + if j = sid then n else 0

theorem Inv.accept {c : Conn} (h : Inv c) {sid n : Nat} {strm strm₀ : TxStrm} {tx : StreamTx.State}
    (hs : c.tx.strms sid = some strm₀) (hoff : strm.offset = strm₀.offset) (hn : n ≤ c.fcCredits sid strm)
    (htx : Advanced c sid n tx) (hframed : Framed (Logged (c.accept sid strm n).accepted) tx) :
    Inv { c.accept sid strm n with tx := tx } := by
  have hcredits : c.fcCredits sid strm = c.fcCredits sid strm₀ := by rw [fcCredits, fcCredits, hoff]
  rw [hcredits, h.fcCredits_eq hs] at hn
  have hstream := h.stream sid strm₀ hs
  have hconn := h.conn
  have hle := h.offset_le hs
  obtain ⟨hmem, hoffsets⟩ := h.offsets sid strm₀ hs
  have hnew : strm.offset + n = c.offsets sid + n := by rw [hoff, hoffsets]
  refine ⟨?_, ?_, ?_, ?_, ?_, hframed, ?_, h.source, h.maxOffset_lt, h.maxStream_lt⟩
  · intro j strm' hj
    obtain ⟨strm₁, hj₁, hoff₁⟩ := htx.strms j strm' hj
    have hle₁ := h.stream j strm₁ hj₁
    change strm'.offset ≤ c.maxStream j
    split at hoff₁
    · rename_i hjs
      subst hjs
      rw [hs] at hj₁
      cases hj₁
      omega
    · omega
  · change c.offset + n ≤ c.maxOffset
    omega
  · change c.offset + n = (tx.opened.map (Function.update c.offsets sid (strm.offset + n))).sum
    rw [htx.opened, hnew, sum_update h.nodup hmem, ← h.sum]
  · intro j strm' hj
    obtain ⟨strm₁, hj₁, hoff₁⟩ := htx.strms j strm' hj
    obtain ⟨hmem₁, hoffsets₁⟩ := h.offsets j strm₁ hj₁
    refine ⟨htx.opened ▸ hmem₁, ?_⟩
    change Function.update c.offsets sid (strm.offset + n) j = strm'.offset
    by_cases hjs : j = sid
    · subst hjs
      rw [hs] at hj₁
      cases hj₁
      rw [Function.update_self, hoff₁, if_pos rfl, hoff]
    · rw [Function.update_of_ne hjs, hoff₁, if_neg hjs, hoffsets₁, Nat.add_zero]
  · change tx.opened.Nodup
    rw [htx.opened]
    exact h.nodup
  · intro ch hch
    rcases List.mem_append.mp hch with hch | hch
    · exact h.chunks ch hch
    · rw [List.mem_singleton] at hch
      subst hch
      simp only
      omega

/-- The frame of the accepted data is logged with it. -/
theorem logged_newFrame (c : Conn) (sid : Nat) (strm : TxStrm) {data : List UInt8} {n : Nat} (hn : data.length = n)
    (hmax : strm.offset + n ≤ maxVarint) (fin : Bool) :
    Logged (c.accept sid strm n).accepted sid (newFrame strm data fin) := by
  have hbytes : (newFrame strm data fin).bytes = data := by
    rw [newFrame, bytes]
    split
    · rename_i hnil
      rw [hnil]
      rfl
    · rfl
  have hend : (newFrame strm data fin).endOff = strm.offset + n := by
    rw [TxFrame.endOff, datalen, hbytes, hn]
    rfl
  refine ⟨rfl, ?_, fun x hle hlt => ?_⟩
  · have hlt := maxVarint_lt
    rw [hend, uint64Max]
    omega
  · rw [hend] at hlt
    exact ⟨_, List.mem_append_right _ (List.mem_singleton_self _), rfl, hle, hlt⟩

/-- The transport parameters that the step installs. -/
def installed (c : Conn) : Input → Option Params
  | .set0rttParams p => some p
  | .setRemoteParams p =>
      if !c.transportParamRecved && ((c.server && c.txKey) || (!c.server && c.rxKey)) then some p else none
  | .installRxKey => if c.server then none else c.pending
  | .installTxKey => if c.server then c.pending else none
  | _ => none

/-- What is installed is not below the remembered limit, nor below a MAX_DATA frame that was processed. -/
def NotLowered (c : Conn) (i : Input) : Prop :=
  ∀ p ∈ installed c i, (∀ q ∈ c.params, q.initialMaxData ≤ p.initialMaxData) ∧ ∀ m ∈ c.maxDataRecved, m ≤ p.initialMaxData

def Input.rejects : Input → Bool
  | .earlyDataRejected _ => true
  | _ => false

-- not by the instance for all values of a finite type
instance (c : Conn) (i : Input) : Decidable (NotLowered c i) :=
  decidable_of_iff ((installed c i).all (fun p => c.params.all (fun q => decide (q.initialMaxData ≤ p.initialMaxData)) &&
    c.maxDataRecved.all (fun m => decide (m ≤ p.initialMaxData))) = true) (by simp [NotLowered, Option.all_eq_true])

/-- No limit goes down, and the streams that were opened remain so. -/
structure Grows (c c' : Conn) : Prop where
  conn : c.maxOffset ≤ c'.maxOffset
  stream : ∀ sid ∈ c.tx.opened, sid ∈ c'.tx.opened ∧ c.maxStream sid ≤ c'.maxStream sid

theorem Grows.refl (c : Conn) : Grows c c :=
  ⟨Nat.le_refl _, fun _ h => ⟨h, Nat.le_refl _⟩⟩

theorem Grows.trans {a b c : Conn} (hab : Grows a b) (hbc : Grows b c) : Grows a c := by
  refine ⟨Nat.le_trans hab.conn hbc.conn, fun sid hsid => ?_⟩
  obtain ⟨hb, hle⟩ := hab.stream sid hsid
  obtain ⟨hc, hle'⟩ := hbc.stream sid hb
  exact ⟨hc, Nat.le_trans hle hle'⟩

/-- The limits go up, and nothing else of the flow control changes. -/
structure Raised (c c' : Conn) : Prop where
  tx : c'.tx = c.tx
  offset : c'.offset = c.offset
  offsets : c'.offsets = c.offsets
  accepted : c'.accepted = c.accepted
  maxStream : ∀ sid, c.maxStream sid ≤ c'.maxStream sid ∧ c'.maxStream sid < 2 ^ 62
  maxOffset : c.maxOffset ≤ c'.maxOffset ∧ c'.maxOffset < 2 ^ 62
  source : ∀ b, (∀ p ∈ c'.params, p.initialMaxData.val ≤ b) → (∀ m ∈ c'.maxDataRecved, m.val ≤ b) → c'.maxOffset ≤ b

theorem Raised.inv {c c' : Conn} (hr : Raised c c') (h : Inv c) : Inv c' where
  stream := by
    intro sid strm hs
    rw [hr.tx] at hs
    exact Nat.le_trans (h.stream sid strm hs) (hr.maxStream sid).1
  conn := hr.offset ▸ Nat.le_trans h.conn hr.maxOffset.1
  sum := by rw [hr.offset, hr.tx, hr.offsets, h.sum]
  offsets := by
    rw [hr.tx, hr.offsets]
    exact h.offsets
  nodup := hr.tx ▸ h.nodup
  framed := by
    rw [hr.accepted, hr.tx]
    exact h.framed
  chunks := hr.accepted ▸ h.chunks
  source := hr.source
  maxOffset_lt := hr.maxOffset.2
  maxStream_lt := fun sid => (hr.maxStream sid).2

theorem Raised.grows {c c' : Conn} (hr : Raised c c') : Grows c c' :=
  ⟨hr.maxOffset.1, fun sid hsid => ⟨hr.tx ▸ hsid, (hr.maxStream sid).1⟩⟩

theorem Inv.install {c c' : Conn} (h : Inv c) {p : Params} (htx : c'.tx = c.tx) (hoff : c'.offset = c.offset)
    (hoffs : c'.offsets = c.offsets) (hacc : c'.accepted = c.accepted) (hmax : c'.maxStream = c.maxStream)
    (hparams : c'.params = some p) (hlimit : c'.maxOffset = p.initialMaxData)
    (hq : ∀ q ∈ c.params, q.initialMaxData ≤ p.initialMaxData) (hm : ∀ m ∈ c.maxDataRecved, m ≤ p.initialMaxData) :
    Raised c c' := by
  refine ⟨htx, hoff, hoffs, hacc, fun sid => ?_, ?_, fun b hb _ => ?_⟩
  · rw [hmax]
    exact ⟨Nat.le_refl _, h.maxStream_lt sid⟩
  · rw [hlimit]
    exact ⟨h.source _ hq hm, p.initialMaxData.isLt⟩
  · rw [hlimit]
    exact hb p hparams

theorem Inv.carry {c : Conn} (h : Inv c) {tx : StreamTx.State} (hp : Passed (Logged c.accepted) c.tx tx) :
    Inv { c with tx := tx } where
  stream := by
    intro sid strm' hs
    obtain ⟨strm, hs, hoff⟩ := hp.carries.offset sid strm' hs
    exact hoff ▸ h.stream sid strm hs
  conn := h.conn
  sum := by
    change c.offset = (tx.opened.map c.offsets).sum
    rw [hp.opened, h.sum]
  offsets := by
    intro sid strm' hs
    obtain ⟨strm, hs, hoff⟩ := hp.carries.offset sid strm' hs
    obtain ⟨hmem, hoffs⟩ := h.offsets sid strm hs
    exact ⟨hp.opened ▸ hmem, hoffs.trans hoff.symm⟩
  nodup := hp.opened ▸ h.nodup
  framed := ⟨hp.carries.framed, hp.sent⟩
  chunks := h.chunks
  source := h.source
  maxOffset_lt := h.maxOffset_lt
  maxStream_lt := h.maxStream_lt

theorem grows_of_opened {c c' : Conn} (hopened : c'.tx.opened = c.tx.opened) (hconn : c'.maxOffset = c.maxOffset)
    (hstream : c'.maxStream = c.maxStream) : Grows c c' :=
  ⟨Nat.le_of_eq hconn.symm, fun sid hsid => ⟨hopened ▸ hsid, Nat.le_of_eq (congrFun hstream sid).symm⟩⟩

/-- The packet after the rounds over the queued streams. -/
theorem Inv.rounds {c : Conn} (h : Inv c) {rounds : List (Nat × Nat)} {pkt : Pkt}
    (hrun : writeRounds rounds (c.tx, []) = .ok pkt) :
    Passed (Logged c.accepted) c.tx pkt.1 ∧ ∀ p ∈ pkt.2, Logged c.accepted p.1 p.2 := by
  obtain ⟨hc, hrtb, hopened, hpkt⟩ := h.framed.writeRounds (logged_hereditary _) (by simp) hrun
  exact ⟨⟨hc, hrtb ▸ h.framed.sent, hopened⟩, hpkt⟩

theorem set_advanced {c : Conn} {tx : StreamTx.State} {P : Nat → TxFrame → Prop} (hp : Passed P c.tx tx) {sid : Nat}
    {strm strm' : TxStrm} (hs : tx.strms sid = some strm) {n : Nat} (hoff : strm'.offset = strm.offset + n) :
    Advanced c sid n (tx.set sid strm') := by
  refine ⟨hp.opened, fun j strm₁ hj => ?_⟩
  by_cases hjs : j = sid
  · subst hjs
    simp only [State.set, Function.update_self, Option.some.injEq] at hj
    subst hj
    obtain ⟨strm₀, hs₀, hoff₀⟩ := hp.carries.offset j strm hs
    exact ⟨strm₀, hs₀, by rw [if_pos rfl, hoff, hoff₀]⟩
  · simp only [State.set, Function.update_of_ne hjs] at hj
    obtain ⟨strm₀, hs₀, hoff₀⟩ := hp.carries.offset j strm₁ hj
    exact ⟨strm₀, hs₀, by rw [if_neg hjs, hoff₀, Nat.add_zero]⟩

theorem Advanced.finishPkt {c : Conn} {sid n : Nat} {pkt : Pkt} (h : Advanced c sid n pkt.1) :
    Advanced c sid n (finishPkt pkt) := by
  obtain ⟨hstrms, hopened⟩ := finishPkt_strms pkt
  exact ⟨hopened.trans h.opened, hstrms ▸ h.strms⟩

theorem Inv.write {c c' : Conn} (h : Inv c) {rounds : List (Nat × Nat)} {new : Option (Nat × List UInt8 × Bool × Nat)}
    (hs : c.write rounds new = .ok c') : Inv c' ∧ Grows c c' := by
  rw [Conn.write] at hs
  split at hs
  · cases hs
    exact ⟨h, Grows.refl _⟩
  · obtain ⟨pkt, hrounds, hs⟩ := bind_ok hs
    obtain ⟨hp, hpkt⟩ := h.rounds hrounds
    have hkeep : Inv { c with tx := finishPkt pkt } ∧ Grows c { c with tx := finishPkt pkt } :=
      ⟨h.carry (hp.finishPkt hpkt), grows_of_opened (hp.finishPkt hpkt).opened rfl rfl⟩
    cases new with
    | none =>
        cases hs
        exact hkeep
    | some call =>
        obtain ⟨sid, data, fin, room⟩ := call
        simp only at hs
        split at hs
        · cases hs
          exact hkeep
        · rename_i strm hstrm
          split at hs
          · rename_i hcond
            obtain ⟨_, _, hwrites, hempty⟩ := hcond
            cases hs
            obtain ⟨strm₀, hstrm₀, hoff⟩ := hp.carries.offset sid strm hstrm
            have hlen : (data.take (min (c.enforceFlowControl sid strm data.length) room)).length =
                min (c.enforceFlowControl sid strm data.length) room := by
              rw [List.length_take, enforceFlowControl]
              omega
            generalize hn : min (c.enforceFlowControl sid strm data.length) room = n at *
            have hcredits : n ≤ c.fcCredits sid strm := by
              rw [enforceFlowControl] at hn
              omega
            have hmax : strm.offset + n ≤ maxVarint := by
              rw [StreamTx.writes, hlen] at hwrites
              simp only [Bool.and_eq_true, decide_eq_true_eq] at hwrites
              exact hwrites.2
            rw [writeNew, hstrm]
            simp only [hwrites, hempty, Bool.and_self, if_true, hlen]
            have hadv : Advanced c sid n (pkt.1.set sid (StreamTx.accept strm n (fin && decide (n = data.length)))) :=
              set_advanced hp hstrm rfl
            have hgrow : ∀ sid' f, Logged c.accepted sid' f → Logged (c.accept sid strm n).accepted sid' f :=
              fun _ _ hf => hf.append _
            refine ⟨h.accept hstrm₀ hoff hcredits hadv.finishPkt (Framed.finishPkt ?_ ?_), grows_of_opened hadv.finishPkt.opened rfl rfl⟩
            · have hframed := Framed.mono ⟨hp.carries.framed, hp.sent⟩ hgrow
              exact ⟨hframed.strms.set (hframed.strms.queued sid strm hstrm) (hframed.strms.sorted sid strm hstrm), hframed.sent⟩
            · intro p hmem
              rcases List.mem_append.mp hmem with hmem | hmem
              · exact hgrow _ _ (hpkt p hmem)
              · rw [List.mem_singleton] at hmem
                subst hmem
                exact logged_newFrame c sid strm hlen hmax _
          · cases hs
            exact hkeep

theorem Inv.submit {c c' : Conn} (h : Inv c) {sid : Nat} {data : List UInt8} {fin : Bool}
    (hs : c.submit sid data fin = .ok c') : Inv c' ∧ Grows c c' := by
  rw [Conn.submit] at hs
  split at hs
  · cases hs
    exact ⟨h, Grows.refl _⟩
  · rename_i strm hstrm
    simp only at hs
    split at hs
    · rename_i hcond
      obtain ⟨_, hsubmits⟩ := hcond
      obtain ⟨tx, htx, hs⟩ := bind_ok hs
      cases hs
      have hlen : (data.take (c.enforceFlowControl sid strm data.length)).length = c.enforceFlowControl sid strm data.length := by
        rw [List.length_take, enforceFlowControl]
        omega
      have hcredits : c.enforceFlowControl sid strm data.length ≤ c.fcCredits sid strm := by
        rw [enforceFlowControl]
        omega
      generalize c.enforceFlowControl sid strm data.length = n at *
      have hmax : strm.offset + n ≤ maxVarint := by
        rw [StreamTx.submits, hlen] at hsubmits
        simp only [Bool.and_eq_true, decide_eq_true_eq] at hsubmits
        exact hsubmits.2
      rw [StreamTx.step, hstrm] at htx
      simp only [hsubmits, if_true] at htx
      obtain ⟨queue, hpush, htx⟩ := bind_ok htx
      cases htx
      have hframed : Framed (Logged (c.accept sid strm n).accepted) c.tx := h.framed.mono (fun _ _ hf => hf.append _)
      have hadv : Advanced c sid n (c.tx.set sid
          { StreamTx.accept strm (data.take n).length (fin && decide (n = data.length)) with queue := queue }) :=
        set_advanced h.framed.passed hstrm (congrArg (strm.offset + ·) hlen)
      refine ⟨h.accept hstrm rfl hcredits hadv ⟨hframed.strms.set ?_ (hframed.strms.sorted sid strm hstrm), hframed.sent⟩,
        grows_of_opened hadv.opened rfl rfl⟩
      exact hframed.strms.push hstrm (logged_newFrame c sid strm hlen hmax _) hpush
    · cases hs
      exact ⟨h, Grows.refl _⟩

theorem initialLimit_lt (c : Conn) (p : Params) (sid : Nat) : c.initialLimit p sid < 2 ^ 62 := by
  rw [initialLimit]
  split
  · split
    · exact p.initialMaxStreamDataBidiRemote.isLt
    · exact p.initialMaxStreamDataBidiLocal.isLt
  · split
    · exact p.initialMaxStreamDataUni.isLt
    · exact Nat.two_pow_pos 62

theorem Inv.openStream {c c' : Conn} (h : Inv c) {sid : Nat} (hs : c.openStream sid = .ok c') : Inv c' ∧ Grows c c' := by
  rw [Conn.openStream] at hs
  split at hs
  · cases hs
    exact ⟨h, Grows.refl _⟩
  · rename_i hfresh
    split at hs
    · split at hs
      · cases hs
        exact ⟨h, Grows.refl _⟩
      · cases hs
    · rename_i p hparams
      rw [StreamTx.step, if_neg hfresh] at hs
      cases hs
      have hne : ∀ j ∈ c.tx.opened, j ≠ sid := fun j hj hjs => hfresh (hjs ▸ hj)
      have hmap : c.tx.opened.map (Function.update c.offsets sid 0) = c.tx.opened.map c.offsets :=
        List.map_congr_left (fun j hj => Function.update_of_ne (hne j hj) _ _)
      constructor
      · refine ⟨?_, h.conn, ?_, ?_, List.nodup_cons.mpr ⟨hfresh, h.nodup⟩, ⟨h.framed.strms.set (by simp [TxStrm.new]) ?_, h.framed.sent⟩,
          h.chunks, h.source, h.maxOffset_lt, ?_⟩
        · intro j strm hj
          by_cases hjs : j = sid
          · subst hjs
            simp only [State.set, Function.update_self, Option.some.injEq] at hj
            subst hj
            exact Nat.zero_le _
          · simp only [State.set, Function.update_of_ne hjs] at hj ⊢
            exact h.stream j strm hj
        · change c.offset = ((sid :: c.tx.opened).map (Function.update c.offsets sid 0)).sum
          rw [List.map_cons, hmap, Function.update_self, List.sum_cons, Nat.zero_add, h.sum]
        · intro j strm hj
          by_cases hjs : j = sid
          · subst hjs
            simp only [State.set, Function.update_self, Option.some.injEq] at hj
            subst hj
            exact ⟨List.mem_cons_self, Function.update_self ..⟩
          · simp only [State.set, Function.update_of_ne hjs] at hj ⊢
            obtain ⟨hmem, hoff⟩ := h.offsets j strm hj
            exact ⟨List.mem_cons_of_mem _ hmem, hoff⟩
        · simp [TxStrm.new, Acked.new]
        · intro j
          by_cases hjs : j = sid
          · subst hjs
            simp only [Function.update_self]
            exact initialLimit_lt c p j
          · simp only [Function.update_of_ne hjs]
            exact h.maxStream_lt j
      · refine ⟨Nat.le_refl _, fun j hj => ⟨List.mem_cons_of_mem _ hj, ?_⟩⟩
        simp only [Function.update_of_ne (hne j hj), Nat.le_refl]

theorem Inv.discardEarlyData {c : Conn} (h : Inv c) (oneRtt : List Nat) : Inv (c.discardEarlyData oneRtt) where
  stream := by simp [Conn.discardEarlyData]
  conn := Nat.zero_le _
  sum := rfl
  offsets := by simp [Conn.discardEarlyData]
  nodup := List.nodup_nil
  framed := by
    refine ⟨⟨by simp [Conn.discardEarlyData], by simp [Conn.discardEarlyData]⟩, fun e he => ?_⟩
    obtain ⟨⟨e', i⟩, hmem, rfl⟩ := List.mem_map.mp he
    exact h.framed.sent e' (List.fst_mem_of_mem_zipIdx (List.mem_of_mem_filter hmem))
  chunks := h.chunks
  source := h.source
  maxOffset_lt := h.maxOffset_lt
  maxStream_lt := h.maxStream_lt

theorem Inv.syncStreamDataLimit {c c' : Conn} (h : Inv c) (hs : c.syncStreamDataLimit = .ok c') : Raised c c' := by
  rw [Conn.syncStreamDataLimit] at hs
  split at hs
  · cases hs
  · rename_i p _
    cases hs
    refine ⟨rfl, rfl, rfl, rfl, fun sid => ?_, ⟨Nat.le_refl _, h.maxOffset_lt⟩, h.source⟩
    have hlt := h.maxStream_lt sid
    have hlt' := initialLimit_lt c p sid
    simp only
    split
    · omega
    · omega

theorem Inv.raised {c c' : Conn} (h : Inv c) (htx : c'.tx = c.tx) (hoff : c'.offset = c.offset)
    (hoffs : c'.offsets = c.offsets) (hacc : c'.accepted = c.accepted) (hmax : c'.maxStream = c.maxStream)
    (hlimit : c'.maxOffset = c.maxOffset) (hparams : c'.params = c.params) (hrecved : c'.maxDataRecved = c.maxDataRecved) :
    Raised c c' := by
  refine ⟨htx, hoff, hoffs, hacc, fun sid => ?_, ?_, ?_⟩
  · rw [hmax]
    exact ⟨Nat.le_refl _, h.maxStream_lt sid⟩
  · rw [hlimit]
    exact ⟨Nat.le_refl _, h.maxOffset_lt⟩
  · rw [hlimit, hparams, hrecved]
    exact h.source

/-- The steps on the limits raise them. -/
theorem Inv.step_raised {c c' : Conn} (h : Inv c) {i : Input} (hg : NotLowered c i) (hs : step c i = .ok c')
    (hi : match i with
      | .openStream _ | .write _ _ | .submit _ _ _ | .earlyDataRejected _ | .stream _ => False
      | _ => True) : Raised c c' := by
  have hsame : Raised c c := h.raised rfl rfl rfl rfl rfl rfl rfl rfl
  cases i with
  | openStream _ | write _ _ | submit _ _ _ | earlyDataRejected _ | stream _ => cases hi
  | set0rttParams p =>
      obtain ⟨hq, hm⟩ := hg p rfl
      rw [step] at hs
      split at hs
      · cases hs
      · cases hs
        exact h.install rfl rfl rfl rfl rfl rfl rfl hq hm
  | setRemoteParams p =>
      rw [step] at hs
      split at hs
      · cases hs
        exact hsame
      · rename_i hnot
        split at hs
        · rename_i hkey
          have hin : installed c (.setRemoteParams p) = some p := by simp [installed, hnot, hkey]
          obtain ⟨hq, hm⟩ := hg p hin
          cases hs
          exact h.install rfl rfl rfl rfl rfl rfl rfl hq hm
        · split at hs
          · cases hs
          · cases hs
            exact h.raised rfl rfl rfl rfl rfl rfl rfl rfl
  | install0rttKey =>
      rw [step] at hs
      split at hs
      · cases hs
      · cases hs
        exact h.raised rfl rfl rfl rfl rfl rfl rfl rfl
  | installRxKey =>
      rw [step] at hs
      split at hs
      · cases hs
      · split at hs
        · rename_i p hp
          cases hs
          split
          · exact h.raised rfl rfl rfl rfl rfl rfl rfl rfl
          · rename_i hclient
            obtain ⟨hq, hm⟩ := hg p (by simp [installed, hclient, hp])
            exact h.install rfl rfl rfl rfl rfl rfl rfl hq hm
        · cases hs
          exact h.raised rfl rfl rfl rfl rfl rfl rfl rfl
  | installTxKey =>
      rw [step] at hs
      split at hs
      · cases hs
      · split at hs
        · rename_i p hp
          cases hs
          split
          · rename_i hserver
            obtain ⟨hq, hm⟩ := hg p (by simp [installed, hserver, hp])
            exact h.install rfl rfl rfl rfl rfl rfl rfl hq hm
          · exact h.raised rfl rfl rfl rfl rfl rfl rfl rfl
        · cases hs
          exact h.raised rfl rfl rfl rfl rfl rfl rfl rfl
  | syncStreamDataLimit => exact h.syncStreamDataLimit hs
  | maxData n =>
      rw [step] at hs
      split at hs
      · cases hs
        refine ⟨rfl, rfl, rfl, rfl, fun sid => ⟨Nat.le_refl _, h.maxStream_lt sid⟩, ?_, fun b hb hm => ?_⟩
        · exact ⟨Nat.le_max_left _ _, Nat.max_lt.mpr ⟨h.maxOffset_lt, n.isLt⟩⟩
        · obtain ⟨hn, hm⟩ := List.forall_mem_cons.mp hm
          exact Nat.max_le.mpr ⟨h.source b hb hm, hn⟩
      · cases hs
        exact hsame
  | maxStreamData sid n =>
      rw [step] at hs
      split at hs
      · rename_i hcond
        cases hs
        refine ⟨rfl, rfl, rfl, rfl, fun j => ?_, ⟨Nat.le_refl _, h.maxOffset_lt⟩, h.source⟩
        by_cases hj : j = sid
        · subst hj
          simp only [Function.update_self]
          exact ⟨Nat.le_of_lt hcond.2.2, n.isLt⟩
        · simp only [Function.update_of_ne hj]
          exact ⟨Nat.le_refl _, h.maxStream_lt j⟩
      · cases hs
        exact hsame

theorem Inv.step {c c' : Conn} (h : Inv c) {i : Input} (hg : NotLowered c i) (hs : step c i = .ok c') :
    Inv c' ∧ (i.rejects = false → Grows c c') := by
  cases i with
  | openStream sid =>
      obtain ⟨hinv, hgrows⟩ := h.openStream hs
      exact ⟨hinv, fun _ => hgrows⟩
  | write rounds new =>
      obtain ⟨hinv, hgrows⟩ := h.write hs
      exact ⟨hinv, fun _ => hgrows⟩
  | submit sid data fin =>
      obtain ⟨hinv, hgrows⟩ := h.submit hs
      exact ⟨hinv, fun _ => hgrows⟩
  | earlyDataRejected oneRtt =>
      rw [TxFlow.step] at hs
      cases hs
      refine ⟨?_, fun hr => by cases hr⟩
      split
      · exact h
      · exact h.discardEarlyData oneRtt
  | stream input =>
      rw [TxFlow.step] at hs
      split at hs
      · rename_i hpassive
        obtain ⟨tx, htx, hs⟩ := bind_ok hs
        cases hs
        have hp := h.framed.step_passive hpassive htx
        exact ⟨h.carry hp, fun _ => grows_of_opened hp.opened rfl rfl⟩
      · cases hs
        exact ⟨h, fun _ => Grows.refl _⟩
  | set0rttParams _ | setRemoteParams _ | install0rttKey | installRxKey | installTxKey | syncStreamDataLimit | maxData _
    | maxStreamData _ _ =>
      have hr := h.step_raised hg hs trivial
      exact ⟨hr.inv h, fun _ => hr.grows⟩

/-- What the peer granted is kept to: the credit is a plain difference, the offset of the connection
is the sum over the streams, and the bytes of every packet were below the limits when accepted. -/
structure FcSafe (c : Conn) : Prop where
  stream : ∀ sid strm, c.tx.strms sid = some strm → strm.offset ≤ c.maxStream sid
  conn : c.offset ≤ c.maxOffset
  credits : ∀ sid strm, c.tx.strms sid = some strm →
    c.fcCredits sid strm = min (c.maxStream sid - strm.offset) (c.maxOffset - c.offset)
  sum : c.offset = (c.tx.opened.map c.offsets).sum
  offsets : ∀ sid strm, c.tx.strms sid = some strm → sid ∈ c.tx.opened ∧ c.offsets sid = strm.offset
  frames : ∀ e ∈ c.tx.rtb, ∀ p ∈ e.frames, ∀ x, p.2.offset ≤ x → x < p.2.endOff →
    ∃ ch ∈ c.accepted, ch.sid = p.1 ∧ ch.offset ≤ x ∧ x < ch.offset + ch.len ∧ x < ch.strmLimit ∧ x < ch.connLimit

theorem Inv.fcSafe {c : Conn} (h : Inv c) : FcSafe c := by
  refine ⟨h.stream, h.conn, fun sid strm hs => h.fcCredits_eq hs, h.sum, h.offsets, fun e he p hp x hle hlt => ?_⟩
  obtain ⟨ch, hch, hsid, hge, hin⟩ := (h.framed.sent e he p hp).bytes x hle hlt
  obtain ⟨hstrm, hconn⟩ := h.chunks ch hch
  exact ⟨ch, hch, hsid, hge, hin, Nat.lt_of_lt_of_le hin hstrm, Nat.lt_of_lt_of_le hin hconn⟩

theorem inv_run {c c' : Conn} (h : Inv c) {is : List Input} (hg : Guarded step NotLowered c is)
    (hrun : run step c is = .ok c') : Inv c' :=
  run_preserves (fun _ _ _ hinv hguard hs => (hinv.step hguard hs).1) h hg hrun

theorem run_grows {c c' : Conn} (h : Inv c) {is : List Input} (hg : Guarded step NotLowered c is)
    (hrej : ∀ i ∈ is, i.rejects = false) (hrun : run step c is = .ok c') : Grows c c' := by
  induction is generalizing c with
  | nil =>
      cases hrun
      exact Grows.refl _
  | cons i is ih =>
      cases hs : step c i with
      | error e =>
          rw [run, hs] at hrun
          cases hrun
      | ok c₁ =>
          rw [run_cons_ok hs] at hrun
          obtain ⟨hinv, hgrows⟩ := h.step hg.1 hs
          have hrest := ih hinv (hg.2 c₁ hs) (fun j hj => hrej j (List.mem_cons_of_mem i hj)) hrun
          exact (hgrows (hrej i List.mem_cons_self)).trans hrest

/-- Every run in which no installation of transport parameters lowers the limit of the connection is
safe, and after any of its states the limits go down by a rejection of early data only. -/
theorem run_fcSafe {server : Bool} {is js : List Input} {c c' : Conn}
    (hg : Guarded step NotLowered (Conn.new server) (is ++ js)) (hc : run step (Conn.new server) is = .ok c)
    (hc' : run step c js = .ok c') : FcSafe c' ∧ ((∀ i ∈ js, i.rejects = false) → Grows c c') := by
  obtain ⟨hgis, hgjs⟩ := hg.of_append hc
  have hinv := inv_run (new_inv server) hgis hc
  exact ⟨(inv_run hinv hgjs hc').fcSafe, fun hrej => run_grows hinv hgjs hrej hc'⟩

/-- A client that writes with remembered limits, and then gets the limits of the connection. -/
theorem run_fcSafe_client :
    ∃ c c', run step (Conn.new false) [.set0rttParams ⟨10, 8, 8, 8⟩, .openStream 0, .write [] (some (0, [1, 2, 3], false, 2))] = .ok c ∧
      run step c [.setRemoteParams ⟨20, 8, 9, 8⟩, .installRxKey, .syncStreamDataLimit, .maxData 30] = .ok c' ∧
      FcSafe c' ∧ Grows c c' := by
  have hok : ∀ is, (run step (Conn.new false) is).isOk = true → ∃ c, run step (Conn.new false) is = .ok c := by
    intro is his
    cases hrun : run step (Conn.new false) is with
    | ok c => exact ⟨c, rfl⟩
    | error e =>
        rw [hrun] at his
        cases his
  obtain ⟨c, hc⟩ := hok [.set0rttParams ⟨10, 8, 8, 8⟩, .openStream 0, .write [] (some (0, [1, 2, 3], false, 2))] (by decide +kernel)
  obtain ⟨c', hc'⟩ := hok ([.set0rttParams ⟨10, 8, 8, 8⟩, .openStream 0, .write [] (some (0, [1, 2, 3], false, 2))] ++
    [.setRemoteParams ⟨20, 8, 9, 8⟩, .installRxKey, .syncStreamDataLimit, .maxData 30]) (by decide +kernel)
  rw [run_append, hc] at hc'
  obtain ⟨hsafe, hgrows⟩ := run_fcSafe (by decide +kernel) hc hc'
  exact ⟨c, c', hc, hc', hsafe, hgrows (by decide)⟩

/-- MAX_DATA is processed in a 0-RTT packet, and then the parameters take effect with the 1-RTT key. -/
theorem installTxKey_lowers :
    ¬∀ (server : Bool) (is js : List Input) (c c' : Conn),
      Guarded step (fun c i => ∀ p ∈ installed c i, ∀ q ∈ c.params, q.initialMaxData ≤ p.initialMaxData) (Conn.new server) (is ++ js) →
      run step (Conn.new server) is = .ok c → run step c js = .ok c' →
      FcSafe c' ∧ ((∀ i ∈ js, i.rejects = false) → Grows c c') := by
  intro hall
  have hgrows := (hall true [.setRemoteParams ⟨50, 8, 8, 8⟩, .install0rttKey, .maxData 100] [.installTxKey] _ _
    (by decide +kernel) rfl rfl).2 (by decide)
  exact absurd hgrows.conn (by decide)

end Zngtcp2.TxFlow
