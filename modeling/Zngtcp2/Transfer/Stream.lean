import Zngtcp2.Transfer.Sender

namespace Zngtcp2.StreamNet

open Lib.Run Lib.Segment Strm Reassembly
open Rx (StreamFrame RecvEnv Logged Unsplit FrameOf Phase Reassembled Accepts target)
open StreamTx (State Content OfStream Handed Sending Sent Reads AllArrived AckedArrived packetOf closes)

/-- The streams that are sent, the STREAM frames that were put into packets, and the endpoint that
receives them. `finished` notes that an acknowledgement closed the stream. -/
structure Net where
  tx : State
  wire : List (Nat × TxFrame)
  finished : Bool
  rx : Logged

inductive Halt
  | tx (stop : Strm.Stop)
  | rx (stop : Rx.Stop)

inductive Event
  | send (input : StreamTx.Input)
  | recv (input : Rx.Input)

/-- What the receiver needs of a frame besides its data. -/
structure Receivable (sid : Nat) (conn : Rx.Conn) (fr : StreamFrame) (env : RecvEnv) : Prop where
  idle : conn.ctl = .idle
  id : fr.streamId = sid
  allowed : conn.checkStreamId sid .streamState = .ok
  glitch : conn.glitchRlim.CanDrain 1 env.ts
  strmMem : env.strmMem = true
  accepts : ∀ strm, target conn sid = some strm → Accepts conn strm fr env
  unsplit : ∀ strm, target conn sid = some strm → Unsplit strm fr

instance (sid : Nat) (conn : Rx.Conn) (fr : StreamFrame) (env : RecvEnv) : Decidable (Receivable sid conn fr env) :=
  decidable_of_iff (conn.ctl = .idle ∧ fr.streamId = sid ∧ conn.checkStreamId sid .streamState = .ok ∧
      conn.glitchRlim.CanDrain 1 env.ts ∧ env.strmMem = true ∧
      (∀ strm, target conn sid = some strm → Accepts conn strm fr env) ∧
      ∀ strm, target conn sid = some strm → Unsplit strm fr)
    ⟨fun ⟨h₁, h₂, h₃, h₄, h₅, h₆, h₇⟩ => ⟨h₁, h₂, h₃, h₄, h₅, h₆, h₇⟩,
      fun h => ⟨h.idle, h.id, h.allowed, h.glitch, h.strmMem, h.accepts, h.unsplit⟩⟩

namespace Net

variable (sid : Nat) (s : Net)

def step : Event → Except Halt Net
  | .send input => do
      let tx ← (StreamTx.step s.tx input).mapError .tx
      .ok ⟨tx, packetOf s.tx input ++ s.wire, s.finished || closes sid s.tx tx input, s.rx⟩
  | .recv input => do
      let rx ← (Rx.stepLogged s.rx input).mapError .rx
      .ok { s with rx := rx }

/-- A packet is acknowledged after its frames have arrived. -/
def Acknowledged : StreamTx.Input → Prop
  | .acked i _ => ∀ e ∈ s.tx.rtb[i]?, ∀ p ∈ e.frames, p.1 = sid → ∃ fr ∈ s.rx.frames, Reads fr p.2
  | _ => True

/-- The application hands over `S`, and the frames that arrive were sent. -/
def Allowed (S : List UInt8) : Event → Prop
  | .send input => Handed S sid s.tx input ∧ s.Acknowledged sid input
  | .recv (.recvStream fr env) => (∃ p ∈ s.wire, p.1 = sid ∧ Reads fr p.2) ∧ Receivable sid s.rx.conn fr env
  | .recv input => Rx.Allowed S sid s.rx input

def init (conn : Rx.Conn) : Net :=
  ⟨State.new, [], false, ⟨conn, []⟩⟩

instance decidableAcknowledged : (input : StreamTx.Input) → Decidable (s.Acknowledged sid input)
  | .acked i _ => inferInstanceAs (Decidable (∀ e ∈ s.tx.rtb[i]?, ∀ p ∈ e.frames, p.1 = sid → ∃ fr ∈ s.rx.frames, Reads fr p.2))
  | .openStream .. | .send .. | .submit .. | .lost _ | .pto _ | .expired _ | .retry | .shutdownWrite _ | .stopSending _
  | .close _ => .isTrue trivial

instance decidableAllowed (S : List UInt8) : (e : Event) → Decidable (s.Allowed sid S e)
  | .send input => @instDecidableAnd _ _ (StreamTx.decidableHanded S sid s.tx input) (s.decidableAcknowledged sid input)
  | .recv (.recvStream fr env) =>
      inferInstanceAs (Decidable ((∃ p ∈ s.wire, p.1 = sid ∧ Reads fr p.2) ∧ Receivable sid s.rx.conn fr env))
  | .recv (.recvResetStream fr env) => inferInstanceAs (Decidable (Rx.Allowed S sid s.rx (.recvResetStream fr env)))
  | .recv (.recvStreamDataBlocked fr env) => inferInstanceAs (Decidable (Rx.Allowed S sid s.rx (.recvStreamDataBlocked fr env)))
  | .recv .callbackReturns => inferInstanceAs (Decidable (Rx.Allowed S sid s.rx .callbackReturns))
  | .recv (.shutdownStreamRead id) => inferInstanceAs (Decidable (Rx.Allowed S sid s.rx (.shutdownStreamRead id)))
  | .recv (.extendMaxOffset n) => inferInstanceAs (Decidable (Rx.Allowed S sid s.rx (.extendMaxOffset n)))
  | .recv (.extendMaxStreamOffset id n) => inferInstanceAs (Decidable (Rx.Allowed S sid s.rx (.extendMaxStreamOffset id n)))
  | .recv .openBidiStream => inferInstanceAs (Decidable (Rx.Allowed S sid s.rx .openBidiStream))
  | .recv (.sendSide id a b c d) => inferInstanceAs (Decidable (Rx.Allowed S sid s.rx (.sendSide id a b c d)))
  | .recv (.sendMaxData ts rtt) => inferInstanceAs (Decidable (Rx.Allowed S sid s.rx (.sendMaxData ts rtt)))
  | .recv (.sendMaxStreamData id n) => inferInstanceAs (Decidable (Rx.Allowed S sid s.rx (.sendMaxStreamData id n)))

/-- The sender and the receiver of the stream agree on `S`. -/
structure Inv (S : List UInt8) (s : Net) : Prop where
  sending : Sending S sid s.rx.frames s.tx
  wire : ∀ p ∈ s.wire, OfStream S sid p.1 p.2
  finished : s.finished = true → AllArrived S s.rx.frames
  rx : Phase S sid s.rx

end Net

section Receiver

variable {S : List UInt8} {sid : Nat}

/-- A frame that was sent is a frame of `S`. -/
theorem frameOf_reads {fr : StreamFrame} {f : TxFrame} (h : Content S f) (hr : Reads fr f) : FrameOf S fr := by
  obtain ⟨hoff, hdata, hfin⟩ := hr
  have hend : fr.endOffset = f.endOff := by
    rw [StreamFrame.endOffset, hoff, hdata]
    rfl
  have hslice := h.slice
  rw [← hoff, ← hdata] at hslice
  refine ⟨⟨hslice.le, ?_⟩, ?_, ?_⟩
  · obtain ⟨pre, post, hS, hlen⟩ := hslice
    simp only [StreamFrame.chunk]
    rw [hS, ← hlen, List.append_assoc, List.drop_left, List.take_left]
  · rw [hfin, hend]
    exact h.fin
  · rw [hend]
    exact h.varint

/-- Everything has arrived, so the calls that are still to come carry the rest. -/
theorem settles_all {st : Logged} (hp : Phase S sid st) (hall : AllArrived S st.frames) :
    ∃ k st', run Rx.stepLogged st (List.replicate k .callbackReturns) = .ok st' ∧ Reassembled S sid S.length True st' := by
  obtain ⟨k, st', hrun, hp', hidle, hframes⟩ := hp.settles
  obtain ⟨n, done, hr⟩ := hp'.reassembled
  refine ⟨k, st', hrun, ?_⟩
  have hn : n = S.length := by
    apply Nat.le_antisymm hr.delivers.passed.le
    by_contra hlt
    have hlongest := hr.longest hidle
    rw [hframes] at hlongest
    exact hlongest (hall.bytes n (Nat.not_le.mp hlt))
  subst hn
  have hdone : done := hr.complete hidle (hframes ▸ hall.fin) rfl
  rwa [show done = True from propext (iff_true_intro hdone)] at hr

end Receiver

namespace Net

variable {S : List UInt8} {sid : Nat} {s : Net}

theorem Inv.send (h : Inv sid S s) {input : StreamTx.Input} (ha : s.Allowed sid S (.send input)) {tx : State}
    (hstep : StreamTx.step s.tx input = .ok tx) :
    Inv sid S ⟨tx, packetOf s.tx input ++ s.wire, s.finished || closes sid s.tx tx input, s.rx⟩ := by
  obtain ⟨hand, hack⟩ := ha
  have hsent := h.sending.step hand (by rintro i rxDone rfl; exact hack) hstep
  refine ⟨hsent.sending, fun p hp => ?_, fun hfin => ?_, h.rx⟩
  · obtain hp | hp := List.mem_append.mp hp
    · exact hsent.packet p hp
    · exact h.wire p hp
  · obtain hfin | hfin := Bool.or_eq_true_iff.mp hfin
    · exact h.finished hfin
    · exact hsent.closed hfin

theorem Inv.receive (h : Inv sid S s) {rx : Logged} (hp : Phase S sid rx)
    (hframes : rx.frames = s.rx.frames ∨ ∃ fr, rx.frames = s.rx.frames ++ [fr]) : Inv sid S { s with rx := rx } := by
  obtain heq | ⟨fr, heq⟩ := hframes
  · refine ⟨⟨h.sending.inv, h.sending.framed, ?_⟩, h.wire, ?_, hp⟩
    · simp only [heq]
      exact h.sending.arrived
    · simp only [heq]
      exact h.finished
  · refine ⟨⟨h.sending.inv, h.sending.framed, ?_⟩, h.wire, ?_, hp⟩
    · simp only [heq]
      exact fun strm hs => (h.sending.arrived strm hs).mono fr
    · simp only [heq]
      intro hfin
      obtain ⟨hbytes, fr', hfr', hf⟩ := h.finished hfin
      refine ⟨fun x hx => ?_, fr', List.mem_append_left _ hfr', hf⟩
      rw [Rx.chunk_append, inSomePush_append]
      exact Or.inl (hbytes x hx)

theorem Inv.recv (h : Inv sid S s) {input : Rx.Input} (ha : s.Allowed sid S (.recv input)) :
    ∃ rx, Rx.stepLogged s.rx input = .ok rx ∧ Inv sid S { s with rx := rx } := by
  have hguard : Rx.Allowed S sid s.rx input ∧ Rx.NoSplit sid s.rx input := by
    cases input with
    | recvStream fr env =>
        obtain ⟨⟨p, hp, hps, hreads⟩, hr⟩ := ha
        have hfr := frameOf_reads (h.wire p hp hps) hreads
        exact ⟨⟨hr.idle, hr.id, hfr, hr.allowed, hr.glitch, hr.strmMem, hr.accepts⟩, hr.unsplit⟩
    | recvResetStream _ _ | recvStreamDataBlocked _ _ | callbackReturns | shutdownStreamRead _ | extendMaxOffset _
    | extendMaxStreamOffset _ _ | openBidiStream | sendSide _ _ _ _ _ | sendMaxData _ _ | sendMaxStreamData _ _ =>
        exact ⟨ha, trivial⟩
  obtain ⟨rx, hstep, hp⟩ := Rx.stepLogged_phase s.rx input h.rx hguard
  refine ⟨rx, hstep, h.receive hp ?_⟩
  rw [Rx.stepLogged] at hstep
  split at hstep
  · cases hstep
  · cases hstep
    cases input with
    | recvStream fr env => exact Or.inr ⟨fr, rfl⟩
    | recvResetStream _ _ | recvStreamDataBlocked _ _ | callbackReturns | shutdownStreamRead _ | extendMaxOffset _
    | extendMaxStreamOffset _ _ | openBidiStream | sendSide _ _ _ _ _ | sendMaxData _ _ | sendMaxStreamData _ _ =>
        exact Or.inl rfl

theorem step_inv (s : Net) (e : Event) (h : Inv sid S s) (ha : s.Allowed sid S e) :
    Ends (fun halt => ∃ stop, halt = .tx stop) (Inv sid S) (s.step sid e) := by
  cases e with
  | send input =>
      rw [step]
      cases hstep : StreamTx.step s.tx input with
      | error stop => exact ⟨stop, rfl⟩
      | ok tx => exact h.send ha hstep
  | recv input =>
      obtain ⟨rx, hstep, hinv⟩ := h.recv ha
      rw [step, hstep]
      exact hinv

theorem init_inv {conn : Rx.Conn} (hfresh : Rx.Fresh conn sid) : Inv sid S (init conn) := by
  refine ⟨⟨StreamTx.new_inv, ⟨⟨?_, ?_⟩, by simp [init, State.new]⟩, ?_⟩, by simp [init], by simp [init], hfresh.phase S⟩
  · intro j strm hs
    cases hs
  · intro j strm hs
    cases hs
  · intro strm hs
    cases hs

/-- What has become of the stream. -/
structure Transferred (S : List UInt8) (sid : Nat) (s : Net) : Prop where
  passed : ∃ n done, Reassembled S sid n done s.rx
  acked : ∀ strm, s.tx.strms sid = some strm → AckedArrived S s.rx.frames strm
  complete : (s.finished = true ∨ ∃ strm, s.tx.strms sid = some strm ∧ StreamTx.allTxDataFinAcked strm = true) →
    ∃ k rx, run Rx.stepLogged s.rx (List.replicate k .callbackReturns) = .ok rx ∧ Reassembled S sid S.length True rx

theorem Inv.transferred (h : Inv sid S s) : Transferred S sid s := by
  refine ⟨h.rx.reassembled, h.sending.arrived, fun hdone => settles_all h.rx ?_⟩
  obtain hfin | ⟨strm, hs, hall⟩ := hdone
  · exact h.finished hfin
  · exact (h.sending.arrived strm hs).all (h.sending.inv.streams sid strm hs).tidy.wf hall

def recvd (offset : Nat) (data : List UInt8) (fin : Bool) : Event :=
  .recv (.recvStream ⟨0, offset, data, fin⟩ Rx.freshEnv)

def sixBytes : List UInt8 :=
  [1, 2, 3, 4, 5, 6]

/-- The first of two packets is declared lost and sent again; it arrives late, and the copy of it too. -/
def lossy : List Event :=
  [.send (.openStream 0 true), .send (.send [] (some (0, [1, 2, 3, 4], false))), .send (.send [] (some (0, [5, 6], true))),
    recvd 4 [5, 6] true, .recv .callbackReturns, .send (.acked 0 []), .send (.lost 0), .send (.send [(0, 60)] none),
    recvd 0 [1, 2, 3, 4] false, .recv .callbackReturns, .recv .callbackReturns, recvd 0 [1, 2, 3, 4] false, .send (.acked 0 [0])]

end Net

end Zngtcp2.StreamNet
