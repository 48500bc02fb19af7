import Zngtcp2.Rx.ReassemblyRuns

namespace Zngtcp2.Rx

open Reorder Reassembly Lib.Run

instance (rlim : Ratelim) (n ts : Nat) : Decidable (rlim.CanDrain n ts) :=
  match h : rlim.drain n ts with
  | .ok (true, rlim') => .isTrue ⟨rlim', h⟩
  | .ok (false, _) => .isFalse (fun ⟨_, h'⟩ => by rw [h] at h'; cases h')
  | .error _ => .isFalse (fun ⟨_, h'⟩ => by rw [h] at h'; cases h')

instance (ctl : Ctl) : Decidable (ctl = .idle) :=
  match ctl with
  | .idle => .isTrue rfl
  | .streamOpen _ | .other => .isFalse (by simp)
  | .recvStreamData _ _ _ => .isFalse (by simp)
  | .streamReset _ _ => .isFalse (by simp)

instance (env : ReorderEnv) : Decidable (Supplied env) :=
  decidable_of_iff ((env.source = .packet .ok ∨ env.source = .other .done) ∧ env.listMem = true ∧ env.entryMem = true)
    ⟨fun ⟨h₁, h₂, h₃⟩ => ⟨h₁, h₂, h₃⟩, fun h => ⟨h.source, h.list, h.entry⟩⟩

instance (S : List UInt8) (c : Chunk) : Decidable (SliceOf S c) :=
  decidable_of_iff (c.1 + c.2.length ≤ S.length ∧ c.2 = (S.drop c.1).take c.2.length)
    ⟨fun ⟨h₁, h₂⟩ => ⟨h₁, h₂⟩, fun h => ⟨h.le, h.data⟩⟩

theorem exists_wanted_iff (entries : Entries) (contOffset offset len : Nat) :
    (∃ o, Wanted entries contOffset offset len o) ↔ ∃ i < len, Wanted entries contOffset offset len (offset + i) := by
  constructor
  · rintro ⟨o, hw⟩
    have h₁ := hw.1
    have h₂ := hw.2.1
    exact ⟨o - offset, by omega, by rw [Nat.add_sub_cancel' h₁]; exact hw⟩
  · rintro ⟨i, -, hw⟩
    exact ⟨_, hw⟩

instance (entries : Entries) (contOffset offset len : Nat) : Decidable (∃ o, Wanted entries contOffset offset len o) :=
  decidable_of_iff _ (exists_wanted_iff entries contOffset offset len).symm

instance (conn : Conn) (strm : Strm) (fr : StreamFrame) (env : RecvEnv) : Decidable (Accepts conn strm fr env) :=
  decidable_of_iff (fr.endOffset ≤ strm.maxOffset ∧
      (strm.lastOffset < fr.endOffset → conn.maxDataViolated (fr.endOffset - strm.lastOffset) = false) ∧
      conn.glitchRlim.CanDrain 1 env.ts ∧ Supplied env.reorder ∧
      ((∃ o, Wanted strm.entries strm.contOffset fr.offset fr.data.length o) →
        strm.entries.length + 1 < Strm.maxFragments))
    ⟨fun ⟨h₁, h₂, h₃, h₄, h₅⟩ => ⟨h₁, h₂, h₃, h₄, h₅⟩, fun h => ⟨h.window, h.data, h.glitch, h.supplied, h.room⟩⟩

instance (strm : Strm) (fr : StreamFrame) : Decidable (Unsplit strm fr) :=
  inferInstanceAs (Decidable (strm.rxOffset < fr.offset → Contiguous _ _ _ _))

instance (S : List UInt8) (fr : StreamFrame) : Decidable (FrameOf S fr) :=
  decidable_of_iff (SliceOf S fr.chunk ∧ (fr.fin = true → fr.endOffset = S.length) ∧ fr.endOffset ≤ maxVarint)
    ⟨fun ⟨h₁, h₂, h₃⟩ => ⟨h₁, h₂, h₃⟩, fun h => ⟨h.slice, h.fin, h.varint⟩⟩

instance decidableForallEqSome {α : Type} (x : Option α) (p : α → Prop) [DecidablePred p] : Decidable (∀ a, x = some a → p a) :=
  match x with
  | none => .isTrue (by simp)
  | some a => decidable_of_iff (p a) (by simp)

instance (S : List UInt8) (sid : Nat) (conn : Conn) (fr : StreamFrame) (env : RecvEnv) :
    Decidable (Admissible S sid conn fr env) :=
  decidable_of_iff (conn.ctl = .idle ∧ fr.streamId = sid ∧ FrameOf S fr ∧
      conn.checkStreamId sid .streamState = .ok ∧ conn.glitchRlim.CanDrain 1 env.ts ∧ env.strmMem = true ∧
      ∀ strm, target conn sid = some strm → Accepts conn strm fr env)
    ⟨fun ⟨h₁, h₂, h₃, h₄, h₅, h₆, h₇⟩ => ⟨h₁, h₂, h₃, h₄, h₅, h₆, h₇⟩,
      fun h => ⟨h.idle, h.id, h.frame, h.allowed, h.glitch, h.strmMem, h.accepts⟩⟩

instance (S : List UInt8) (sid : Nat) (st : Logged) : (input : Input) → Decidable (Allowed S sid st input)
  | .recvStream fr env => inferInstanceAs (Decidable (Admissible S sid st.conn fr env))
  | .callbackReturns => inferInstanceAs (Decidable (¬ st.conn.ctl = .idle))
  | .extendMaxOffset _ => .isTrue trivial
  | .extendMaxStreamOffset id _ => inferInstanceAs (Decidable (id = sid))
  | .sendSide id _ _ _ _ => inferInstanceAs (Decidable (id = sid))
  | .sendMaxData _ _ => inferInstanceAs (Decidable (st.conn.ctl = .idle))
  | .sendMaxStreamData id _ => inferInstanceAs (Decidable (id = sid ∧ st.conn.ctl = .idle))
  | .recvResetStream _ _ | .recvStreamDataBlocked _ _ | .shutdownStreamRead _ | .openBidiStream => .isFalse id

instance (sid : Nat) (st : Logged) : (input : Input) → Decidable (NoSplit sid st input)
  | .recvStream fr _ => inferInstanceAs (Decidable (∀ strm, target st.conn sid = some strm → Unsplit strm fr))
  | .recvResetStream _ _ | .recvStreamDataBlocked _ _ | .callbackReturns | .shutdownStreamRead _ | .extendMaxOffset _
  | .extendMaxStreamOffset _ _ | .openBidiStream | .sendSide _ _ _ _ _ | .sendMaxData _ _ | .sendMaxStreamData _ _ =>
      .isTrue trivial

/-- The crypto streams before the first CRYPTO frame. -/
def CryptoFresh (conn : Crypto.Conn) : Prop :=
  ∀ level, (conn.crypto level).contOffset = 0 ∧ (conn.crypto level).reorder = none ∧ conn.delivered level = []

/-- On every level the calls have passed on the longest prefix that has arrived. -/
def CryptoReassembled (S : Crypto.EncryptionLevel → List UInt8) (st : Crypto.St) : Prop :=
  ∀ level, ∃ n, Passed (S level) (st.conn.delivered level) n ∧ (∀ o, o < n → InSomePush (st.arrived level) o) ∧
    ¬ InSomePush (st.arrived level) n

theorem CryptoFresh.inv {conn : Crypto.Conn} (h : CryptoFresh conn) (S : Crypto.EncryptionLevel → List UInt8) :
    Crypto.Inv S ⟨conn, fun _ => []⟩ := by
  intro level
  obtain ⟨hcont, hre, hcalls⟩ := h level
  have hent : (conn.crypto level).entries = [] := by simp [Strm.entries, hre]
  refine ⟨⟨?_, by simp only; omega, ?_, ?_, ?_⟩, by simp [Strm.rxOffset, hre], ?_⟩
  · simp only [Strm.RxWF, hent]
    trivial
  · simp [hent, view]
  · simp [hent, hcont, Covered, view, InSomePush]
  · simp [hent, Strm.maxFragments]
  · simp only [hcalls, hcont]
    exact passed_nil _

theorem cryptoReassembled_of_inv {S : Crypto.EncryptionLevel → List UInt8} {st : Crypto.St} (h : Crypto.Inv S st) :
    CryptoReassembled S st := by
  intro level
  obtain ⟨h₁, h₂⟩ := (h level).holds.gap
  rw [(h level).gap] at h₁ h₂
  exact ⟨_, (h level).passed, h₁, h₂⟩

/-- In every run in which no frame has to be cut around buffered data, the calls of
`recv_stream_data` carry the stream, and those of `recv_crypto_data` the handshake. -/
theorem run_reassembled (S : List UInt8) (sid : Nat) (conn : Conn) (inputs : List Input) (hfresh : Fresh conn sid)
    (hinputs : Guarded stepLogged (Allowed S sid) ⟨conn, []⟩ inputs)
    (hsplit : Guarded stepLogged (NoSplit sid) ⟨conn, []⟩ inputs)
    (C : Crypto.EncryptionLevel → List UInt8) (cconn : Crypto.Conn) (frames : List (Crypto.Frame × Crypto.Env))
    (hcfresh : CryptoFresh cconn)
    (hframes : Guarded Crypto.step (fun st i => Crypto.Admissible C st i.1 i.2) ⟨cconn, fun _ => []⟩ frames)
    (hcsplit : Guarded Crypto.step (fun st i => Crypto.Unsplit st i.1) ⟨cconn, fun _ => []⟩ frames) :
    (∃ st, run stepLogged ⟨conn, []⟩ inputs = .ok st ∧ (∃ n done, Reassembled S sid n done st) ∧
      ∃ k st', run stepLogged st (List.replicate k .callbackReturns) = .ok st' ∧ st'.conn.ctl = .idle ∧
        st'.frames = st.frames ∧ ∃ n done, Reassembled S sid n done st') ∧
    ∃ st, run Crypto.step ⟨cconn, fun _ => []⟩ frames = .ok st ∧ CryptoReassembled C st := by
  constructor
  · obtain ⟨st, hrun, hp⟩ := run_invariant stepLogged_phase (hfresh.phase S) (hinputs.and hsplit)
    obtain ⟨k, st', hret, hp', hidle, hsame⟩ := hp.settles
    exact ⟨st, hrun, hp.reassembled, k, st', hret, hidle, hsame, hp'.reassembled⟩
  · obtain ⟨st, hrun, hinv⟩ := run_invariant Crypto.step_inv (hcfresh.inv C) (hframes.and hcsplit)
    exact ⟨st, hrun, cryptoReassembled_of_inv hinv⟩

theorem serverConn_fresh (sid : Nat) (h : serverConn.localStream sid = false) : Fresh serverConn sid :=
  ⟨rfl, rfl, Or.inl ⟨rfl, h, by simp [serverConn]⟩⟩

def cryptoConn : Crypto.Conn where
  server := true
  handshakeEarlyRetransmit := false
  inProbePktLeft := 0
  hsProbePktLeft := 0
  glitchRlim := ⟨100, 1, 100, 0, 0⟩
  stats := {}
  crypto := fun _ => ⟨0, 0, 0, 0, 0, none, false, false, false, false, false, false, false⟩
  delivered := fun _ => []

instance (C : Crypto.EncryptionLevel → List UInt8) (st : Crypto.St) (fr : Crypto.Frame) (env : Crypto.Env) :
    Decidable (Crypto.Admissible C st fr env) :=
  decidable_of_iff (SliceOf (C fr.level) (fr.offset, fr.data) ∧ fr.endOffset ≤ Crypto.maxCryptoOffset fr.level ∧
      ((st.conn.crypto fr.level).rxOffset < fr.offset →
        fr.endOffset - (st.conn.crypto fr.level).rxOffset ≤ Crypto.maxReorderedCryptoData) ∧
      (fr.level ≠ .initial → st.conn.glitchRlim.CanDrain 1 env.ts) ∧ Supplied env.reorder ∧
      ((∃ o, Wanted (st.conn.crypto fr.level).entries (st.conn.crypto fr.level).contOffset fr.offset fr.data.length o) →
        (st.conn.crypto fr.level).entries.length + 1 < Strm.maxFragments))
    ⟨fun ⟨h₁, h₂, h₃, h₄, h₅, h₆⟩ => ⟨h₁, h₂, h₃, h₄, h₅, h₆⟩,
      fun h => ⟨h.slice, h.limit, h.near, h.glitch, h.supplied, h.room⟩⟩

instance (st : Crypto.St) (fr : Crypto.Frame) : Decidable (Crypto.Unsplit st fr) :=
  inferInstanceAs (Decidable ((st.conn.crypto fr.level).rxOffset < fr.offset → Contiguous _ _ _ _))

/-- The bytes `0, 1, …, 19`. -/
def twenty : List UInt8 :=
  (List.range 20).map UInt8.ofNat

def slice (offset len : Nat) (fin : Bool) : Input :=
  .recvStream ⟨0, offset, (twenty.drop offset).take len, fin⟩ freshEnv

def cryptoSlice (offset len : Nat) : Crypto.Frame × Crypto.Env :=
  (⟨.initial, offset, (twenty.drop offset).take len⟩, ⟨0, freshEnv.reorder⟩)

/-- Frames out of order, with an overlap on each side of what is buffered. -/
def overlapping : List Input :=
  [slice 12 4 false, .callbackReturns, slice 14 6 true, slice 10 3 false, slice 0 11 false, .callbackReturns,
    .callbackReturns]

theorem run_reassembled_overlap :
    Guarded stepLogged (Allowed twenty 0) ⟨serverConn, []⟩ overlapping ∧
    (∃ st, run stepLogged ⟨serverConn, []⟩ overlapping = .ok st ∧ (∃ n done, Reassembled twenty 0 n done st) ∧
      ∃ k st', run stepLogged st (List.replicate k .callbackReturns) = .ok st' ∧ st'.conn.ctl = .idle ∧
        st'.frames = st.frames ∧ ∃ n done, Reassembled twenty 0 n done st') ∧
    ∃ st, run Crypto.step ⟨cryptoConn, fun _ => []⟩ [cryptoSlice 12 4, cryptoSlice 10 3, cryptoSlice 0 11] = .ok st ∧
      CryptoReassembled (fun _ => twenty) st := by
  have hallowed : Guarded stepLogged (Allowed twenty 0) ⟨serverConn, []⟩ overlapping := by decide +kernel
  refine ⟨hallowed, ?_⟩
  apply run_reassembled twenty 0 serverConn overlapping (serverConn_fresh 0 rfl) hallowed (by decide +kernel)
    (fun _ => twenty) cryptoConn [cryptoSlice 12 4, cryptoSlice 10 3, cryptoSlice 0 11]
  · exact fun _ => ⟨rfl, rfl, rfl⟩
  · decide +kernel
  · decide +kernel

/-- The second frame covers the first on both sides, the third fills the gap before it. -/
def splitting : List Input :=
  [slice 12 2 false, .callbackReturns, slice 10 10 false, slice 0 10 false, .callbackReturns, .callbackReturns,
    .callbackReturns]

/-- Where the calls for stream 0 end, once the library is outside of its callbacks. -/
def deliveredEnd : Except Stop Logged → Option Nat
  | .ok ⟨conn, _⟩ =>
      if conn.ctl = .idle then some (((callsFor 0 conn.delivered).map (fun d => d.data.length)).sum) else none
  | .error _ => none

/-- The bytes from 14 on have arrived, but are never passed on. -/
theorem splitting_loses_bytes :
    ¬ ∀ S sid conn inputs, Fresh conn sid → Guarded stepLogged (Allowed S sid) ⟨conn, []⟩ inputs →
      ∃ st, run stepLogged ⟨conn, []⟩ inputs = .ok st ∧ ∃ n done, Reassembled S sid n done st := by
  intro h
  obtain ⟨st, hrun, n, done, hr⟩ := h twenty 0 serverConn splitting (serverConn_fresh 0 rfl) (by decide +kernel)
  have hend : deliveredEnd (run stepLogged ⟨serverConn, []⟩ splitting) = some 14 := by decide +kernel
  have hframes : (run stepLogged ⟨serverConn, []⟩ splitting).toOption.map
      (fun st => decide (InSomePush (st.frames.map StreamFrame.chunk) 14)) = some true := by decide +kernel
  rw [hrun] at hend hframes
  obtain ⟨conn, frames⟩ := st
  simp only [deliveredEnd] at hend
  split at hend
  · rename_i hidle
    have hn := hr.delivers.passed.consecutive.end_eq
    simp only [List.map_map, Nat.zero_add] at hn
    have hn' : n = 14 := hn.trans (Option.some.inj hend)
    subst hn'
    exact hr.longest hidle (of_decide_eq_true (Option.some.inj hframes))
  · cases hend

end Zngtcp2.Rx
