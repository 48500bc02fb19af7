import Zngtcp2.Rx.Prefix
import Zngtcp2.Tx.CryptoRuns

namespace Zngtcp2.Reassembly

open Reorder Lib.Segment

section Extend

variable {S : List UInt8} {arrived calls : List Chunk} {strm : Strm}

/-- What the stream holds remains right when the sender's data grows. -/
theorem Holds.extend (h : Holds S arrived strm) (T : List UInt8) : Holds (S ++ T) arrived strm := by
  refine ⟨h.wf, ?_, ?_, h.covered, h.few⟩
  · rw [List.length_append]
    exact Nat.le_add_right_of_le h.cont_le
  · intro o x hx
    have hS := h.bytes o x hx
    rw [List.getElem?_append_left (List.getElem?_eq_some_iff.mp hS).1]
    exact hS

theorem Passed.extend {n : Nat} (h : Passed S calls n) (T : List UInt8) : Passed (S ++ T) calls n := by
  refine ⟨?_, h.consecutive, ?_⟩
  · rw [List.length_append]
    exact Nat.le_add_right_of_le h.le
  · rw [h.bytes, List.take_append_of_le_length h.le]

/-- A chunk whose cells are cells of `S` is a slice of it. -/
theorem sliceOf_of_cells {c : Chunk} (hne : c.2 ≠ []) (h : ∀ x ∈ cells c.1 c.2, x ∈ cells 0 S) : SliceOf S c := by
  have hpos : 0 < c.2.length := List.length_pos_iff.mpr hne
  apply sliceOf_of_segAt
  · obtain ⟨b, hb⟩ := @exists_mem_cells _ c.1 c.2 (c.1 + c.2.length - 1) (show c.1 ≤ c.1 + c.2.length - 1 by omega) (by omega)
    have hlt := (mem_cells (h _ hb)).2
    simp only at hlt
    omega
  · intro o b hb
    rw [← segAt_zero, ← mem_cells_iff]
    exact h _ (mem_cells_iff.mpr hb)

end Extend

end Zngtcp2.Reassembly

namespace Zngtcp2.CryptoNet

open Lib.Run Lib.Segment Reassembly Strm
open Reorder (InSomePush Wanted)
open Crypto (EncryptionLevel Frame Env St Settled Unsplit)
open CryptoTx (State Input WireExact wireCells sentCells)

/-- The crypto streams that are sent, one for each level, and the endpoint that receives them. -/
structure Net where
  tx : EncryptionLevel → State
  rx : St

inductive Halt
  | tx (halt : CryptoTx.Halt)
  | rx (stop : Rx.Stop)

inductive Event
  | send (level : EncryptionLevel) (input : Input)
  | recv (fr : Frame) (env : Env)

/-- What the receiver needs of a frame besides its data. -/
structure Receivable (st : St) (fr : Frame) (env : Env) : Prop where
  limit : fr.endOffset ≤ Crypto.maxCryptoOffset fr.level
  near : (st.conn.crypto fr.level).rxOffset < fr.offset →
    fr.endOffset - (st.conn.crypto fr.level).rxOffset ≤ Crypto.maxReorderedCryptoData
  glitch : fr.level ≠ .initial → st.conn.glitchRlim.CanDrain 1 env.ts
  supplied : Supplied env.reorder
  room : (∃ o, Wanted (st.conn.crypto fr.level).entries (st.conn.crypto fr.level).contOffset fr.offset
    fr.data.length o) → (st.conn.crypto fr.level).entries.length + 1 < Strm.maxFragments
  unsplit : Unsplit st fr

namespace Net

variable (s : Net)

def step : Event → Except Halt Net
  | .send level input => do
      let tx ← (CryptoTx.step (s.tx level) input).mapError .tx
      .ok { s with tx := Function.update s.tx level tx }
  | .recv fr env => do
      let rx ← (Crypto.step s.rx (fr, env)).mapError .rx
      .ok { s with rx := rx }

/-- An entry is acknowledged after its frames have arrived. -/
def Acknowledged (level : EncryptionLevel) : Input → Prop
  | .acked i => ∀ ent ∈ (s.tx level).rtb[i]?, ∀ fr ∈ ent.frames, ∀ x < fr.endOff, fr.offset ≤ x →
      InSomePush (s.rx.arrived level) x
  | _ => True

/-- The frames that arrive were sent, and the rounds without crumbling find copied data in front. -/
def Allowed : Event → Prop
  | .send level input =>
      CryptoTx.Fits (s.tx level) input ∧ CryptoTx.ReadsVectors (s.tx level) input ∧ s.Acknowledged level input
  | .recv fr env => (∃ w ∈ (s.tx fr.level).wire, (fr.offset, fr.data) ∈ w.sent) ∧ Receivable s.rx fr env

def init (pcg : EncryptionLevel → Crumble.Pcg32) (conn : Crypto.Conn) : Net :=
  ⟨fun level => State.new (pcg level), ⟨conn, fun _ => []⟩⟩

instance decidableReceivable (st : St) (fr : Frame) (env : Env) : Decidable (Receivable st fr env) :=
  decidable_of_iff (fr.endOffset ≤ Crypto.maxCryptoOffset fr.level ∧
      ((st.conn.crypto fr.level).rxOffset < fr.offset →
        fr.endOffset - (st.conn.crypto fr.level).rxOffset ≤ Crypto.maxReorderedCryptoData) ∧
      (fr.level ≠ .initial → st.conn.glitchRlim.CanDrain 1 env.ts) ∧ Supplied env.reorder ∧
      ((∃ o, Wanted (st.conn.crypto fr.level).entries (st.conn.crypto fr.level).contOffset fr.offset fr.data.length o) →
        (st.conn.crypto fr.level).entries.length + 1 < Strm.maxFragments) ∧ Unsplit st fr)
    ⟨fun ⟨h₁, h₂, h₃, h₄, h₅, h₆⟩ => ⟨h₁, h₂, h₃, h₄, h₅, h₆⟩,
      fun h => ⟨h.limit, h.near, h.glitch, h.supplied, h.room, h.unsplit⟩⟩

instance decidableAcknowledged (level : EncryptionLevel) : (input : Input) → Decidable (s.Acknowledged level input)
  | .acked i => inferInstanceAs (Decidable (∀ ent ∈ (s.tx level).rtb[i]?, ∀ fr ∈ ent.frames, ∀ x < fr.endOff,
      fr.offset ≤ x → InSomePush (s.rx.arrived level) x))
  | .submit .. | .round .. | .finish | .lost _ | .pto _ | .expired _ => .isTrue trivial

instance decidableAllowed (e : Event) : Decidable (s.Allowed e) :=
  match e with
  | .send level input => @instDecidableAnd _ _ inferInstance (@instDecidableAnd _ _ inferInstance
      (s.decidableAcknowledged level input))
  | .recv .. => inferInstanceAs (Decidable (_ ∧ _))

end Net

section Sender

variable {s s' : State}

/-- Only a submission adds data, and only an acknowledgement changes what is acknowledged. -/
theorem step_cases {i : Input} (h : CryptoTx.step s i = .ok s') :
    (s'.bytes = s.bytes ∧ s'.strm.acked = s.strm.acked) ∨
    (∃ sub addr, i = .submit sub addr ∧ CryptoTx.Submitted s sub addr s') ∨
    ∃ k ent chain, i = .acked k ∧ s.rtb[k]? = some ent ∧ s'.bytes = s.bytes ∧
      CryptoTx.processAckedPkt ent.frames s.strm.acked s.data = .ok (s'.strm.acked, chain) := by
  cases i with
  | submit sub addr =>
      obtain rfl | hsub := CryptoTx.submit_cases (CryptoTx.halting_ok h)
      · exact Or.inl ⟨rfl, rfl⟩
      · exact Or.inr (Or.inl ⟨sub, addr, rfl, hsub⟩)
  | round crumble left =>
      obtain ⟨r, -, hok⟩ := bind_ok (CryptoTx.halting_ok h)
      cases hok
      exact Or.inl ⟨rfl, rfl⟩
  | finish =>
      cases h
      left
      rw [State.finish]
      split
      · exact ⟨rfl, rfl⟩
      · exact ⟨rfl, rfl⟩
  | lost i =>
      have h := CryptoTx.halting_ok h
      rw [State.lost] at h
      split at h
      · cases h
        exact Or.inl ⟨rfl, rfl⟩
      · obtain ⟨p, -, hok⟩ := bind_ok h
        cases hok
        exact Or.inl ⟨rfl, rfl⟩
  | pto n =>
      obtain ⟨p, -, hok⟩ := bind_ok (CryptoTx.halting_ok h)
      cases hok
      exact Or.inl ⟨rfl, rfl⟩
  | acked k =>
      rw [CryptoTx.step, State.acked] at h
      split at h
      · cases h
        exact Or.inl ⟨rfl, rfl⟩
      · rename_i ent hent
        obtain ⟨⟨acked, chain⟩, hack, hok⟩ := bind_ok h
        cases hok
        exact Or.inr (Or.inr ⟨k, ent, chain, rfl, hent, rfl, hack⟩)
  | expired i =>
      cases h
      left
      rw [State.expired]
      split
      · exact ⟨rfl, rfl⟩
      · split
        · exact ⟨rfl, rfl⟩
        · exact ⟨rfl, rfl⟩

theorem step_bytes {i : Input} (h : CryptoTx.step s i = .ok s') : ∃ T, s'.bytes = s.bytes ++ T := by
  obtain ⟨hbytes, -⟩ | ⟨sub, addr, -, hsub⟩ | ⟨k, ent, chain, -, -, hbytes, -⟩ := step_cases h
  · exact ⟨[], by rw [hbytes, List.append_nil]⟩
  · exact ⟨sub.data, hsub.bytes⟩
  · exact ⟨[], by rw [hbytes, List.append_nil]⟩

/-- What counts as acknowledged has the property. -/
def AckedOnly (P : Nat → Prop) (s : State) : Prop :=
  ∀ x < s.bytes.length, ¬s.strm.acked.Missing x → P x

theorem step_ackedOnly {P : Nat → Prop} {i : Input} (hinv : CryptoTx.Inv s) (hP : AckedOnly P s) (hfits : CryptoTx.Fits s i)
    (hack : ∀ k, i = .acked k → ∀ ent ∈ s.rtb[k]?, ∀ fr ∈ ent.frames, ∀ x < fr.endOff, fr.offset ≤ x → P x)
    (h : CryptoTx.step s i = .ok s') : AckedOnly P s' := by
  obtain ⟨hbytes, hacked⟩ | ⟨sub, addr, rfl, hsub⟩ | ⟨k, ent, chain, rfl, hent, hbytes, hacked⟩ := step_cases h
  · rw [AckedOnly, hbytes, hacked]
    exact hP
  · intro x hx hmiss
    rw [hsub.acked] at hmiss
    rw [hsub.bytes, List.length_append] at hx
    by_cases hlt : x < s.bytes.length
    · exact hP x hlt hmiss
    · have hfits : s.offset + sub.data.length < uint64Max := hfits
      rw [hinv.offset] at hfits
      exact absurd (hinv.wf.missing x (Nat.not_lt.mp hlt) (by omega)) hmiss
  · have hmem := List.mem_of_getElem? hent
    obtain ⟨-, hmissing⟩ := CryptoTx.processAckedPkt_acked hinv.wf (fun fr hfr => (hinv.rtb ent hmem fr hfr).le) hacked
    rw [AckedOnly, hbytes]
    intro x hx hnot
    by_cases hold : s.strm.acked.Missing x
    · have hex : ∃ fr ∈ ent.frames, fr.offset ≤ x ∧ x < fr.endOff := by
        by_contra hno
        exact hnot ((hmissing x).mpr ⟨hold, fun fr hfr hin => hno ⟨fr, hfr, hin⟩⟩)
      obtain ⟨fr, hfr, hle, hlt⟩ := hex
      exact hack k rfl ent hent fr hfr x hlt hle
    · exact hP x hx hold

/-- A chunk on the wire is a part of what was submitted. -/
theorem sent_slice (h : WireExact s) {w : CryptoTx.Written} (hw : w ∈ s.wire) {c : Chunk} (hc : c ∈ w.sent) (hne : c.2 ≠ []) :
    SliceOf s.bytes c := by
  apply sliceOf_of_cells hne
  intro x hx
  exact h.delivered x (List.mem_flatMap.mpr ⟨w, hw, List.mem_flatMap.mpr ⟨c, hc, hx⟩⟩)

end Sender

section Receiver

variable {S : EncryptionLevel → List UInt8} {st : St} {fr : Frame} {env : Env}

/-- A frame without data is only counted as a glitch. -/
theorem recv_empty (h : Crypto.Inv S st) (hr : Receivable st fr env) (hnil : fr.data = []) :
    ∃ st', Crypto.step st (fr, env) = .ok st' ∧ Crypto.Inv S st' ∧
      st'.arrived = Function.update st.arrived fr.level (st.arrived fr.level ++ [(fr.offset, fr.data)]) := by
  obtain ⟨rlim, hglitch⟩ := Crypto.glitch_ok st.conn hr.glitch
  have hrecv : st.conn.recvCrypto fr env = .ok { st.conn with glitchRlim := rlim } := by
    rw [Crypto.Conn.recvCrypto, if_pos hnil, hglitch]
  refine ⟨⟨{ st.conn with glitchRlim := rlim },
    Function.update st.arrived fr.level (st.arrived fr.level ++ [(fr.offset, fr.data)])⟩, ?_, ?_, rfl⟩
  · simp only [Crypto.step, hrecv]
  intro level
  by_cases hl : level = fr.level
  · subst hl
    have hs := h fr.level
    simp only [Function.update_self]
    exact ⟨hs.holds.duplicate (Or.inl hnil), hs.gap, hs.passed⟩
  · simp only [Function.update_of_ne hl]
    exact h level

theorem recv_sound (h : Crypto.Inv S st) (hr : Receivable st fr env)
    (hslice : fr.data ≠ [] → SliceOf (S fr.level) (fr.offset, fr.data)) :
    ∃ st', Crypto.step st (fr, env) = .ok st' ∧ Crypto.Inv S st' ∧
      st'.arrived = Function.update st.arrived fr.level (st.arrived fr.level ++ [(fr.offset, fr.data)]) := by
  by_cases hnil : fr.data = []
  · exact recv_empty h hr hnil
  · have hadm : Crypto.Admissible S st fr env :=
      ⟨hslice hnil, hr.limit, hr.near, hr.glitch, hr.supplied, hr.room⟩
    obtain ⟨st', hstep, hinv⟩ := Crypto.step_inv st (fr, env) h ⟨hadm, hr.unsplit⟩
    refine ⟨st', hstep, hinv, ?_⟩
    simp only [Crypto.step] at hstep
    split at hstep
    · cases hstep
    · cases hstep
      rfl

theorem inv_extend {T : EncryptionLevel → List UInt8} (h : Crypto.Inv S st) (level : EncryptionLevel)
    (hlevel : ∃ rest, T level = S level ++ rest) (hother : ∀ l, l ≠ level → T l = S l) : Crypto.Inv T st := by
  intro l
  have hs := h l
  by_cases hl : l = level
  · subst hl
    obtain ⟨rest, hrest⟩ := hlevel
    rw [hrest]
    exact ⟨hs.holds.extend rest, hs.gap, hs.passed.extend rest⟩
  · rw [hother l hl]
    exact hs

end Receiver

namespace Net

/-- The sender's buffers and the receiver's agree on every level. -/
structure Inv (s : Net) : Prop where
  tx : ∀ level, CryptoTx.Inv (s.tx level)
  wire : ∀ level, WireExact (s.tx level)
  rx : Crypto.Inv (fun level => (s.tx level).bytes) s.rx
  acked : ∀ level, AckedOnly (InSomePush (s.rx.arrived level)) (s.tx level)

variable {s : Net}

theorem Inv.send (h : Inv s) {level : EncryptionLevel} {input : Input} (ha : s.Allowed (.send level input)) {tx : State}
    (hstep : CryptoTx.step (s.tx level) input = .ok tx) : Inv { s with tx := Function.update s.tx level tx } := by
  obtain ⟨hfits, hread, hack⟩ := ha
  have htx := CryptoTx.step_inv (h.tx level) hfits hstep
  have hwire := CryptoTx.step_wireExact (h.tx level) (h.wire level) hfits hread hstep
  have hacked : AckedOnly (InSomePush (s.rx.arrived level)) tx := by
    apply step_ackedOnly (h.tx level) (h.acked level) hfits _ hstep
    rintro k rfl
    exact hack
  refine ⟨fun l => ?_, fun l => ?_, ?_, fun l => ?_⟩
  · by_cases hl : l = level
    · subst hl
      simp only [Function.update_self]
      exact htx
    · simp only [Function.update_of_ne hl]
      exact h.tx l
  · by_cases hl : l = level
    · subst hl
      simp only [Function.update_self]
      exact hwire
    · simp only [Function.update_of_ne hl]
      exact h.wire l
  · apply inv_extend h.rx level
    · simp only [Function.update_self]
      exact step_bytes hstep
    · intro l hl
      simp only [Function.update_of_ne hl]
  · by_cases hl : l = level
    · subst hl
      simp only [Function.update_self]
      exact hacked
    · simp only [Function.update_of_ne hl]
      exact h.acked l

theorem Inv.recv (h : Inv s) {fr : Frame} {env : Env} (ha : s.Allowed (.recv fr env)) :
    ∃ rx, Crypto.step s.rx (fr, env) = .ok rx ∧ Inv { s with rx := rx } := by
  obtain ⟨⟨w, hw, hsent⟩, hr⟩ := ha
  obtain ⟨rx, hstep, hinv, harrived⟩ := recv_sound h.rx hr fun hne => sent_slice (h.wire fr.level) hw hsent hne
  refine ⟨rx, hstep, h.tx, h.wire, hinv, fun level => ?_⟩
  intro x hx hmiss
  have hx := h.acked level x hx hmiss
  simp only [harrived]
  by_cases hl : level = fr.level
  · subst hl
    rw [Function.update_self, inSomePush_append]
    exact Or.inl hx
  · rw [Function.update_of_ne hl]
    exact hx

theorem step_inv (s : Net) (e : Event) (h : Inv s) (ha : s.Allowed e) :
    Ends (fun halt => ∃ tx, halt = .tx tx) Inv (s.step e) := by
  cases e with
  | send level input =>
      rw [step]
      cases hstep : CryptoTx.step (s.tx level) input with
      | error halt => exact ⟨halt, rfl⟩
      | ok tx => exact h.send ha hstep
  | recv fr env =>
      obtain ⟨rx, hstep, hinv⟩ := h.recv ha
      rw [step, hstep]
      exact hinv

theorem init_inv (pcg : EncryptionLevel → Crumble.Pcg32) {conn : Crypto.Conn} (hfresh : Rx.CryptoFresh conn) :
    Inv (init pcg conn) := by
  refine ⟨fun level => CryptoTx.new_inv _, fun level => CryptoTx.new_wireExact _, hfresh.inv _, fun level => ?_⟩
  exact fun x hx => absurd hx (Nat.not_lt_zero x)

/-- What has become of the data of one level. -/
structure Transferred (s : Net) (level : EncryptionLevel) : Prop where
  passed : ∃ n, Passed (s.tx level).bytes (s.rx.conn.delivered level) n
  acked : AckedOnly (InSomePush (s.rx.arrived level)) (s.tx level)
  complete : (∀ x < (s.tx level).bytes.length, ¬(s.tx level).strm.acked.Missing x) →
    ((s.rx.conn.delivered level).map Prod.snd).flatten = (s.tx level).bytes

theorem Inv.transferred (h : Inv s) (level : EncryptionLevel) : Transferred s level := by
  have hrx := h.rx level
  refine ⟨⟨_, hrx.passed⟩, h.acked level, ?_⟩
  intro hall
  -- the first byte that has not arrived is not below the end
  have hend : (s.tx level).bytes.length ≤ (s.rx.conn.crypto level).contOffset := by
    by_contra hlt
    rw [← hrx.gap] at hlt
    have hlt := Nat.not_le.mp hlt
    exact hrx.holds.gap.2 (h.acked level _ hlt (hall _ hlt))
  rw [hrx.passed.bytes, List.take_of_length_le hend]

def sending (input : Input) : Event :=
  .send .initial input

def recvd (offset : Nat) (data : List UInt8) : Event :=
  .recv ⟨.initial, offset, data⟩ ⟨0, Rx.freshEnv.reorder⟩

/-- The first of two packets is lost, and its data arrives late and twice. -/
def lossy : List Event :=
  [sending (.submit ⟨false, [1, 2, 3, 4, 5, 6]⟩ 4096), sending (.round false 7), sending .finish,
    sending (.round false 60), sending .finish, recvd 4 [5, 6], sending (.acked 1), sending (.lost 0),
    sending (.pto 1), sending (.round false 60), sending .finish, recvd 0 [1, 2, 3, 4], recvd 0 [1, 2, 3, 4],
    sending (.acked 1)]

end Net

end Zngtcp2.CryptoNet
