import Zngtcp2.Rx.Model
import Zngtcp2.Strm.Reassembly

namespace Zngtcp2.Crypto

open Reorder Reassembly Lib.Run Rx

inductive EncryptionLevel
  | initial
  | handshake
  | oneRtt
  deriving DecidableEq, Repr

/-- What `conn_recv_crypto` reads and changes of the connection: the crypto stream of each level,
and for the early retransmission the probe counters of the first two packet number spaces. -/
structure Conn where
  server : Bool
  handshakeEarlyRetransmit : Bool
  inProbePktLeft : Nat
  hsProbePktLeft : Nat
  glitchRlim : Ratelim
  stats : BufStats
  crypto : EncryptionLevel → Strm
  delivered : EncryptionLevel → List Chunk

structure Frame where
  level : EncryptionLevel
  offset : Nat
  data : List UInt8

def Frame.endOffset (fr : Frame) : Nat :=
  fr.offset + fr.data.length

structure Env where
  ts : Nat
  reorder : ReorderEnv

def maxCryptoOffset : EncryptionLevel → Nat
  | .initial => 16 * 1024
  | .handshake => 64 * 1024
  | .oneRtt => 256 * 1024

def maxReorderedCryptoData : Nat := 65536

namespace Conn

def setCrypto (conn : Conn) (level : EncryptionLevel) (strm : Strm) : Conn :=
  { conn with crypto := Function.update conn.crypto level strm }

def callRecvCryptoData (conn : Conn) (level : EncryptionLevel) (offset : Nat) (data : List UInt8) : Conn :=
  { conn with delivered := Function.update conn.delivered level (conn.delivered level ++ [(offset, data)]) }

def release (conn : Conn) (rels : List Release) : Conn :=
  { conn with stats := connReorderReleaseAll conn.stats rels }

def glitch (conn : Conn) (level : EncryptionLevel) (ts : Nat) : Except Stop Conn :=
  if level = .initial then .ok conn
  else
    match conn.glitchRlim.drain 1 ts with
    | .error f => .error (.fault f)
    | .ok (true, rlim) => .ok { conn with glitchRlim := rlim }
    | .ok (false, _) => .error (.error .internal)

/-- The server retransmits early, once, when the client repeats its Initial data. -/
def earlyRetransmit (conn : Conn) (level : EncryptionLevel) : Conn :=
  if conn.server ∧ conn.handshakeEarlyRetransmit = false ∧ level = .initial then
    { conn with handshakeEarlyRetransmit := true, inProbePktLeft := 1, hsProbePktLeft := 1 }
  else conn

/-- The loop of `conn_emit_pending_crypto_data`; each round pops an entry, so that the number of
entries bounds the number of rounds. -/
def emitPendingCryptoData : Nat → Conn → EncryptionLevel → Nat → Except Stop Conn
  | 0, _, _, _ => .error .notEnabled
  | rounds + 1, conn, level, rxOffset =>
      match (conn.crypto level).reorder with
      | none => .ok conn
      | some reorder =>
          match dataAt reorder rxOffset with
          | .error f => .error (.fault f)
          | .ok none =>
              if rxOffset = (conn.crypto level).rxOffset then .ok conn else .error (.fault .assertion)
          | .ok (some (buf, datalen)) =>
              let conn := conn.callRecvCryptoData level rxOffset buf.bytes
              match pop reorder rxOffset datalen with
              | .error f => .error (.fault f)
              | .ok (reorder', released) =>
                  emitPendingCryptoData rounds
                    ((conn.release released).setCrypto level
                      { conn.crypto level with reorder := some reorder', contOffset := rxOffset + datalen })
                    level (rxOffset + datalen)

def bufferCrypto (conn : Conn) (strm : Strm) (fr : Frame) (env : Env) : Except Stop Conn :=
  let r := connRecvReordering conn.stats strm fr.data fr.offset env.reorder
  let conn := { conn.setCrypto fr.level r.strm with stats := r.stats }
  if r.rv ≠ .ok then .error (.error r.rv)
  else if r.nwrite = 0 then conn.glitch fr.level env.ts
  else .ok conn

def deliverCrypto (conn : Conn) (strm : Strm) (fr : Frame) (rxOffset : Nat) : Except Stop Conn :=
  let ncut := rxOffset - fr.offset
  let rxOffset' := rxOffset + (fr.data.length - ncut)
  let r := strm.updateRxOffset rxOffset'
  let conn := ((conn.release r.2).setCrypto fr.level r.1).callRecvCryptoData fr.level rxOffset (fr.data.drop ncut)
  conn.emitPendingCryptoData (r.1.entries.length + 1) fr.level rxOffset'

def recvCrypto (conn : Conn) (fr : Frame) (env : Env) : Except Stop Conn :=
  if fr.data = [] then conn.glitch fr.level env.ts
  else if maxVarint < fr.endOffset then .error (.error .frameEncoding)
  else if maxCryptoOffset fr.level < fr.endOffset then .error (.error .cryptoBufferExceeded)
  else
    let strm := conn.crypto fr.level
    let rxOffset := strm.rxOffset
    if fr.endOffset ≤ rxOffset then
      match conn.glitch fr.level env.ts with
      | .error e => .error e
      | .ok conn => .ok (conn.earlyRetransmit fr.level)
    else
      let strm := { strm with lastOffset := max strm.lastOffset fr.endOffset }
      if fr.offset ≤ rxOffset then conn.deliverCrypto strm fr rxOffset
      else if maxReorderedCryptoData < fr.endOffset - rxOffset then .error (.error .cryptoBufferExceeded)
      else conn.bufferCrypto strm fr env

end Conn

/-- The connection with the history of the frames it processed. -/
structure St where
  conn : Conn
  arrived : EncryptionLevel → List Chunk

def step (st : St) (input : Frame × Env) : Except Stop St :=
  match st.conn.recvCrypto input.1 input.2 with
  | .error e => .error e
  | .ok conn =>
      .ok ⟨conn, Function.update st.arrived input.1.level
        (st.arrived input.1.level ++ [(input.1.offset, input.1.data)])⟩

/-- The stream of one level between frames: what has arrived without a gap has been passed on. -/
structure Settled (S : List UInt8) (arrived : List Chunk) (strm : Strm) (calls : List Chunk) : Prop where
  holds : Holds S arrived strm
  gap : strm.rxOffset = strm.contOffset
  passed : Passed S calls strm.contOffset

def Inv (S : EncryptionLevel → List UInt8) (st : St) : Prop :=
  ∀ level, Settled (S level) (st.arrived level) (st.conn.crypto level) (st.conn.delivered level)

/-- The other levels are left alone. -/
def SameLevels (level : EncryptionLevel) (conn conn' : Conn) : Prop :=
  ∀ l, l ≠ level → conn'.crypto l = conn.crypto l ∧ conn'.delivered l = conn.delivered l

theorem emit_settled {S : List UInt8} {arrived : List Chunk} (rounds : Nat) (conn : Conn) (level : EncryptionLevel)
    (h : Holds S arrived (conn.crypto level)) (hp : Passed S (conn.delivered level) (conn.crypto level).contOffset)
    (hrounds : (conn.crypto level).entries.length < rounds) :
    ∃ conn', conn.emitPendingCryptoData rounds level (conn.crypto level).contOffset = .ok conn' ∧
      Settled S arrived (conn'.crypto level) (conn'.delivered level) ∧ SameLevels level conn conn' := by
  induction rounds generalizing conn with
  | zero => omega
  | succ rounds ih =>
      have hdone : (conn.crypto level).rxOffset = (conn.crypto level).contOffset →
          Settled S arrived (conn.crypto level) (conn.delivered level) := fun hg => ⟨h, hg, hp⟩
      cases hr : (conn.crypto level).reorder with
      | none =>
          refine ⟨conn, by simp only [Conn.emitPendingCryptoData, hr], hdone ?_, fun _ _ => ⟨rfl, rfl⟩⟩
          simp only [Strm.rxOffset, hr]
      | some reorder =>
          have hent : (conn.crypto level).entries = reorder := by simp [Strm.entries, hr]
          have hw : WF (conn.crypto level).contOffset reorder := by
            rw [← hent]
            exact h.wf
          cases reorder with
          | nil =>
              have hg : (conn.crypto level).rxOffset = (conn.crypto level).contOffset := by
                simp [Strm.rxOffset, hr, firstGapOffset]
              refine ⟨conn, ?_, hdone hg, fun _ _ => ⟨rfl, rfl⟩⟩
              simp only [Conn.emitPendingCryptoData, hr, dataAt, hg, if_true]
          | cons ent rest =>
              have hdata := dataAt_head hw
              by_cases hb : ent.range.begin = (conn.crypto level).contOffset
              · rw [if_pos hb] at hdata
                obtain ⟨hslice, hholds⟩ := h.pop hr hb
                have hlt := hw.2.1.1
                have hlen : ent.buf.bytes.length = ent.range.endOff - ent.range.begin := hw.2.1.2
                have hend : (conn.crypto level).contOffset + (ent.range.endOff - (conn.crypto level).contOffset) =
                    ent.range.endOff := by omega
                have hcall := hp.append rfl hslice
                rw [show (conn.crypto level).contOffset + ent.buf.bytes.length = ent.range.endOff by omega] at hcall
                set strm' : Strm := { conn.crypto level with reorder := some rest, contOffset := ent.range.endOff }
                  with hstrm'
                set conn₁ := ((conn.callRecvCryptoData level (conn.crypto level).contOffset ent.buf.bytes).release
                  [ent.release]).setCrypto level strm' with hconn₁
                have hcrypto : conn₁.crypto level = strm' := Function.update_self _ _ _
                have hlog : conn₁.delivered level =
                    conn.delivered level ++ [((conn.crypto level).contOffset, ent.buf.bytes)] :=
                  Function.update_self _ _ _
                have hother : SameLevels level conn conn₁ := by
                  intro l hl
                  exact ⟨Function.update_of_ne hl _ _, Function.update_of_ne hl _ _⟩
                have hfew : (conn₁.crypto level).entries.length < rounds := by
                  rw [hent, List.length_cons] at hrounds
                  rw [hcrypto]
                  change rest.length < rounds
                  omega
                obtain ⟨conn', hrun, hset, hsame⟩ := ih conn₁ (by rw [hcrypto]; exact hholds)
                  (by rw [hcrypto, hlog]; exact hcall) hfew
                refine ⟨conn', ?_, hset, fun l hl => ?_⟩
                · rw [hcrypto] at hrun
                  simp only [Conn.emitPendingCryptoData, hr, hdata, pop_head hw hb, hend]
                  exact hrun
                · rw [(hsame l hl).1, (hsame l hl).2]
                  exact hother l hl
              · rw [if_neg hb] at hdata
                have hg : (conn.crypto level).rxOffset = (conn.crypto level).contOffset := by
                  have hle := hw.1
                  have hlt := hw.2.1.1
                  simp only [Strm.rxOffset, hr, firstGapOffset]
                  rw [if_neg (by omega), if_pos (by omega)]
                refine ⟨conn, ?_, hdone hg, fun _ _ => ⟨rfl, rfl⟩⟩
                simp only [Conn.emitPendingCryptoData, hr, hdata, hg, if_true]

theorem glitch_ok (conn : Conn) {level : EncryptionLevel} {ts : Nat}
    (h : level ≠ .initial → conn.glitchRlim.CanDrain 1 ts) :
    ∃ rlim, conn.glitch level ts = .ok { conn with glitchRlim := rlim } := by
  by_cases hl : level = .initial
  · exact ⟨conn.glitchRlim, by simp only [Conn.glitch, hl, if_true]⟩
  · obtain ⟨rlim, hd⟩ := h hl
    exact ⟨rlim, by simp only [Conn.glitch, if_neg hl, hd]⟩

/-- A frame that the level may receive: it carries its part of `S`, stays below the limits, nothing
it needs is out of memory or exhausted, and if it is buffered the list has room. -/
structure Admissible (S : EncryptionLevel → List UInt8) (st : St) (fr : Frame) (env : Env) : Prop where
  slice : SliceOf (S fr.level) (fr.offset, fr.data)
  limit : fr.endOffset ≤ maxCryptoOffset fr.level
  near : (st.conn.crypto fr.level).rxOffset < fr.offset →
    fr.endOffset - (st.conn.crypto fr.level).rxOffset ≤ maxReorderedCryptoData
  glitch : fr.level ≠ .initial → st.conn.glitchRlim.CanDrain 1 env.ts
  supplied : Supplied env.reorder
  room : (∃ o, Wanted (st.conn.crypto fr.level).entries (st.conn.crypto fr.level).contOffset fr.offset
    fr.data.length o) → (st.conn.crypto fr.level).entries.length + 1 < Strm.maxFragments

/-- The bytes that a frame beyond the first gap still has to add are contiguous. -/
def Unsplit (st : St) (fr : Frame) : Prop :=
  (st.conn.crypto fr.level).rxOffset < fr.offset →
    Contiguous (st.conn.crypto fr.level).entries (st.conn.crypto fr.level).contOffset fr.offset fr.data.length

theorem Settled.congr {S : List UInt8} {arrived : List Chunk} {strm strm' : Strm} {calls : List Chunk}
    (h : Settled S arrived strm calls) (hcont : strm'.contOffset = strm.contOffset)
    (hre : strm'.reorder = strm.reorder) : Settled S arrived strm' calls := by
  refine ⟨h.holds.congr hcont hre, ?_, by rw [hcont]; exact h.passed⟩
  rw [rxOffset_congr hcont hre, hcont]
  exact h.gap

theorem deliverCrypto_settled {S : List UInt8} {arrived : List Chunk} {conn : Conn} {strm : Strm} {fr : Frame}
    (h : Settled S arrived strm (conn.delivered fr.level)) (hslice : SliceOf S (fr.offset, fr.data))
    (hoff : fr.offset ≤ strm.rxOffset) (hend : strm.rxOffset < fr.endOffset) :
    ∃ conn', conn.deliverCrypto strm fr strm.rxOffset = .ok conn' ∧
      Settled S (arrived ++ [(fr.offset, fr.data)]) (conn'.crypto fr.level) (conn'.delivered fr.level) ∧
      SameLevels fr.level conn conn' := by
  have hdef : fr.endOffset = fr.offset + fr.data.length := rfl
  have hrx : strm.rxOffset + (fr.data.length - (strm.rxOffset - fr.offset)) = fr.offset + fr.data.length := by omega
  have htake := h.holds.take hslice hoff h.gap (by simp only; omega)
  have hcut := hslice.drop hoff (by simp only; omega)
  have hpass := h.passed.append h.gap hcut
  rw [← h.gap] at hpass
  simp only [List.length_drop, hrx] at hpass htake
  set strm' := (strm.updateRxOffset (fr.offset + fr.data.length)).1 with hstrm'
  have hcont : strm'.contOffset = fr.offset + fr.data.length := Strm.updateRxOffset_contOffset _ _
  set conn₁ := ((conn.release (strm.updateRxOffset (fr.offset + fr.data.length)).2).setCrypto fr.level
    strm').callRecvCryptoData fr.level strm.rxOffset (fr.data.drop (strm.rxOffset - fr.offset)) with hconn₁
  have hcrypto : conn₁.crypto fr.level = strm' := Function.update_self _ _ _
  have hlog : conn₁.delivered fr.level =
      conn.delivered fr.level ++ [(strm.rxOffset, fr.data.drop (strm.rxOffset - fr.offset))] :=
    Function.update_self _ _ _
  obtain ⟨conn', hrun, hset, hsame⟩ := emit_settled (strm'.entries.length + 1) conn₁ fr.level
    (by rw [hcrypto]; exact htake) (by rw [hcrypto, hlog, hcont]; exact hpass) (by rw [hcrypto]; omega)
  refine ⟨conn', ?_, hset, fun l hl => ?_⟩
  · rw [hcrypto, hcont] at hrun
    simp only [Conn.deliverCrypto, hrx]
    exact hrun
  · rw [(hsame l hl).1, (hsame l hl).2]
    exact ⟨Function.update_of_ne hl _ _, Function.update_of_ne hl _ _⟩

theorem bufferCrypto_settled {S : List UInt8} {arrived : List Chunk} {conn : Conn} {strm : Strm} {fr : Frame} {env : Env}
    (h : Settled S arrived strm (conn.delivered fr.level)) (hslice : SliceOf S (fr.offset, fr.data))
    (hoff : strm.rxOffset < fr.offset) (hlt : fr.endOffset < 2 ^ 64)
    (hglitch : fr.level ≠ .initial → conn.glitchRlim.CanDrain 1 env.ts) (hsup : Supplied env.reorder)
    (hcontig : Contiguous strm.entries strm.contOffset fr.offset fr.data.length)
    (hroom : (∃ o, Wanted strm.entries strm.contOffset fr.offset fr.data.length o) →
      strm.entries.length + 1 < Strm.maxFragments) :
    ∃ conn', conn.bufferCrypto strm fr env = .ok conn' ∧
      Settled S (arrived ++ [(fr.offset, fr.data)]) (conn'.crypto fr.level) (conn'.delivered fr.level) ∧
      SameLevels fr.level conn conn' := by
  obtain ⟨hok, hholds⟩ := h.holds.recvReordering conn.stats hslice hlt hsup hcontig hroom
  have hflags := Release.connRecvReordering_flags conn.stats strm fr.data fr.offset env.reorder
  simp only [Conn.bufferCrypto]
  generalize connRecvReordering conn.stats strm fr.data fr.offset env.reorder = r at hok hholds hflags
  have hcont : r.strm.contOffset = strm.contOffset := by rw [hflags]
  have hgap : r.strm.rxOffset = r.strm.contOffset := by
    -- the frame lies above the gap, which therefore stays
    have hnot : ¬ InSomePush (arrived ++ [(fr.offset, fr.data)]) r.strm.contOffset := by
      rw [inSomePush_append, hcont, ← h.gap]
      rintro (ha | ⟨hle, -⟩)
      · exact h.holds.gap.2 ha
      · simp only at hle
        omega
    have hle := (firstGapOffset_spec hholds.wf r.strm.contOffset).1
    rw [← Strm.rxOffset_eq] at hle
    rcases Nat.eq_or_lt_of_le hle with heq | hgt
    · exact heq.symm
    · exact absurd (hholds.gap.1 _ hgt) hnot
  have hset : ∀ rlim, Settled S (arrived ++ [(fr.offset, fr.data)])
      (({ conn.setCrypto fr.level r.strm with stats := r.stats, glitchRlim := rlim } : Conn).crypto fr.level)
      (conn.delivered fr.level) := by
    intro rlim
    rw [show ({ conn.setCrypto fr.level r.strm with stats := r.stats, glitchRlim := rlim } : Conn).crypto fr.level =
      r.strm from Function.update_self _ _ _]
    exact ⟨hholds, hgap, by rw [hcont]; exact h.passed⟩
  have hsame : ∀ rlim, SameLevels fr.level conn
      { conn.setCrypto fr.level r.strm with stats := r.stats, glitchRlim := rlim } := by
    intro rlim l hl
    exact ⟨Function.update_of_ne hl _ _, rfl⟩
  rw [hok]
  simp only [ne_eq, not_true_eq_false, if_false]
  split
  · obtain ⟨rlim, hg⟩ := glitch_ok { conn.setCrypto fr.level r.strm with stats := r.stats } hglitch
    exact ⟨_, hg, hset rlim, hsame rlim⟩
  · exact ⟨_, rfl, hset conn.glitchRlim, hsame conn.glitchRlim⟩

theorem recvCrypto_settled {S : EncryptionLevel → List UInt8} {st : St} (h : Inv S st) {fr : Frame} {env : Env}
    (hg : Admissible S st fr env) (hu : Unsplit st fr) :
    ∃ conn', st.conn.recvCrypto fr env = .ok conn' ∧
      Settled (S fr.level) (st.arrived fr.level ++ [(fr.offset, fr.data)]) (conn'.crypto fr.level)
        (conn'.delivered fr.level) ∧ SameLevels fr.level st.conn conn' := by
  have hs := h fr.level
  have hdef : fr.endOffset = fr.offset + fr.data.length := rfl
  have hmax : fr.endOffset ≤ 256 * 1024 := by
    refine le_trans hg.limit ?_
    cases fr.level <;> simp [maxCryptoOffset]
  have hvar : ¬ maxVarint < fr.endOffset := by
    simp only [maxVarint]
    omega
  have hlim := hg.limit
  have hdup : fr.data = [] ∨ fr.endOffset ≤ (st.conn.crypto fr.level).rxOffset →
      Settled (S fr.level) (st.arrived fr.level ++ [(fr.offset, fr.data)]) (st.conn.crypto fr.level)
        (st.conn.delivered fr.level) := fun hd => ⟨hs.holds.duplicate hd, hs.gap, hs.passed⟩
  simp only [Conn.recvCrypto]
  by_cases hnil : fr.data = []
  · obtain ⟨rlim, hgl⟩ := glitch_ok st.conn hg.glitch
    rw [if_pos hnil, hgl]
    exact ⟨_, rfl, hdup (Or.inl hnil), fun _ _ => ⟨rfl, rfl⟩⟩
  rw [if_neg hnil, if_neg hvar, if_neg (by omega)]
  by_cases hend : fr.endOffset ≤ (st.conn.crypto fr.level).rxOffset
  · obtain ⟨rlim, hgl⟩ := glitch_ok st.conn hg.glitch
    rw [if_pos hend, hgl]
    refine ⟨_, rfl, ?_⟩
    unfold Conn.earlyRetransmit
    split
    · exact ⟨hdup (Or.inr hend), fun _ _ => ⟨rfl, rfl⟩⟩
    · exact ⟨hdup (Or.inr hend), fun _ _ => ⟨rfl, rfl⟩⟩
  rw [if_neg hend]
  set strm' : Strm := { st.conn.crypto fr.level with
    lastOffset := max (st.conn.crypto fr.level).lastOffset fr.endOffset } with hstrm'
  have hs' : Settled (S fr.level) (st.arrived fr.level) strm' (st.conn.delivered fr.level) := hs.congr rfl rfl
  have hrx : strm'.rxOffset = (st.conn.crypto fr.level).rxOffset := rxOffset_congr rfl rfl
  rw [← hrx] at hend ⊢
  split
  · rename_i hoff
    exact deliverCrypto_settled hs' hg.slice hoff (by omega)
  · rename_i hoff
    have hnear := hg.near (by rw [← hrx]; omega)
    rw [← hrx] at hnear
    rw [if_neg (by omega)]
    exact bufferCrypto_settled hs' hg.slice (by omega) (by omega) hg.glitch hg.supplied (hu (by rw [← hrx]; omega)) hg.room

theorem step_inv {S : EncryptionLevel → List UInt8} (st : St) (input : Frame × Env) (h : Inv S st)
    (hg : Admissible S st input.1 input.2 ∧ Unsplit st input.1) : ∃ st', step st input = .ok st' ∧ Inv S st' := by
  obtain ⟨conn', hrecv, hset, hsame⟩ := recvCrypto_settled h hg.1 hg.2
  refine ⟨⟨conn', Function.update st.arrived input.1.level
    (st.arrived input.1.level ++ [(input.1.offset, input.1.data)])⟩, by simp only [step, hrecv], fun level => ?_⟩
  by_cases hl : level = input.1.level
  · rw [hl]
    simp only [Function.update_self]
    exact hset
  · simp only [Function.update_of_ne hl]
    rw [(hsame level hl).1, (hsame level hl).2]
    exact h level

end Zngtcp2.Crypto
