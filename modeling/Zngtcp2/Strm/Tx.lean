import Zngtcp2.Strm.Acked
import Zngtcp2.Strm.Vec

namespace Zngtcp2.Strm

def maxStreamDatacnt : Nat :=
  256

def minStreamDatalen : Nat :=
  256

/-- Why a call does not come back with 0. -/
inductive Stop
  | failed (rv : Rv)
  | fault (fault : Fault)
  deriving DecidableEq, Repr

/-- A STREAM or CRYPTO frame of the send side: its data is in vectors, or in a retained buffer. -/
structure TxFrame where
  offset : Nat
  fin : Bool
  data : List Vec
  txbuf : Option (List UInt8)
  deriving DecidableEq, Repr

namespace TxFrame

def bytes (fr : TxFrame) : List UInt8 :=
  fr.txbuf.getD (vecBytes fr.data)

/-- `strm_frame_datalen`. -/
def datalen (fr : TxFrame) : Nat :=
  fr.bytes.length

def endOff (fr : TxFrame) : Nat :=
  fr.offset + fr.datalen

end TxFrame

def meetsGap (gap : Reorder.Range) (fr : TxFrame) : Bool :=
  max fr.offset gap.begin < min fr.endOff gap.endOff

inductive FrameType
  | stream
  | crypto
  deriving DecidableEq, Repr

/-- The send side of a stream. `queue` is `tx.streamfrq` in the order of its keys, the offsets. -/
structure TxStrm where
  type : FrameType
  offset : Nat
  queue : List TxFrame
  acked : Acked
  finAcked : Bool
  anySent : Bool
  anyAcked : Bool
  shutWr : Bool
  resetStream : Bool
  deriving DecidableEq, Repr

namespace TxStrm

def new (type : FrameType) : TxStrm :=
  ⟨type, 0, [], .new, false, false, false, false, false⟩

end TxStrm

/-- `ngtcp2_ksl_insert` with the offset as the key; `none` where the key is there already. -/
def kslInsert (fr : TxFrame) : List TxFrame → Option (List TxFrame)
  | [] => some [fr]
  | f :: fs =>
      if f.offset < fr.offset then (kslInsert fr fs).map (f :: ·)
      else if f.offset = fr.offset then none
      else some (fr :: f :: fs)

def streamfrqPush (queue : List TxFrame) (fr : TxFrame) : Except Stop (List TxFrame) :=
  if 8000 ≤ queue.length then .error (.failed .internal)
  else
    match kslInsert fr queue with
    | some queue => .ok queue
    | none => .error (.failed .invalidArgument)

/-- Putting a frame back; a failure other than a fatal one is excluded by an assertion. -/
def putBack (queue : List TxFrame) (fr : TxFrame) : Except Stop (List TxFrame) :=
  match kslInsert fr queue with
  | some queue => .ok queue
  | none => .error (.fault .assertion)

namespace TxStrm

variable (s : TxStrm)

/-- What becomes of the first frame: `none` if it is deleted, else the frame to send and the queue. -/
abbrev Popped := Option (TxFrame × List TxFrame)

def unackedPopTxbuf (fr : TxFrame) (txbuf : List UInt8) (rest : List TxFrame) : Except Stop Popped :=
  match s.acked.unackedRangeAfter fr.offset with
  | none => .error (.fault .assertion)
  | some gap =>
      let begin := max gap.begin fr.offset
      let endOff := fr.offset + txbuf.length
      if endOff ≤ begin then
        if fr.fin then
          if s.finAcked then
            if rest = [] then .ok none else .error (.fault .assertion)
          else .ok (some ({ fr with offset := endOff, txbuf := none }, rest))
        else .ok none
      else
        let last := min gap.endOff endOff
        let part := (txbuf.drop (begin - fr.offset)).take (last - begin)
        if last < endOff then do
          let queue ← putBack rest ⟨last, fr.fin, [], some (txbuf.drop (last - fr.offset))⟩
          .ok (some ({ fr with offset := begin, fin := false, txbuf := some part }, queue))
        else .ok (some ({ fr with offset := begin, txbuf := some part }, rest))

/-- The vectors from the one that reaches `begin` on, the offset of that vector, and how far into
it `begin` lies. -/
def skipTo (begin : Nat) : List Vec → Nat → List Vec × Nat × Nat
  | [], offset => ([], offset, 0)
  | v :: vs, offset =>
      if offset < begin then
        if begin < offset + v.len then (v :: vs, offset, begin - offset)
        else skipTo begin vs (offset + v.len)
      else (v :: vs, offset, 0)

/-- The vectors that end at or before `last`, the following ones, the offset of the first of these
and how far into it `last` lies. -/
def splitAtEnd (last : Nat) : List Vec → Nat → List Vec × List Vec × Nat × Nat
  | [], offset => ([], [], offset, 0)
  | v :: vs, offset =>
      if last < offset + v.len then ([], v :: vs, offset, last - offset)
      else
        let r := splitAtEnd last vs (offset + v.len)
        (v :: r.1, r.2)

def dropHead (n : Nat) : List Vec → List Vec
  | [] => []
  | v :: vs => v.drop n :: vs

def headLongerThan (n : Nat) : List Vec → Bool
  | [] => false
  | v :: _ => n < v.len

def unackedPopVec (fr : TxFrame) (rest : List TxFrame) : Except Stop Popped :=
  match s.acked.unackedRangeAfter fr.offset with
  | none => .error (.fault .assertion)
  | some gap =>
      let begin := max gap.begin fr.offset
      let (data, offset, base) := skipTo begin fr.data fr.offset
      if data = [] then
        if fr.fin then
          if s.finAcked then
            if rest = [] then .ok none else .error (.fault .assertion)
          else .ok (some ({ fr with offset := fr.offset + vecLen fr.data, data := [] }, rest))
        else if fr.offset = 0 ∧ fr.data = [] ∧ s.offset = 0 ∧ ¬s.anyAcked then .ok (some (fr, rest))
        else .ok none
      else if begin ≠ offset + base then .error (.fault .assertion)
      else
        let (before, after, endOffset, endBase) := splitAtEnd gap.endOff data offset
        if after = [] then
          if fr.offset = offset ∧ base = 0 then .ok (some (fr, rest))
          else if headLongerThan base data then
            .ok (some ({ fr with offset := offset + base, data := dropHead base data }, rest))
          else .error (.fault .assertion)
        else if ¬headLongerThan endBase after ∨ ¬headLongerThan base data then .error (.fault .assertion)
        else do
          let queue ← putBack rest ⟨endOffset + endBase, fr.fin, dropHead endBase after, none⟩
          let kept := before ++ if endBase = 0 then [] else (after.take 1).map (·.take endBase)
          .ok (some ({ fr with offset := offset + base, fin := false, data := dropHead base kept }, queue))

def unackedPopFrame (fr : TxFrame) (rest : List TxFrame) : Except Stop Popped :=
  match fr.txbuf with
  | some txbuf => s.unackedPopTxbuf fr txbuf rest
  | none => s.unackedPopVec fr rest

/-- `strm_streamfrq_unacked_pop` on the queue. -/
def unackedPop : List TxFrame → Except Stop Popped
  | [] => .ok none
  | fr :: rest =>
      match s.unackedPopFrame fr rest with
      | .ok none => unackedPop rest
      | r => r

/-- `ngtcp2_strm_streamfrq_unacked_offset`; `none` is `(uint64_t)-1`. -/
def unackedOffset : List TxFrame → Except Stop (Option Nat)
  | [] => .ok none
  | fr :: rest =>
      match s.acked.unackedRangeAfter fr.offset with
      | none => .error (.fault .assertion)
      | some gap =>
          if gap.begin ≤ fr.offset then .ok (some fr.offset)
          else if gap.begin < fr.endOff then .ok (some gap.begin)
          else if fr.endOff = gap.begin ∧ fr.fin ∧ ¬s.finAcked then .ok (some fr.endOff)
          else unackedOffset rest

/-- The loop of `ngtcp2_strm_streamfrq_pop` that merges the following frames into `fr`; `data` are
the vectors so far, `datalen` their length. Every round but the last takes bytes off `left`. -/
def mergeFrames : Nat → TxFrame → List Vec → Nat → Nat → List TxFrame → Except Stop (TxFrame × List Vec × List TxFrame)
  | 0, fr, data, _, _, queue => .ok (fr, data, queue)
  | fuel + 1, fr, data, datalen, left, queue =>
      if left = 0 ∨ queue = [] then .ok (fr, data, queue)
      else do
        match ← s.unackedOffset queue with
        | none => .ok (fr, data, queue)
        | some off =>
            if off ≠ fr.offset + datalen then
              if fr.offset + datalen < off then .ok (fr, data, queue) else .error (.fault .assertion)
            else
              match ← s.unackedPop queue with
              | none => .ok (fr, data, [])
              | some (nfr, queue) =>
                  if nfr.txbuf.isSome then do
                    let queue ← putBack queue nfr
                    .ok (fr, data, queue)
                  else if nfr.fin ∧ nfr.data = [] then .ok ({ fr with fin := true }, data, queue)
                  else
                    let m := vecMerge maxStreamDatacnt data nfr.data left
                    if m.nmerged = 0 then do
                      let queue ← putBack queue { nfr with data := m.src }
                      .ok (fr, m.dst, queue)
                    else if m.src = [] then
                      mergeFrames fuel { fr with fin := nfr.fin } m.dst (datalen + m.nmerged) (left - m.nmerged) queue
                    else
                      match kslInsert { nfr with offset := nfr.offset + m.nmerged, data := m.src } queue with
                      | some queue => .ok (fr, m.dst, queue)
                      | none => .error (.failed .invalidArgument)

/-- `ngtcp2_strm_streamfrq_pop`: the frame to send, and the queue. -/
def streamfrqPop (left : Nat) : Except Stop (Option TxFrame × List TxFrame) := do
  match ← s.unackedPop s.queue with
  | none => .ok (none, [])
  | some (fr, queue) =>
      let datalen := fr.datalen
      if (s.type = .stream ∧ left < datalen ∧ left < minStreamDatalen) ∨ (left = 0 ∧ datalen ≠ 0) then do
        let queue ← putBack queue fr
        .ok (none, queue)
      else if left < datalen then
        match fr.txbuf with
        | some txbuf => do
            let queue ← putBack queue ⟨fr.offset + left, fr.fin, [], some (txbuf.drop left)⟩
            .ok (some { fr with fin := false, txbuf := some (txbuf.take left) }, queue)
        | none =>
            let r := vecSplit maxStreamDatacnt fr.data left
            if r.1 = [] ∨ r.2 = [] then .error (.fault .assertion)
            else do
              let queue ← putBack queue ⟨fr.offset + left, fr.fin, r.2, none⟩
              .ok (some { fr with fin := false, data := r.1 }, queue)
      else if fr.txbuf.isSome then .ok (some fr, queue)
      else do
        let (fr, data, queue) ← s.mergeFrames (left - datalen) fr fr.data datalen (left - datalen) queue
        .ok (some { fr with data := data }, queue)

end TxStrm

end Zngtcp2.Strm
