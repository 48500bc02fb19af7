import Zngtcp2.Strm.Tx

namespace Zngtcp2.Custody

open Strm (Stop Vec FrameType Acked vecLen vecSplit vecMerge maxStreamDatacnt minStreamDatalen)
open Strm.TxStrm (skipTo splitAtEnd dropHead headLongerThan)

/-- A range of the memory of an owner, from `pos` up to `last`. -/
structure Slice where
  owner : Nat
  pos : Nat
  last : Nat
  deriving DecidableEq, Repr

def Slice.len (b : Slice) : Nat :=
  b.last - b.pos

/-- A STREAM or CRYPTO frame of the send side; `txbuf` is there if `txbuf_present` is set. -/
structure Frame where
  type : FrameType
  sid : Nat
  offset : Nat
  fin : Bool
  data : List Vec
  txbuf : Option Slice
  deriving DecidableEq, Repr

namespace Frame

/-- `strm_frame_datalen` -/
def datalen (fr : Frame) : Nat :=
  match fr.txbuf with
  | some b => b.len
  | none => vecLen fr.data

def endOff (fr : Frame) : Nat :=
  fr.offset + fr.datalen

/-- `txbuf.pos += n` -/
def advanceTxbuf (fr : Frame) (n : Nat) : Frame :=
  { fr with txbuf := fr.txbuf.map fun b => { b with pos := b.pos + n } }

end Frame

/-- The calls of `retain` and `release` by owner, the references that the application has handed
over for good, and the statistics, which count the slices of received packets too. `luck` says of
the allocations and of the calls of `retain` to come which of them succeed. -/
structure Env where
  luck : List Bool
  retained : List Nat
  released : List Nat
  handed : List Nat
  appRetain : Nat
  appRelease : Nat
  rxRetained : Nat
  rxReleased : Nat
  deriving DecidableEq, Repr

def Env.new (luck : List Bool) : Env :=
  ⟨luck, [], [], [], 0, 0, 0, 0⟩

/-- `ngtcp2_ksl_insert` with the offset as the key; `none` where the key is there already. -/
def insertFrame (fr : Frame) : List Frame → Option (List Frame)
  | [] => some [fr]
  | f :: fs =>
      if f.offset < fr.offset then (insertFrame fr fs).map (f :: ·)
      else if f.offset = fr.offset then none
      else some (fr :: f :: fs)

/-- An error that an assertion takes to be fatal. -/
def fatal (rv : Rv) : Stop :=
  if rv = .nomem ∨ rv = .bufContract ∨ rv = .callbackFailure then .failed rv else .fault .assertion

namespace Env

variable (env : Env)

def draw : Bool × Env :=
  (env.luck.headD true, { env with luck := env.luck.tail })

/-- `ngtcp2_stream_set_txbuf`; `retain` may fail. -/
def setTxbuf (fr : Frame) (b : Slice) : Option Frame × Env :=
  match env.draw with
  | (false, env) => (none, env)
  | (true, env) =>
      (some { fr with txbuf := some b },
        { env with retained := b.owner :: env.retained, appRetain := env.appRetain + 1 })

/-- `ngtcp2_stream_copy_txbuf` -/
def copyTxbuf (dest src : Frame) : Option Frame × Env :=
  match src.txbuf with
  | none => (some dest, env)
  | some b => env.setTxbuf dest b

/-- `ngtcp2_stream_release_txbuf` -/
def releaseTxbuf (fr : Frame) : Env :=
  match fr.txbuf with
  | none => env
  | some b => { env with released := b.owner :: env.released, appRelease := env.appRelease + 1 }

/-- `ngtcp2_frame_chain_objalloc_del` -/
def del (fr : Frame) : Env :=
  env.releaseTxbuf fr

/-- `ngtcp2_frame_chain_list_objalloc_del`, and `ngtcp2_strm_streamfrq_clear` -/
def delList (frs : List Frame) : Env :=
  frs.foldl del env

/-- `ngtcp2_ksl_insert` -/
def kslInsert (fr : Frame) (queue : List Frame) : Except Rv (List Frame) × Env :=
  match env.draw with
  | (false, env) => (.error .nomem, env)
  | (true, env) =>
      match insertFrame fr queue with
      | some queue => (.ok queue, env)
      | none => (.error .invalidArgument, env)

/-- `ngtcp2_strm_streamfrq_push` -/
def streamfrqPush (queue : List Frame) (fr : Frame) : Except Rv (List Frame) × Env :=
  if 8000 ≤ queue.length then (.error .internal, env) else env.kslInsert fr queue

/-- A frame is put back into the queue, or deleted if that fails. -/
def putBack (fr : Frame) (queue : List Frame) : Except Stop (List Frame) × Env :=
  match env.kslInsert fr queue with
  | (.ok queue, env) => (.ok queue, env)
  | (.error rv, env) => (.error (fatal rv), env.del fr)

/-- The end of `fr` goes into the queue as the new frame `nfr`, which gets a buffer if `fr` has one.
If anything fails, both frames are deleted. -/
def splitOff (fr nfr : Frame) (queue : List Frame) : Except Stop (List Frame) × Env :=
  match env.draw with
  | (false, env) => (.error (.failed .nomem), env.del fr)
  | (true, env) =>
      match env.copyTxbuf nfr fr with
      | (none, env) => (.error (.failed .bufContract), (env.del nfr).del fr)
      | (some nfr, env) =>
          let nfr := nfr.advanceTxbuf (nfr.offset - fr.offset)
          match env.kslInsert nfr queue with
          | (.ok queue, env) => (.ok queue, env)
          | (.error rv, env) => (.error (fatal rv), (env.del nfr).del fr)

end Env

/-- The send side of a stream, with `tx.streamfrq` in the order of its keys. -/
structure SendStrm where
  id : Nat
  type : FrameType
  offset : Nat
  queue : List Frame
  acked : Acked
  finAcked : Bool
  anySent : Bool
  anyAcked : Bool
  shutWr : Bool
  resetStream : Bool
  deriving DecidableEq, Repr

def SendStrm.new (id : Nat) (type : FrameType) : SendStrm :=
  ⟨id, type, 0, [], .new, false, false, false, false, false⟩

/-- The return value of a function that takes a frame from the queue, and what it leaves. -/
structure Popped where
  rv : Except Stop (Option Frame)
  queue : List Frame
  env : Env

/-- What becomes of the first frame of a queue: it is deleted, or the call ends with it. -/
inductive Visit
  | deleted (env : Env)
  | done (p : Popped)

/-- The end of `fr` is split off as `nfr`, and the call returns the rest of it, `fr'`. -/
def Env.popSplit (env : Env) (fr nfr fr' : Frame) (queue : List Frame) : Popped :=
  match env.splitOff fr nfr queue with
  | (.error e, env) => ⟨.error e, queue, env⟩
  | (.ok queue, env) => ⟨.ok (some fr'), queue, env⟩

namespace SendStrm

variable (s : SendStrm)

/-- `strm_streamfrq_unacked_pop_txbuf` -/
def unackedPopTxbuf (fr : Frame) (b : Slice) (rest : List Frame) (env : Env) : Visit :=
  match s.acked.unackedRangeAfter fr.offset with
  | none => .done ⟨.error (.fault .assertion), fr :: rest, env⟩
  | some gap =>
      let begin := max gap.begin fr.offset
      let endOff := fr.offset + b.len
      if endOff ≤ begin then
        if fr.fin then
          if s.finAcked then
            if rest = [] then .deleted (env.del fr) else .done ⟨.error (.fault .assertion), rest, env.del fr⟩
          else .done ⟨.ok (some { fr with offset := endOff, txbuf := none }), rest, env.releaseTxbuf fr⟩
        else .deleted (env.del fr)
      else
        let last := min gap.endOff endOff
        let pos := b.pos + (begin - fr.offset)
        let part : Slice := ⟨b.owner, pos, pos + (last - begin)⟩
        if begin = fr.offset ∧ last = endOff then .done ⟨.ok (some fr), rest, env⟩
        else if last < endOff then
          .done (env.popSplit fr ⟨fr.type, fr.sid, last, fr.fin, [], none⟩
            { fr with offset := begin, fin := false, txbuf := some part } rest)
        else .done ⟨.ok (some { fr with offset := begin, txbuf := some part }), rest, env⟩

/-- The rest of `strm_streamfrq_unacked_pop`, for a frame with copied data. -/
def unackedPopVec (fr : Frame) (rest : List Frame) (env : Env) : Visit :=
  match s.acked.unackedRangeAfter fr.offset with
  | none => .done ⟨.error (.fault .assertion), fr :: rest, env⟩
  | some gap =>
      let begin := max gap.begin fr.offset
      let (data, offset, base) := skipTo begin fr.data fr.offset
      if data = [] then
        if fr.fin then
          if s.finAcked then
            if rest = [] then .deleted (env.del fr) else .done ⟨.error (.fault .assertion), rest, env.del fr⟩
          else
            .done ⟨.ok (some { fr with offset := fr.offset + vecLen fr.data, data := [], txbuf := none }), rest,
              env.releaseTxbuf fr⟩
        else if fr.offset = 0 ∧ fr.data = [] ∧ s.offset = 0 ∧ ¬s.anyAcked then .done ⟨.ok (some fr), rest, env⟩
        else .deleted (env.del fr)
      else if begin ≠ offset + base then .done ⟨.error (.fault .assertion), fr :: rest, env⟩
      else
        let (before, after, endOffset, endBase) := splitAtEnd gap.endOff data offset
        if after = [] then
          if fr.offset = offset ∧ base = 0 then .done ⟨.ok (some fr), rest, env⟩
          else if headLongerThan base data then
            .done ⟨.ok (some { fr with offset := offset + base, data := dropHead base data }), rest, env⟩
          else .done ⟨.error (.fault .assertion), fr :: rest, env⟩
        else if ¬headLongerThan endBase after ∨ ¬headLongerThan base data then
          .done ⟨.error (.fault .assertion), fr :: rest, env⟩
        else
          let kept := before ++ if endBase = 0 then [] else (after.take 1).map (·.take endBase)
          .done (env.popSplit fr ⟨fr.type, fr.sid, endOffset + endBase, fr.fin, dropHead endBase after, none⟩
            { fr with offset := offset + base, fin := false, data := dropHead base kept } rest)

def visit (fr : Frame) (rest : List Frame) (env : Env) : Visit :=
  match fr.txbuf with
  | some b => s.unackedPopTxbuf fr b rest env
  | none => s.unackedPopVec fr rest env

/-- `strm_streamfrq_unacked_pop` -/
def unackedPop : List Frame → Env → Popped
  | [], env => ⟨.ok none, [], env⟩
  | fr :: rest, env =>
      match s.visit fr rest env with
      | .deleted env => unackedPop rest env
      | .done p => p

/-- `ngtcp2_strm_streamfrq_unacked_offset`; `none` is `(uint64_t)-1`. -/
def unackedOffset : List Frame → Except Stop (Option Nat)
  | [] => .ok none
  | fr :: rest =>
      match s.acked.unackedRangeAfter fr.offset with
      | none => .error (.fault .assertion)
      | some gap =>
          if gap.begin ≤ fr.offset then .ok (some fr.offset)
          else if gap.begin < fr.endOff then .ok (some gap.begin)
          else if fr.endOff = gap.begin ∧ fr.fin ∧ ¬s.finAcked then .ok (some fr.endOff)
          else unackedOffset rest

/-- What a loop of `ngtcp2_strm_streamfrq_pop` has merged: the FIN flag and the vectors. -/
structure Merging where
  rv : Except Stop (Bool × List Vec)
  queue : List Frame
  env : Env

/-- The frame that is merged into `fr` is `nfr`, taken from the queue; `more` goes on with the loop.
Only `fr` is deleted by the caller. -/
def mergeFrame (fin : Bool) (data : List Vec) (datalen left : Nat) (nfr : Frame) (queue : List Frame) (env : Env)
    (more : Bool → List Vec → Nat → Nat → List Frame → Env → Merging) : Merging :=
  if nfr.txbuf.isSome then
    match env.putBack nfr queue with
    | (.error e, env) => ⟨.error e, queue, env⟩
    | (.ok queue, env) => ⟨.ok (fin, data), queue, env⟩
  else if nfr.fin ∧ nfr.data = [] then ⟨.ok (true, data), queue, env.del nfr⟩
  else
    let m := vecMerge maxStreamDatacnt data nfr.data left
    if m.nmerged = 0 then
      match env.putBack { nfr with data := m.src } queue with
      | (.error e, env) => ⟨.error e, queue, env⟩
      | (.ok queue, env) => ⟨.ok (fin, m.dst), queue, env⟩
    else if m.src = [] then more nfr.fin m.dst (datalen + m.nmerged) (left - m.nmerged) queue (env.del nfr)
    else
      match env.kslInsert { nfr with offset := nfr.offset + m.nmerged, data := m.src } queue with
      | (.error rv, env) => ⟨.error (.failed rv), queue, env.del nfr⟩
      | (.ok queue, env) => ⟨.ok (fin, m.dst), queue, env⟩

/-- The loop that merges the following frames into a frame with copied data at `offset`. -/
def mergeFrames (offset : Nat) : Nat → Bool → List Vec → Nat → Nat → List Frame → Env → Merging
  | 0, fin, data, _, _, queue, env => ⟨.ok (fin, data), queue, env⟩
  | fuel + 1, fin, data, datalen, left, queue, env =>
      if left = 0 ∨ queue = [] then ⟨.ok (fin, data), queue, env⟩
      else
        match s.unackedOffset queue with
        | .error e => ⟨.error e, queue, env⟩
        | .ok none => ⟨.ok (fin, data), queue, env⟩
        | .ok (some off) =>
            if off ≠ offset + datalen then
              if offset + datalen < off then ⟨.ok (fin, data), queue, env⟩
              else ⟨.error (.fault .assertion), queue, env⟩
            else
              match s.unackedPop queue env with
              | ⟨.error e, queue, env⟩ => ⟨.error e, queue, env⟩
              | ⟨.ok none, queue, env⟩ => ⟨.ok (fin, data), queue, env⟩
              | ⟨.ok (some nfr), queue, env⟩ =>
                  mergeFrame fin data datalen left nfr queue env (mergeFrames offset fuel)

/-- The end of `ngtcp2_strm_streamfrq_pop`, where the vectors of `fr` may have become more. -/
def finishMerge (fr : Frame) (m : Merging) : Popped :=
  match m.rv with
  | .error e => ⟨.error e, m.queue, m.env.del fr⟩
  | .ok (fin, data) =>
      if data.length = fr.data.length then ⟨.ok (some { fr with fin := fin, data := data }), m.queue, m.env⟩
      else
        match m.env.draw with
        | (false, env) => ⟨.error (.failed .nomem), m.queue, env.del fr⟩
        | (true, env) => ⟨.ok (some ⟨fr.type, fr.sid, fr.offset, fin, data, none⟩), m.queue, env.del fr⟩

/-- `ngtcp2_strm_streamfrq_pop` after the first frame was taken. -/
def popFrame (left : Nat) (fr : Frame) (queue : List Frame) (env : Env) : Popped :=
  if (fr.type = .stream ∧ left < fr.datalen ∧ left < minStreamDatalen) ∨ (left = 0 ∧ fr.datalen ≠ 0) then
    match env.putBack fr queue with
    | (.error e, env) => ⟨.error e, queue, env⟩
    | (.ok queue, env) => ⟨.ok none, queue, env⟩
  else if left < fr.datalen then
    match fr.txbuf with
    | some b =>
        env.popSplit fr ⟨fr.type, fr.sid, fr.offset + left, fr.fin, [], none⟩
          { fr with fin := false, txbuf := some { b with last := b.pos + left } } queue
    | none =>
        let r := vecSplit maxStreamDatacnt fr.data left
        if r.1 = [] ∨ r.2 = [] then ⟨.error (.fault .assertion), fr :: queue, env⟩
        else
          env.popSplit fr ⟨fr.type, fr.sid, fr.offset + left, fr.fin, r.2, none⟩ { fr with fin := false, data := r.1 } queue
  else if fr.txbuf.isSome then ⟨.ok (some fr), queue, env⟩
  else
    finishMerge fr (s.mergeFrames fr.offset (left - fr.datalen) fr.fin fr.data fr.datalen (left - fr.datalen) queue env)

/-- `ngtcp2_strm_streamfrq_pop` -/
def streamfrqPop (left : Nat) (env : Env) : Popped :=
  match s.unackedPop s.queue env with
  | ⟨.ok (some fr), queue, env⟩ => s.popFrame left fr queue env
  | p => p

end SendStrm

end Zngtcp2.Custody
