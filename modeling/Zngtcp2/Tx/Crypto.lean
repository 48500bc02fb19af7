import Zngtcp2.Lib.Run
import Zngtcp2.Pkt.Frame
import Zngtcp2.Tx.Crumble

namespace Zngtcp2.CryptoTx

open Strm Crumble Lib.Segment

/-- A byte with the CRYPTO offset it was submitted for. -/
abbrev Cell := Nat × UInt8

/-- An element of the chain `crypto.tx.data`: the address `buf.last`, the room behind it, and the
bytes between `buf.pos` and `buf.last`. -/
structure BufChain where
  last : Nat
  left : Nat
  content : List Cell
  deriving DecidableEq, Repr

def bufChainNew (addr : Nat) (data : List Cell) : BufChain :=
  ⟨addr + data.length, max 1024 data.length - data.length, data⟩

/-- `conn_buffer_crypto_data`: the address of the copy and the chain. A new element is allocated at
`addr`. -/
def bufferCryptoData (addr : Nat) (data : List Cell) : List BufChain → Nat × List BufChain
  | [] => (addr, [bufChainNew addr data])
  | [c] =>
      if c.left < data.length then (addr, [c, bufChainNew addr data])
      else (c.last, [⟨c.last + data.length, c.left - data.length, c.content ++ data⟩])
  | c :: cs =>
      let r := bufferCryptoData addr data cs
      (r.1, c :: r.2)

/-- `conn_ack_crypto_data`; `none` is the failing assertion at its end. -/
def ackCryptoData : Nat → List BufChain → Option (List BufChain)
  | datalen, [] => if datalen = 0 then some [] else none
  | datalen, c :: cs =>
      if datalen < c.content.length then some ({ c with content := c.content.drop datalen } :: cs)
      else if datalen - c.content.length = 0 then some cs
      else ackCryptoData (datalen - c.content.length) cs

/-- A retransmission entry with its CRYPTO frames. -/
structure Entry where
  frames : List TxFrame
  lostRetransmitted : Bool
  ptoReclaimed : Bool
  deriving DecidableEq, Repr

structure Submission where
  retained : Bool
  data : List UInt8
  deriving DecidableEq, Repr

/-- What one round of a CRYPTO loop puts on the wire, and the frames it records for that. -/
structure Written where
  sent : List (Nat × List UInt8)
  recorded : List TxFrame
  deriving DecidableEq, Repr

/-- The send side of the CRYPTO stream of a packet number space. `pending` are the frames of the
packet under construction, `submitted` and `wire` the history. -/
structure State where
  strm : TxStrm
  offset : Nat
  data : List BufChain
  rtb : List Entry
  pending : List TxFrame
  pcg : Pcg32
  submitted : List Submission
  wire : List Written
  deriving DecidableEq, Repr

def State.new (pcg : Pcg32) : State :=
  ⟨.new .crypto, 0, [], [], [], pcg, [], []⟩

/-- Why a step ends the run: the assertion of `conn_ack_crypto_data`, or another stop. -/
inductive Halt
  | ackedTooMuch
  | stop (stop : Stop)
  deriving DecidableEq, Repr

def halting {α : Type} : Except Stop α → Except Halt α
  | .ok a => .ok a
  | .error e => .error (.stop e)

/-- `ngtcp2_conn_submit_crypto_data`. -/
def submitCryptoData (s : State) (sub : Submission) (addr : Nat) : Except Stop State :=
  if sub.data = [] then .ok s
  else
    let (datap, chain) :=
      if sub.retained then (0, s.data) else bufferCryptoData addr (cells s.offset sub.data) s.data
    let fr : TxFrame :=
      if sub.retained then ⟨s.offset, false, [], some sub.data⟩ else ⟨s.offset, false, [⟨datap, sub.data⟩], none⟩
    do
      let queue ← streamfrqPush s.strm.queue fr
      .ok { s with
        data := chain
        strm := { s.strm with queue := queue, offset := s.strm.offset + sub.data.length }
        offset := s.offset + sub.data.length
        submitted := s.submitted ++ [sub] }

/-- What `ngtcp2_pkt_encode_crypto_frame` writes of a frame: its offset and its vectors. -/
def wireData (fr : TxFrame) : Nat × List UInt8 :=
  (fr.offset, vecBytes fr.data)

def pieces : Nat → List Vec → List Piece
  | _, [] => []
  | offset, v :: vs => ⟨offset, v⟩ :: pieces (offset + v.len) vs

def framePieces (fr : TxFrame) : List Piece :=
  match fr.txbuf with
  | some txbuf => [⟨fr.offset, ⟨0, txbuf⟩⟩]
  | none => pieces fr.offset fr.data

/-- `conn_cut_crypto_frame`: the frames to record, and the queue with the removed data. -/
def cutCryptoFrame (fr : TxFrame) (removed : Piece) (queue : List TxFrame) :
    Except Stop (List TxFrame × List TxFrame) :=
  match fr.data with
  | [] => .error (.fault .assertion)
  | v :: vs =>
      let offset := removed.offset - fr.offset
      let len := removed.vec.len
      if offset = 0 ∨ v.len < offset + len then .error (.fault .assertion)
      else do
        let queue ← streamfrqPush queue ⟨fr.offset + offset, false, [(v.drop offset).take len], none⟩
        let ndatacnt := if v.len = offset + len then vs.length else vs.length + 1
        let right : TxFrame := ⟨fr.offset + offset + len, false, (vecSplit ndatacnt (v :: vs) (offset + len)).2, none⟩
        .ok ({ fr with data := [v.take offset] } :: (if ndatacnt = 0 then [] else [right]), queue)

structure Round where
  queue : List TxFrame
  pcg : Pcg32
  written : Option Written
  deriving DecidableEq, Repr

/-- The data that is split up, the frames to record, the queue, and the length of removed data. -/
structure Sni where
  data : List Piece
  recorded : List TxFrame
  queue : List TxFrame
  pcg : Pcg32
  removedLen : Nat
  deriving DecidableEq, Repr

/-- Splits the data at the server name, or removes a part of the name if more data follows. -/
def splitServerName (s : TxStrm) (fr : TxFrame) (queue : List TxFrame) (pcg : Pcg32) : Except Stop Sni :=
  let data := framePieces fr
  let same : Sni := ⟨data, [fr], queue, pcg, 0⟩
  match fr.txbuf, fr.data with
  | none, v :: vs =>
      if maxStreamDatacnt ≤ vs.length + 1 then .ok same
      else
        match findServerName v.bytes with
        | none => .ok same
        | some (pos, len) =>
            if len ≤ 1 then .ok same
            else do
              let off ← s.unackedOffset queue
              if off = none then
                match splitVecAt (pos + len / 2) data with
                | none => .error (.fault .assertion)
                | some data => .ok { same with data := data }
              else
                match removeVecPartial pos len pcg data with
                | none => .error (.fault .assertion)
                | some (data, removed, pcg) => do
                    let (recorded, queue) ← cutCryptoFrame fr removed queue
                    .ok ⟨data, recorded, queue, pcg, removed.vec.len⟩
  | _, _ => .ok same

def uvarintlen (n : Nat) : Nat :=
  if h : n < 2 ^ 62 then Pkt.putUvarintlen ⟨n, h⟩ else 8

/-- `conn_crumble_initial_crypto`; `cryptoOffset` is where the data to send starts. -/
def crumbleInitialCrypto (s : TxStrm) (pcg : Pcg32) (left cryptoOffset : Nat) : Except Stop Round :=
  let overhead := (1 + uvarintlen (cryptoOffset + left - 1) + uvarintlen left) * 10
  if left ≤ overhead then .ok ⟨s.queue, pcg, none⟩
  else if h : cryptoOffset < 2 ^ 62 then
    match Pkt.cryptoMaxDatalen ⟨cryptoOffset, h⟩ (left - overhead) (left - overhead) with
    | none => .ok ⟨s.queue, pcg, none⟩
    | some left => do
        match ← s.streamfrqPop left with
        | (none, queue) => .ok ⟨queue, pcg, none⟩
        | (some fr, queue) =>
            if fr.offset ≠ cryptoOffset then .error (.fault .assertion)
            else do
              let sni ← splitServerName s fr queue pcg
              let (data, pcg) :=
                if sni.data.length < 10 + 1 then splitVecRand (10 - (sni.data.length - 1)) sni.data sni.pcg
                else (sni.data, sni.pcg)
              let used := (data.tail.map fun p => 1 + uvarintlen p.offset + uvarintlen p.vec.len).sum
              let spare := (overhead + sni.removedLen + 2 ^ 64 - used % 2 ^ 64) % 2 ^ 64
              let (padding, pcg) := appendPingAndPadding (maxStreamDatacnt - data.length) spare pcg
              let (items, pcg) := permutateVec (data.map .crypto ++ padding) pcg
              .ok ⟨sni.queue, pcg, some ⟨Crumble.written items, sni.recorded⟩⟩
  else .error (.fault .assertion)

/-- A round of the loop without crumbling, in `conn_write_handshake_pkt` and `conn_write_pkt`. -/
def writeCrypto (s : TxStrm) (pcg : Pcg32) (left cryptoOffset : Nat) : Except Stop Round :=
  if h : cryptoOffset < 2 ^ 62 then
    match Pkt.cryptoMaxDatalen ⟨cryptoOffset, h⟩ left left with
    | none => .ok ⟨s.queue, pcg, none⟩
    | some left => do
        match ← s.streamfrqPop left with
        | (none, queue) => .ok ⟨queue, pcg, none⟩
        | (some fr, queue) => .ok ⟨queue, pcg, some ⟨[wireData fr], [fr]⟩⟩
  else .error (.fault .assertion)

/-- One round of a CRYPTO loop with `left` bytes left in the packet. -/
def cryptoRound (s : TxStrm) (pcg : Pcg32) (crumble : Bool) (left : Nat) : Except Stop Round := do
  if s.queue = [] then .ok ⟨[], pcg, none⟩
  else
    match ← s.unackedOffset s.queue with
    | none => .ok ⟨[], pcg, none⟩
    | some off =>
        if left = 0 then .ok ⟨s.queue, pcg, none⟩
        else if crumble then crumbleInitialCrypto s pcg left off
        else writeCrypto s pcg left off

def State.round (s : State) (crumble : Bool) (left : Nat) : Except Stop State := do
  let r ← cryptoRound s.strm s.pcg crumble left
  .ok { s with
    strm := { s.strm with queue := r.queue }
    pcg := r.pcg
    pending := s.pending ++ (r.written.map Written.recorded).getD []
    wire := s.wire ++ r.written.toList }

/-- The packet is sent, and its frames go into a retransmission entry. -/
def State.finish (s : State) : State :=
  if s.pending = [] then s
  else { s with pending := [], rtb := s.rtb ++ [⟨s.pending, false, false⟩] }

/-- `rtb_reclaim_frame` for the CRYPTO frames: the number of frames queued, and the queue. -/
def reclaimFrame (acked : Acked) : List TxFrame → List TxFrame → Except Stop (Nat × List TxFrame)
  | [], queue => .ok (0, queue)
  | fr :: frs, queue =>
      match acked.unackedRangeAfter fr.offset with
      | none => .error (.fault .assertion)
      | some gap =>
          if meetsGap gap fr then do
            let queue ← streamfrqPush queue
              { fr with fin := false, data := if fr.txbuf.isSome then [] else fr.data }
            let (n, queue) ← reclaimFrame acked frs queue
            .ok (n + 1, queue)
          else reclaimFrame acked frs queue

/-- `rtb_on_pkt_lost`. -/
def onPktLost (acked : Acked) (ent : Entry) (queue : List TxFrame) : Except Stop (Entry × List TxFrame) :=
  if ent.lostRetransmitted then .error (.fault .assertion)
  else if ent.ptoReclaimed then .ok ({ ent with lostRetransmitted := true }, queue)
  else do
    let (_, queue) ← reclaimFrame acked ent.frames queue
    .ok ({ ent with lostRetransmitted := true }, queue)

/-- `ngtcp2_rtb_reclaim_on_pto` over the entries, the oldest first. -/
def reclaimOnPto (acked : Acked) : Nat → List Entry → List TxFrame → Except Stop (List Entry × List TxFrame)
  | 0, ents, queue => .ok (ents, queue)
  | _, [], queue => .ok ([], queue)
  | numPkts + 1, ent :: ents, queue =>
      if ent.lostRetransmitted || ent.ptoReclaimed then do
        let (ents, queue) ← reclaimOnPto acked (numPkts + 1) ents queue
        .ok (ent :: ents, queue)
      else do
        let (reclaimed, queue) ← reclaimFrame acked ent.frames queue
        let (ents, queue) ← reclaimOnPto acked (if reclaimed = 0 then numPkts + 1 else numPkts) ents queue
        .ok ({ ent with ptoReclaimed := true } :: ents, queue)

/-- `process_acked_pkt` for the CRYPTO frames of an entry. -/
def processAckedPkt : List TxFrame → Acked → List BufChain → Except Halt (Acked × List BufChain)
  | [], acked, chain => .ok (acked, chain)
  | fr :: frs, acked, chain =>
      match acked.ackData fr.offset fr.datalen with
      | (.ok, acked') =>
          let datalen := acked'.ackedOffset - acked.ackedOffset
          if datalen = 0 then processAckedPkt frs acked' chain
          else
            match ackCryptoData datalen chain with
            | none => .error .ackedTooMuch
            | some chain => processAckedPkt frs acked' chain
      | (rv, _) => .error (.stop (.failed rv))

inductive Input
  | submit (sub : Submission) (addr : Nat)
  | round (crumble : Bool) (left : Nat)
  | finish
  | lost (i : Nat)
  | pto (numPkts : Nat)
  | acked (i : Nat)
  | expired (i : Nat)
  deriving DecidableEq, Repr

def State.lost (s : State) (i : Nat) : Except Stop State :=
  match s.rtb[i]? with
  | none => .ok s
  | some ent => do
      let (ent, queue) ← onPktLost s.strm.acked ent s.strm.queue
      .ok { s with strm := { s.strm with queue := queue }, rtb := s.rtb.set i ent }

def State.pto (s : State) (numPkts : Nat) : Except Stop State := do
  let (rtb, queue) ← reclaimOnPto s.strm.acked numPkts s.rtb s.strm.queue
  .ok { s with strm := { s.strm with queue := queue }, rtb := rtb }

def State.acked (s : State) (i : Nat) : Except Halt State :=
  match s.rtb[i]? with
  | none => .ok s
  | some ent => do
      let (acked, data) ← processAckedPkt ent.frames s.strm.acked s.data
      .ok { s with strm := { s.strm with acked := acked }, data := data, rtb := s.rtb.eraseIdx i }

/-- An entry that was declared lost is forgotten. -/
def State.expired (s : State) (i : Nat) : State :=
  match s.rtb[i]? with
  | none => s
  | some ent => if ent.lostRetransmitted then { s with rtb := s.rtb.eraseIdx i } else s

def step (s : State) : Input → Except Halt State
  | .submit sub addr => halting (submitCryptoData s sub addr)
  | .round crumble left => halting (s.round crumble left)
  | .finish => .ok s.finish
  | .lost i => halting (s.lost i)
  | .pto numPkts => halting (s.pto numPkts)
  | .acked i => s.acked i
  | .expired i => .ok (s.expired i)

/-- The bytes submitted, in order. -/
def allSubmitted (subs : List Submission) : List UInt8 :=
  (subs.map Submission.data).flatten

/-- The submitted bytes that were copied, with their offsets. -/
def copiedFrom : Nat → List Submission → List Cell
  | _, [] => []
  | offset, sub :: subs =>
      (if sub.retained then [] else cells offset sub.data) ++ copiedFrom (offset + sub.data.length) subs

def RetainedAt : Nat → List Submission → Nat → Prop
  | _, [], _ => False
  | offset, sub :: subs, x =>
      (sub.retained = true ∧ offset ≤ x ∧ x < offset + sub.data.length) ∨
        RetainedAt (offset + sub.data.length) subs x

end Zngtcp2.CryptoTx
