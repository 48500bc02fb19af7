import Zngtcp2.Custody.Model

namespace Zngtcp2.Custody

open Strm (Vec FrameType maxStreamDatacnt vecSplit)

inductive Level
  | initial
  | handshake
  | application
  deriving DecidableEq, Repr

/-- An entry of `rtb.ents` with its STREAM and CRYPTO frames; `early` is set for a 0-RTT packet. -/
structure Entry where
  frames : List Frame
  early : Bool
  lostRetransmitted : Bool
  ptoReclaimed : Bool
  deriving DecidableEq, Repr

/-- `ngtcp2_pktns`. The frames of `frq` are those of the packet that is being written, and `rtb`
begins with the newest packet. -/
structure Space where
  crypto : SendStrm
  frq : List Frame
  rtb : List Entry
  deriving DecidableEq, Repr

/-- `ngtcp2_stream_buf`; `owner` is there if the buffer can be retained. -/
structure StreamBuf where
  sid : Nat
  owner : Option Nat
  pos : Nat
  endPos : Nat
  deriving DecidableEq, Repr

/-- What `ngtcp2_conn_submit_crypto_data` gets: a buffer that it retains, or bytes that it copies. -/
inductive CryptoData
  | retained (b : Slice)
  | copied (v : Vec)
  deriving DecidableEq, Repr

/-- `bufs` are the stream buffers that the application holds; `submitted` records the ranges of
all buffers that were accepted. -/
structure Conn where
  strms : List SendStrm
  initial : Option Space
  handshake : Option Space
  application : Option Space
  bufs : List StreamBuf
  submitted : List Slice
  env : Env
  deriving DecidableEq, Repr

namespace Env

variable (env : Env)

/-- `ngtcp2_strm_streamfrq_push`, where the caller deletes the frame if that fails -/
def pushOrDel (fr : Frame) (queue : List Frame) : Except Rv (List Frame) × Env :=
  match env.streamfrqPush queue fr with
  | (.ok queue, env) => (.ok queue, env)
  | (.error rv, env) => (.error rv, env.del fr)

/-- `ngtcp2_frame_chain_stream_datacnt_objalloc_new`, then `ngtcp2_stream_set_txbuf` if there is a
buffer -/
def newFrame (fr : Frame) (b : Option Slice) : Option Frame × Env :=
  match env.draw with
  | (false, env) => (none, env)
  | (true, env) =>
      match b with
      | none => (some fr, env)
      | some b =>
          match env.setTxbuf fr b with
          | (some fr, env) => (some fr, env)
          | (none, env) => (none, env.del fr)

/-- `conn_cut_crypto_frame`, where `len` bytes from `offset` on are removed from the first vector:
the frames that remain in the packet, and the queue. -/
def cutCryptoFrame (fr : Frame) (offset len : Nat) (queue : List Frame) : Option (List Frame) × List Frame × Env :=
  match env.draw with
  | (false, env) => (none, queue, env)
  | (true, env) =>
      let removed := (fr.data.take 1).map fun v => (v.drop offset).take len
      match env.pushOrDel ⟨.crypto, 0, fr.offset + offset, false, removed, none⟩ queue with
      | (.error _, env) => (none, queue, env)
      | (.ok queue, env) =>
          let fr' := { fr with data := (fr.data.take 1).map (·.take offset) }
          let right := (vecSplit maxStreamDatacnt fr.data (offset + len)).2
          if right = [] then (some [fr'], queue, env)
          else
            match env.draw with
            | (false, env) => (none, queue, env)
            | (true, env) => (some [fr', ⟨.crypto, 0, fr.offset + offset + len, false, right, none⟩], queue, env)

end Env

namespace SendStrm

/-- `ngtcp2_strm_is_all_tx_data_fin_acked` -/
def allTxDataFinAcked (s : SendStrm) : Bool :=
  s.finAcked && s.acked.ackedOffset == s.offset

/-- Data of the length `n` was accepted. -/
def sent (s : SendStrm) (n : Nat) (fin : Bool) : SendStrm :=
  { s with offset := s.offset + n, anySent := true, shutWr := s.shutWr || fin }

/-- `rtb_reclaim_frame` sends the frame again. -/
def wants (s : SendStrm) (fr : Frame) : Bool :=
  match s.acked.unackedRangeAfter fr.offset with
  | none => false
  | some gap =>
      max fr.offset gap.begin < min fr.endOff gap.endOff ||
        (fr.type = .stream && (fr.fin ||
          (fr.offset == 0 && fr.datalen == 0 && s.offset == 0 && !s.shutWr && !s.anyAcked)))

end SendStrm

/-- The frame that was popped. -/
def Popped.frames (p : Popped) : List Frame :=
  match p.rv with
  | .ok (some fr) => [fr]
  | _ => []

def CryptoData.len : CryptoData → Nat
  | .retained b => b.len
  | .copied v => v.len

def CryptoData.vecs : CryptoData → List Vec
  | .retained _ => []
  | .copied v => [v]

def CryptoData.buf : CryptoData → Option Slice
  | .retained b => some b
  | .copied _ => none

/-- `conn_buffer_crypto_data`, for data that is not retained -/
def Env.bufferCryptoData (env : Env) : CryptoData → Bool × Env
  | .retained _ => (true, env)
  | .copied _ => env.draw

namespace Space

def new : Space :=
  ⟨.new 0 .crypto, [], []⟩

/-- All frames of the packet number space. -/
def live (sp : Space) : List Frame :=
  sp.frq ++ sp.rtb.flatMap Entry.frames ++ sp.crypto.queue

def setQueue (sp : Space) (queue : List Frame) : Space :=
  { sp with crypto := { sp.crypto with queue := queue } }

/-- An error while a packet is written. The frames of an Initial or a Handshake packet are deleted,
those of the application space are kept. -/
def giveUp (sp : Space) (level : Level) (env : Env) : Space × Env :=
  if level = .application then (sp, env) else ({ sp with frq := [] }, env.delList sp.frq)

/-- One round of the loop over the CRYPTO frames in `conn_write_handshake_pkt` and
`conn_write_pkt`; `cut` says what `conn_crumble_initial_crypto` removes. -/
def writeCrypto (sp : Space) (level : Level) (left : Nat) (cut : Option (Nat × Nat)) (env : Env) : Space × Env :=
  match sp.crypto.unackedOffset sp.crypto.queue with
  | .error _ => (sp, env)
  | .ok none => (sp.setQueue [], env.delList sp.crypto.queue)
  | .ok (some _) =>
      match sp.crypto.streamfrqPop left env with
      | ⟨.error _, queue, env⟩ => (sp.setQueue queue).giveUp level env
      | ⟨.ok none, queue, env⟩ => (sp.setQueue queue, env)
      | ⟨.ok (some fr), queue, env⟩ =>
          match fr.txbuf, cut with
          | none, some (offset, len) =>
              match env.cutCryptoFrame fr offset len queue with
              | (none, queue, env) => (sp.setQueue queue).giveUp level (env.del fr)
              | (some frs, queue, env) => ({ sp.setQueue queue with frq := sp.frq ++ frs }, env)
          | _, _ => ({ sp.setQueue queue with frq := sp.frq ++ [fr] }, env)

/-- The end of `conn_write_handshake_pkt` and `conn_write_pkt`: `ngtcp2_ppe_final`, the allocation
of the entry, and `conn_on_pkt_sent` may fail. -/
def pktSent (sp : Space) (level : Level) (early : Bool) (env : Env) : Space × Env :=
  match env.draw with
  | (false, env) => sp.giveUp level env
  | (true, env) =>
      match env.draw with
      | (false, env) => sp.giveUp level env
      | (true, env) =>
          match env.draw with
          | (false, env) => ({ sp with frq := [] }, env.delList sp.frq)
          | (true, env) => ({ sp with frq := [], rtb := ⟨sp.frq, early, false, false⟩ :: sp.rtb }, env)

end Space

def Entry.setLost (ent : Entry) : Entry :=
  { ent with lostRetransmitted := true }

def Entry.setPto (ent : Entry) : Entry :=
  { ent with ptoReclaimed := true }

/-- The stream with the id of `s` becomes `s`. -/
def replaceStrm (s : SendStrm) : List SendStrm → List SendStrm
  | [] => []
  | t :: ts => if t.id = s.id then s :: ts else t :: replaceStrm s ts

namespace Conn

def new (luck : List Bool) : Conn :=
  ⟨[], some .new, some .new, some .new, [], [], .new luck⟩

variable (c : Conn)

def findStrm (sid : Nat) : Option SendStrm :=
  c.strms.find? (·.id = sid)

def setStrm (s : SendStrm) : Conn :=
  { c with strms := replaceStrm s c.strms }

def space : Level → Option Space
  | .initial => c.initial
  | .handshake => c.handshake
  | .application => c.application

def setSpace (level : Level) (sp : Option Space) : Conn :=
  match level with
  | .initial => { c with initial := sp }
  | .handshake => { c with handshake := sp }
  | .application => { c with application := sp }

def setEnv (env : Env) : Conn :=
  { c with env := env }

/-- All frames that the connection holds. -/
def live : List Frame :=
  c.application.elim [] Space.live ++ c.handshake.elim [] Space.live ++ c.initial.elim [] Space.live ++
    c.strms.flatMap SendStrm.queue

/-- A change of a packet number space, if it is there. -/
def onSpace (level : Level) (f : Space → Env → Space × Env) : Conn :=
  match c.space level with
  | none => c
  | some sp => (c.setSpace level (some (f sp c.env).1)).setEnv (f sp c.env).2

/-- A change of a stream, if it is there. -/
def onStrm (sid : Nat) (f : SendStrm → Env → SendStrm × Env) : Conn :=
  match c.findStrm sid with
  | none => c
  | some s => (c.setStrm { (f s c.env).1 with id := s.id }).setEnv (f s c.env).2

/-- The frame goes into the queue of the stream `s`, and the stream into the queue of the
connection. -/
def pushStrm (s : SendStrm) (fr : Frame) : Bool × Conn :=
  match c.env.pushOrDel fr s.queue with
  | (.error _, env) => (false, c.setEnv env)
  | (.ok queue, env) => (env.draw.1, (c.setStrm { s with queue := queue }).setEnv env.draw.2)

def pushCrypto (level : Level) (sp : Space) (fr : Frame) : Bool × Conn :=
  match c.env.pushOrDel fr sp.crypto.queue with
  | (.error _, env) => (false, c.setEnv env)
  | (.ok queue, env) => (true, (c.setSpace level (some (sp.setQueue queue))).setEnv env)

/-- A new frame for data that is submitted. -/
def withNewFrame (fr : Frame) (b : Option Slice) (k : Conn → Frame → Conn) : Conn :=
  match c.env.newFrame fr b with
  | (none, env) => c.setEnv env
  | (some fr, env) => k { c with env := env, submitted := b.toList ++ c.submitted } fr

/-- `ngtcp2_conn_open_bidi_stream` and `ngtcp2_conn_open_uni_stream` -/
def openStream (sid : Nat) : Conn :=
  if (c.findStrm sid).isSome then c else { c with strms := .new sid .stream :: c.strms }

/-- The application has got a stream buffer, for example from `ngtcp2_conn_alloc_stream_buf`. -/
def addBuf (b : StreamBuf) : Conn :=
  { c with bufs := b :: c.bufs }

/-- `ngtcp2_buf_alloc_release` with a stream buffer of the application -/
def releaseBuf (i : Nat) (b : StreamBuf) : Conn :=
  { c with
    bufs := c.bufs.eraseIdx i
    env := { c.env with handed := b.owner.toList ++ c.env.handed, released := b.owner.toList ++ c.env.released } }

/-- `ngtcp2_conn_submit_stream_buf`; flow control leaves `window` bytes. -/
def submitStreamBuf (i datalen : Nat) (fin : Bool) (window : Nat) : Conn :=
  match c.bufs[i]? with
  | none => c
  | some b =>
      match b.owner, c.findStrm b.sid with
      | some owner, some s =>
          let accepted := min datalen window
          let fin := fin && accepted == datalen
          if b.endPos < b.pos ∨ b.endPos - b.pos < datalen ∨ s.shutWr ∨ (accepted = 0 ∧ ¬fin) then c
          else
            let txbuf := if accepted = 0 then none else some ⟨owner, b.pos, b.pos + accepted⟩
            c.withNewFrame ⟨.stream, b.sid, s.offset, fin, [], none⟩ txbuf fun c fr =>
              match c.pushStrm (s.sent accepted fin) fr with
              | (false, c) => c
              | (true, c) =>
                  if accepted = datalen ∧ b.pos + accepted = b.endPos then c.releaseBuf i b
                  else { c with bufs := c.bufs.set i { b with pos := b.pos + accepted } }
      | _, _ => c

/-- `ngtcp2_conn_cancel_stream_buf` -/
def cancelStreamBuf (i : Nat) : Conn :=
  match c.bufs[i]? with
  | none => c
  | some b => if b.endPos < b.pos then c else c.releaseBuf i b

/-- `ngtcp2_conn_submit_crypto_data` -/
def submitCryptoData (level : Level) (data : CryptoData) : Conn :=
  match c.space level with
  | none => c
  | some sp =>
      if data.len = 0 then c
      else
        match c.env.bufferCryptoData data with
        | (false, env) => c.setEnv env
        | (true, env) =>
            (c.setEnv env).withNewFrame ⟨.crypto, 0, sp.crypto.offset, false, data.vecs, none⟩ data.buf fun c fr =>
              (c.pushCrypto level { sp with crypto := { sp.crypto with offset := sp.crypto.offset + data.len } } fr).2

/-- One round of the loop over `conn->tx.strmq` in `conn_write_pkt`, for the stream at its top -/
def writeQueued (sid left : Nat) : Conn :=
  match c.findStrm sid, c.application with
  | some s, some sp =>
      match s.unackedOffset s.queue with
      | .error _ => c
      | .ok none => (c.setStrm { s with queue := [] }).setEnv (c.env.delList s.queue)
      | .ok (some _) =>
          let p := s.streamfrqPop left c.env
          ((c.setStrm { s with queue := p.queue }).setSpace .application
            (some { sp with frq := sp.frq ++ p.frames })).setEnv (if p.frames = [] then p.env else p.env.draw.2)
  | _, _ => c

/-- The part of `conn_write_pkt` that sends new data of `ngtcp2_conn_write_stream`; flow control and
the packet have room for `room` bytes. -/
def writeNew (sid : Nat) (data : Option Slice) (fin : Bool) (room : Nat) : Conn :=
  match c.findStrm sid, c.application with
  | some s, some sp =>
      let datalen := data.elim 0 Slice.len
      let ndatalen := min datalen room
      let fin := fin && ndatalen == datalen
      let txbuf := if ndatalen = 0 then none else data.map fun b => { b with last := b.pos + ndatalen }
      if s.shutWr then c
      else
        c.withNewFrame ⟨.stream, sid, s.offset, fin, [], none⟩ txbuf fun c fr =>
          (c.setStrm (s.sent ndatalen fin)).setSpace .application (some { sp with frq := sp.frq ++ [fr] })
  | _, _ => c

/-- `ngtcp2_conn_close_stream` -/
def closeStream (sid : Nat) : Conn :=
  match c.findStrm sid with
  | none => c
  | some s => { c with strms := c.strms.eraseP (·.id = sid), env := c.env.delList s.queue }

/-- `process_acked_pkt` for a frame; the streams of `closing` are shut down otherwise. The callbacks
may fail. -/
def ackFrame (level : Level) (closing : List Nat) (fr : Frame) : Bool × Conn :=
  match fr.type with
  | .stream =>
      match c.findStrm fr.sid with
      | none => (true, c)
      | some s =>
          let r := s.acked.ackData fr.offset fr.datalen
          let s := { s with anyAcked := true, finAcked := s.finAcked || fr.fin, acked := r.2 }
          let c := (c.setStrm s).setEnv c.env.draw.2
          if r.1 ≠ .ok ∨ ¬c.env.draw.1 then (false, c)
          else if s.allTxDataFinAcked ∧ fr.sid ∈ closing then (true, c.closeStream fr.sid)
          else (true, c)
  | .crypto =>
      match c.space level with
      | none => (true, c)
      | some sp =>
          let r := sp.crypto.acked.ackData fr.offset fr.datalen
          (r.1 = .ok, c.setSpace level (some { sp with crypto := { sp.crypto with acked := r.2 } }))

def ackFrames (level : Level) (closing : List Nat) : List Frame → Conn → Conn
  | [], c => c
  | fr :: frs, c =>
      match c.ackFrame level closing fr with
      | (false, c) => c
      | (true, c) => ackFrames level closing frs c

/-- `ngtcp2_rtb_recv_ack` for the entry at `i` -/
def acked (level : Level) (i : Nat) (closing : List Nat) : Conn :=
  match c.space level with
  | none => c
  | some sp =>
      match sp.rtb[i]? with
      | none => c
      | some ent =>
          let c := ackFrames level closing ent.frames (c.setSpace level (some { sp with rtb := sp.rtb.eraseIdx i }))
          c.setEnv (c.env.delList ent.frames)

/-- `rtb_reclaim_frame` for a frame -/
def reclaimFrame (level : Level) (fr : Frame) : Bool × Conn :=
  let data := if fr.txbuf.isSome then [] else fr.data
  match fr.type with
  | .stream =>
      match c.findStrm fr.sid with
      | none => (true, c)
      | some s =>
          if s.resetStream ∨ ¬s.wants fr then (true, c)
          else
            match c.env.newFrame ⟨.stream, fr.sid, fr.offset, fr.fin, data, none⟩ fr.txbuf with
            | (none, env) => (false, c.setEnv env)
            | (some nfr, env) => (c.setEnv env).pushStrm s nfr
  | .crypto =>
      match c.space level with
      | none => (true, c)
      | some sp =>
          if ¬sp.crypto.wants fr then (true, c)
          else
            match c.env.newFrame ⟨.crypto, 0, fr.offset, false, data, none⟩ fr.txbuf with
            | (none, env) => (false, c.setEnv env)
            | (some nfr, env) => (c.setEnv env).pushCrypto level sp nfr

/-- `rtb_reclaim_frame` -/
def reclaimFrames (level : Level) : List Frame → Conn → Bool × Conn
  | [], c => (true, c)
  | fr :: frs, c =>
      match c.reclaimFrame level fr with
      | (false, c) => (false, c)
      | (true, c) => reclaimFrames level frs c

def markEntry (level : Level) (i : Nat) (f : Entry → Entry) : Conn :=
  c.onSpace level fun sp env => ({ sp with rtb := sp.rtb.modify i f }, env)

/-- `rtb_on_pkt_lost` for the entry at `i` -/
def lost (level : Level) (i : Nat) : Conn :=
  match (c.space level).bind (·.rtb[i]?) with
  | none => c
  | some ent =>
      if ent.lostRetransmitted then c
      else if ent.ptoReclaimed then c.markEntry level i Entry.setLost
      else
        match reclaimFrames level ent.frames c with
        | (false, c) => c
        | (true, c) => c.markEntry level i Entry.setLost

/-- `ngtcp2_rtb_reclaim_on_pto` for the entry at `i`, while a packet is written -/
def pto (level : Level) (i : Nat) : Conn :=
  match (c.space level).bind (·.rtb[i]?) with
  | none => c
  | some ent =>
      if ent.lostRetransmitted ∨ ent.ptoReclaimed then c
      else
        match reclaimFrames level ent.frames c with
        | (false, c) => c.onSpace level fun sp env => sp.giveUp level env
        | (true, c) => c.markEntry level i Entry.setPto

/-- `ngtcp2_rtb_remove_excessive_lost_pkt` and `ngtcp2_rtb_remove_expired_lost_pkt` for the entry at
`i` -/
def removeLost (level : Level) (i : Nat) : Conn :=
  c.onSpace level fun sp env =>
    match sp.rtb[i]? with
    | none => (sp, env)
    | some ent =>
        if ent.lostRetransmitted then ({ sp with rtb := sp.rtb.eraseIdx i }, env.delList ent.frames) else (sp, env)

/-- `rtb_reclaim_frame_on_retry` for a frame -/
def retryFrame (level : Level) (fr : Frame) : Bool × Conn :=
  match fr.type with
  | .stream =>
      match c.findStrm fr.sid with
      | none => (true, c.setEnv (c.env.del fr))
      | some s => c.pushStrm s fr
  | .crypto =>
      match c.space level with
      | none => (true, c.setEnv (c.env.del fr))
      | some sp => c.pushCrypto level sp fr

/-- `rtb_reclaim_frame_on_retry`; what is left of the entry after an error is deleted with it. -/
def retryFrames (level : Level) : List Frame → Conn → Conn
  | [], c => c
  | fr :: frs, c =>
      match c.retryFrame level fr with
      | (false, c) => c.setEnv (c.env.delList frs)
      | (true, c) => retryFrames level frs c

/-- `ngtcp2_rtb_reclaim_on_retry` for the newest entry -/
def retryEntry (level : Level) : Conn :=
  match c.space level with
  | none => c
  | some sp =>
      match sp.rtb with
      | [] => c
      | ent :: rtb =>
          let c := c.setSpace level (some { sp with rtb := rtb })
          if ent.ptoReclaimed then c.setEnv (c.env.delList ent.frames) else retryFrames level ent.frames c

/-- `conn_shutdown_stream_write` -/
def shutdownStreamWrite (sid : Nat) : Conn :=
  c.onStrm sid fun s env =>
    if s.resetStream ∨ s.allTxDataFinAcked then (s, env)
    else ({ s with shutWr := true, resetStream := true, queue := [] }, env.delList s.queue)

/-- `conn_recv_stop_sending`; `conn_reset_stream` may fail. -/
def recvStopSending (sid : Nat) : Conn :=
  c.onStrm sid fun s env =>
    if s.allTxDataFinAcked ∨ s.resetStream then ({ s with shutWr := true, queue := [] }, env.delList s.queue)
    else
      match env.draw with
      | (false, env) => ({ s with resetStream := true }, env)
      | (true, env) => ({ s with shutWr := true, resetStream := true, queue := [] }, env.delList s.queue)

/-- `conn_discard_pktns` -/
def discard (level : Level) : Conn :=
  match c.space level with
  | none => c
  | some sp => (c.setSpace level none).setEnv (c.env.delList sp.live)

/-- `conn_discard_early_data_state` -/
def discardEarlyData : Conn :=
  match c.application with
  | none => c
  | some sp =>
      let early := (sp.rtb.filter (·.early)).flatMap Entry.frames
      { c with
        strms := []
        application := some { sp with frq := [], rtb := sp.rtb.filter (!·.early) }
        env := c.env.delList (early ++ c.strms.flatMap SendStrm.queue ++ sp.frq) }

/-- A part of a received packet is retained, in a callback or for `rx.reorder`. -/
def retainRx : Conn :=
  if c.env.draw.1 then
    c.setEnv { c.env.draw.2 with appRetain := c.env.appRetain + 1, rxRetained := c.env.rxRetained + 1 }
  else c.setEnv c.env.draw.2

/-- A part of a received packet that was retained is released. -/
def releaseRx : Conn :=
  if c.env.rxReleased < c.env.rxRetained then
    c.setEnv { c.env with appRelease := c.env.appRelease + 1, rxReleased := c.env.rxReleased + 1 }
  else c

/-- `ngtcp2_conn_del` -/
def del : Conn :=
  { c with strms := [], initial := none, handshake := none, application := none, env := c.env.delList c.live }

end Conn

/-- The steps that the calls are made of. A call that writes a packet is a sequence of `writeCrypto`,
`pto`, `writeQueued`, `writeNew` and `pktSent`. -/
inductive Call
  | openStream (sid : Nat)
  | addBuf (b : StreamBuf)
  | submitStreamBuf (i datalen : Nat) (fin : Bool) (window : Nat)
  | cancelStreamBuf (i : Nat)
  | submitCryptoData (level : Level) (data : CryptoData)
  | writeCrypto (level : Level) (left : Nat) (cut : Option (Nat × Nat))
  | writeQueued (sid left : Nat)
  | writeNew (sid : Nat) (data : Option Slice) (fin : Bool) (room : Nat)
  | pktSent (level : Level) (early : Bool)
  | acked (level : Level) (i : Nat) (closing : List Nat)
  | lost (level : Level) (i : Nat)
  | pto (level : Level) (i : Nat)
  | removeLost (level : Level) (i : Nat)
  | retryEntry (level : Level)
  | shutdownStreamWrite (sid : Nat)
  | recvStopSending (sid : Nat)
  | closeStream (sid : Nat)
  | discard (level : Level)
  | discardEarlyData
  | retainRx
  | releaseRx
  | del
  deriving DecidableEq, Repr

namespace Conn

def step (c : Conn) : Call → Conn
  | .openStream sid => c.openStream sid
  | .addBuf b => c.addBuf b
  | .submitStreamBuf i datalen fin window => c.submitStreamBuf i datalen fin window
  | .cancelStreamBuf i => c.cancelStreamBuf i
  | .submitCryptoData level data => c.submitCryptoData level data
  | .writeCrypto level left cut =>
      c.onSpace level fun sp env => sp.writeCrypto level left (if level = .initial then cut else none) env
  | .writeQueued sid left => c.writeQueued sid left
  | .writeNew sid data fin room => c.writeNew sid data fin room
  | .pktSent level early => c.onSpace level fun sp env => sp.pktSent level early env
  | .acked level i closing => c.acked level i closing
  | .lost level i => c.lost level i
  | .pto level i => c.pto level i
  | .removeLost level i => c.removeLost level i
  | .retryEntry level => c.retryEntry level
  | .shutdownStreamWrite sid => c.shutdownStreamWrite sid
  | .recvStopSending sid => c.recvStopSending sid
  | .closeStream sid => c.closeStream sid
  | .discard level => c.discard level
  | .discardEarlyData => c.discardEarlyData
  | .retainRx => c.retainRx
  | .releaseRx => c.releaseRx
  | .del => c.del

/-- The connection after the calls, on success and on error. -/
def run (c : Conn) (calls : List Call) : Conn :=
  calls.foldl step c

end Conn

end Zngtcp2.Custody
