import Zngtcp2.Rx.History
import Zngtcp2.Rx.Lifecycle

namespace Zngtcp2.Rx

open Gaptr (Gaps)

/-- The gaps of a tracker are the numbers that are not used; all numbers of stream ids are small. -/
structure Marks (idtr : Gaps) (used : Nat → Prop) : Prop where
  sorted : Gaptr.Sorted idtr
  mem : ∀ q, q < uint64Max → (Gaptr.Mem (Gaptr.initialized idtr) q ↔ ¬ used q)
  small : ∀ q, used q → q < Streams.maxStreams

theorem marks_nil : Marks [] (fun _ => False) :=
  ⟨⟨by simp, List.Pairwise.nil⟩, fun q hq => by simpa [Gaptr.mem_initialized_nil] using hq, fun _ h => h.elim⟩

theorem Marks.congr {idtr : Gaps} {used used' : Nat → Prop} (h : Marks idtr used) (heq : ∀ q, used' q ↔ used q) :
    Marks idtr used' :=
  ⟨h.sorted, fun q hq => by rw [h.mem q hq, heq], fun q hq => h.small q ((heq q).mp hq)⟩

/-- Opening a stream id: in use, or marked from now on. -/
theorem Marks.idtrOpen {idtr : Gaps} {used : Nat → Prop} (h : Marks idtr used) {id : Nat} (hid : id ≤ maxVarint) :
    (used (id / 4) ∧ idtrOpen idtr id = .ok none) ∨
      (¬ used (id / 4) ∧ ∃ idtr', idtrOpen idtr id = .ok (some idtr') ∧ Marks idtr' (fun q => q = id / 4 ∨ used q)) := by
  have hv := maxVarint_lt
  have hmax : Streams.maxStreams < uint64Max := by decide
  have hq : id / 4 < Streams.maxStreams := by
    rw [Streams.maxStreams]
    omega
  have hlast : Gaptr.Mem (Gaptr.initialized idtr) Streams.maxStreams :=
    (h.mem _ hmax).mpr (fun hu => absurd (h.small _ hu) (Nat.lt_irrefl _))
  obtain ⟨b, hb, hiff⟩ := Gaptr.isPushed_one h.sorted hlast (Nat.le_of_lt hq)
  rw [h.mem _ (by omega)] at hiff
  cases b with
  | true =>
      refine Or.inl ⟨by_contra (fun hu => absurd (hiff.mpr hu) (by simp)), ?_⟩
      rw [Rx.idtrOpen, hb]
  | false =>
      have hmem : ∀ q, Gaptr.Mem (Gaptr.push idtr (id / 4) 1) q ↔
          Gaptr.Mem (Gaptr.initialized idtr) q ∧ ¬ (id / 4 ≤ q ∧ q < id / 4 + 1) :=
        fun q => Gaptr.mem_push h.sorted
      have hne : Gaptr.push idtr (id / 4) 1 ≠ [] := ((hmem Streams.maxStreams).mpr ⟨hlast, by omega⟩).ne_nil
      refine Or.inr ⟨hiff.mp rfl, Gaptr.push idtr (id / 4) 1, by rw [Rx.idtrOpen, hb], ?_, ?_, ?_⟩
      · exact Gaptr.push_sorted h.sorted _ _
      · intro q hlt
        rw [Gaptr.mem_of_mem_initialized hne, hmem, h.mem q hlt, not_or]
        constructor
        · exact fun ⟨h₁, h₂⟩ => ⟨by omega, h₁⟩
        · exact fun ⟨h₁, h₂⟩ => ⟨h₂, by omega⟩
      · rintro q (rfl | hu)
        · exact hq
        · exact h.small q hu

/-- The numbers of the streams of one kind that the peer has opened. -/
def Used (conn : Conn) (bidi : Bool) (q : Nat) : Prop :=
  ∃ id ∈ conn.opened, conn.localStream id = false ∧ bidiStream id = bidi ∧ id / 4 = q

theorem remote_ext {conn : Conn} {a b : Nat} (ha : conn.localStream a = false) (hb : conn.localStream b = false)
    (hbidi : bidiStream a = bidiStream b) (hq : a / 4 = b / 4) : a = b := by
  simp only [Conn.localStream, bidiStream, decide_eq_false_iff_not, decide_eq_decide] at ha hb hbidi
  cases hs : conn.server <;> simp only [hs, if_true, if_false, Bool.false_eq_true] at ha hb <;> omega

theorem used_iff {conn : Conn} {id : Nat} (hremote : conn.localStream id = false) :
    Used conn (bidiStream id) (id / 4) ↔ id ∈ conn.opened := by
  constructor
  · rintro ⟨x, hx, hrx, hbx, hqx⟩
    rwa [remote_ext hrx hremote hbx hqx] at hx
  · exact fun hid => ⟨id, hid, hremote, rfl, rfl⟩

theorem used_congr {conn conn' : Conn} (hserver : conn'.server = conn.server)
    (hopened : ∀ id, conn.localStream id = false → (id ∈ conn'.opened ↔ id ∈ conn.opened)) (bidi : Bool) (q : Nat) :
    Used conn' bidi q ↔ Used conn bidi q := by
  have hlocal : ∀ id, conn'.localStream id = conn.localStream id := fun id => by
    rw [Conn.localStream, Conn.localStream, hserver]
  constructor
  · rintro ⟨id, hid, hr, hrest⟩
    rw [hlocal] at hr
    exact ⟨id, (hopened id hr).mp hid, hr, hrest⟩
  · rintro ⟨id, hid, hr, hrest⟩
    exact ⟨id, (hopened id hr).mpr hid, by rwa [hlocal], hrest⟩

theorem used_insert {conn conn' : Conn} {id : Nat} (hremote : conn.localStream id = false)
    (hserver : conn'.server = conn.server) (hopened : conn'.opened = insert id conn.opened) (bidi : Bool) (q : Nat) :
    Used conn' bidi q ↔ (bidiStream id = bidi ∧ q = id / 4) ∨ Used conn bidi q := by
  have hlocal : ∀ x, conn'.localStream x = conn.localStream x := fun x => by
    rw [Conn.localStream, Conn.localStream, hserver]
  simp only [Used, hopened, hlocal, Finset.mem_insert]
  constructor
  · rintro ⟨x, rfl | hx, hr, hb, hq⟩
    · exact Or.inl ⟨hb, hq.symm⟩
    · exact Or.inr ⟨x, hx, hr, hb, hq⟩
  · rintro (⟨hb, rfl⟩ | ⟨x, hx, hrest⟩)
    · exact ⟨id, Or.inl rfl, hremote, hb, rfl⟩
    · exact ⟨x, Or.inr hx, hrest⟩

def After.stream : After → Option Nat
  | .nothing => none
  | .stopSending fr _ => some fr.streamId
  | .maxStreamData fr _ => some fr.streamId
  | .ackStream streamId => some streamId

/-- The next id of a kind of local streams is fresh. -/
structure NextLocal (conn : Conn) (bidi : Bool) (next : Nat) : Prop where
  isLocal : conn.localStream next = true
  kind : bidiStream next = bidi
  lt : ∀ id ∈ conn.opened, conn.localStream id = true → bidiStream id = bidi → id < next

structure StreamsInv (st : Streams) : Prop where
  conn : ConnInv st.conn
  after : ∀ id, st.after.stream = some id → st.conn.ctl = .other ∧ (st.conn.strms id).isSome = true
  bidi : Marks st.bidiIdtr (Used st.conn true)
  uni : Marks st.uniIdtr (Used st.conn false)
  nextBidi : NextLocal st.conn true st.conn.localBidiNextStreamId
  nextUni : NextLocal st.conn false st.localUniNextStreamId

theorem NextLocal.keep {conn conn' : Conn} {bidi : Bool} {next : Nat} (h : NextLocal conn bidi next)
    (hserver : conn'.server = conn.server)
    (hopened : ∀ id, conn.localStream id = true → (id ∈ conn'.opened ↔ id ∈ conn.opened)) : NextLocal conn' bidi next := by
  have hlocal : ∀ id, conn'.localStream id = conn.localStream id := fun id => by
    rw [Conn.localStream, Conn.localStream, hserver]
  refine ⟨by rw [hlocal]; exact h.isLocal, h.kind, fun id hid hl hb => ?_⟩
  rw [hlocal] at hl
  exact h.lt id ((hopened id hl).mp hid) hl hb

/-- Inside a callback of the sending side no stream goes away. -/
theorem Moves.of_other {conn conn' : Conn} {sid : Nat} (hm : Moves sid conn conn') (hctl : conn.ctl = .other) {id : Nat}
    (hid : (conn.strms id).isSome = true) : (conn'.strms id).isSome = true := by
  by_cases heq : id = sid
  · subst heq
    cases hm with
    | keep _ _ _ hpresent => rw [hpresent, hid]
    | call _ _ _ _ hpresent => rw [hpresent, hid]
    | close _ _ _ _ _ _ _ hother => exact absurd hctl hother
  · rw [hm.keeps.others id heq, hid]

/-- A step that opens nothing. -/
theorem StreamsInv.moves {st st' : Streams} {sid : Nat} (h : StreamsInv st) (hm : Moves sid st.conn st'.conn)
    (hbidi : st'.bidiIdtr = st.bidiIdtr) (huni : st'.uniIdtr = st.uniIdtr)
    (hnext : st'.localUniNextStreamId = st.localUniNextStreamId)
    (hafter : ∀ id, st'.after.stream = some id → st'.conn.ctl = .other ∧ (st'.conn.strms id).isSome = true) :
    StreamsInv st' := by
  have hserver := hm.keeps.server
  have hopened := hm.opened
  have hused := used_congr hserver (fun id _ => by rw [hopened])
  refine ⟨h.conn.moves hm, hafter, ?_, ?_, ?_, ?_⟩
  · rw [hbidi]
    exact h.bidi.congr (hused true)
  · rw [huni]
    exact h.uni.congr (hused false)
  · rw [hm.next]
    exact h.nextBidi.keep hserver (fun id _ => by rw [hopened])
  · rw [hnext]
    exact h.nextUni.keep hserver (fun id _ => by rw [hopened])

theorem marks_idtr {st : Streams} (h : StreamsInv st) (id : Nat) :
    Marks (st.idtr id) (Used st.conn (bidiStream id)) := by
  unfold Streams.idtr
  split
  · rename_i hb
    rw [hb]
    exact h.bidi
  · rename_i hb
    rw [Bool.not_eq_true] at hb
    rw [hb]
    exact h.uni

/-- A stream of the peer is opened, and its id marked. -/
theorem StreamsInv.opens {st st' : Streams} {id : Nat} {idtr' : Gaps} (h : StreamsInv st)
    (ho : Opens id st.conn st'.conn) (hidtr : Marks idtr' (fun q => q = id / 4 ∨ Used st.conn (bidiStream id) q))
    (hbidi : st'.bidiIdtr = (st.setIdtr id idtr').bidiIdtr) (huni : st'.uniIdtr = (st.setIdtr id idtr').uniIdtr)
    (hnext : st'.localUniNextStreamId = st.localUniNextStreamId)
    (hafter : ∀ x, st'.after.stream = some x → st'.conn.ctl = .other ∧ (st'.conn.strms x).isSome = true) :
    StreamsInv st' := by
  have hused := used_insert ho.remote ho.server ho.opened
  have hlocal : ∀ x, st.conn.localStream x = true → (x ∈ st'.conn.opened ↔ x ∈ st.conn.opened) := by
    intro x hx
    rw [ho.opened, Finset.mem_insert]
    refine ⟨fun hor => hor.resolve_left ?_, Or.inr⟩
    rintro rfl
    rw [ho.remote] at hx
    cases hx
  have hmarks : ∀ bidi, Marks (if bidiStream id = bidi then idtr' else if bidi then st.bidiIdtr else st.uniIdtr)
      (Used st'.conn bidi) := by
    intro bidi
    split
    · rename_i hb
      subst hb
      exact hidtr.congr (fun q => by rw [hused]; simp)
    · rename_i hb
      cases bidi with
      | true => exact h.bidi.congr (fun q => by rw [hused]; simp [hb])
      | false => exact h.uni.congr (fun q => by rw [hused]; simp [hb])
  refine ⟨h.conn.opens ho, hafter, ?_, ?_, ?_, ?_⟩
  · have hm := hmarks true
    rw [hbidi]
    unfold Streams.setIdtr
    split at hm <;> rename_i hb <;> simp only [hb, if_true, if_false, Bool.false_eq_true] <;> exact hm
  · have hm := hmarks false
    rw [huni]
    unfold Streams.setIdtr
    split at hm <;> rename_i hb <;> simp only [hb, if_true, if_false, Bool.false_eq_true] <;> exact hm
  · rw [ho.next]
    exact h.nextBidi.keep ho.server hlocal
  · rw [hnext]
    exact h.nextUni.keep ho.server hlocal

/-- The shared part of the five handlers. -/
theorem StreamsInv.findOrOpen {st st' : Streams} {id : Nat} {env : RecvEnv} {precheck : Rv} {ctl : Ctl} {after : After}
    {ignore : Except Stop Streams} {found : Strm → Except Stop Streams} (h : StreamsInv st)
    (hr : st.findOrOpen id env precheck ctl after ignore found = .ok st') (hid : id ≤ maxVarint)
    (hctl : ctl.stream = some id ∨ ctl = .other) (hafter : ∀ x, after.stream = some x → ctl = .other ∧ x = id)
    (hignore : ignore = .ok st' → StreamsInv st')
    (hfound : ∀ strm, st.conn.strms id = some strm → found strm = .ok st' → StreamsInv st') : StreamsInv st' := by
  unfold Streams.findOrOpen at hr
  split at hr
  · rename_i strm hs
    exact hfound strm hs hr
  rename_i hnone
  split at hr
  · exact hignore hr
  rename_i hremote
  rw [Bool.not_eq_true] at hremote
  rcases (marks_idtr h id).idtrOpen hid with ⟨-, heq⟩ | ⟨hnew, idtr', heq, hmarks⟩
  · rw [heq] at hr
    exact hignore hr
  · rw [heq] at hr
    simp only at hr
    split at hr
    · cases hr
    split at hr
    · cases hr
    cases hr
    rw [used_iff hremote] at hnew
    refine h.opens (Conn.opens_initStream hremote hnew hnone hctl) hmarks rfl rfl ?_ (fun x hx => ?_)
    · unfold Streams.setIdtr Streams.initTx
      split <;> rfl
    · obtain ⟨hc, rfl⟩ := hafter x hx
      exact ⟨hc, Conn.initStream_isSome st.conn x⟩

theorem StreamsInv.idle {st : Streams} (h : StreamsInv st) (hctl : st.conn.ctl = .idle) : st.after.stream = none := by
  cases hs : st.after.stream with
  | none => rfl
  | some id =>
      have hother := (h.after id hs).1
      rw [hctl] at hother
      cases hother

theorem StreamsInv.on {st : Streams} (h : StreamsInv st) {id : Nat} {strm : Strm}
    (hs : st.conn.strms id = some strm) : On id st.conn strm :=
  Conn.on_of_some h.conn.keyed hs

theorem lift_ok {st st' : Streams} {r : Except Stop Conn} (h : st.lift r = .ok st') :
    ∃ conn', r = .ok conn' ∧ st' = { st with conn := conn' } := by
  cases r with
  | ok conn' =>
      cases h
      exact ⟨conn', rfl, rfl⟩
  | error e => cases h

theorem StreamsInv.lift {st st' : Streams} {sid : Nat} {r : Except Stop Conn} (h : StreamsInv st) (hr : st.lift r = .ok st')
    (hm : ∀ conn', r = .ok conn' → Moves sid st.conn conn')
    (hafter : st.after.stream = none ∨ ∀ conn', r = .ok conn' → conn'.ctl = st.conn.ctl) : StreamsInv st' := by
  obtain ⟨conn', hok, rfl⟩ := lift_ok hr
  refine h.moves (hm conn' hok) rfl rfl rfl (fun id hid => ?_)
  rcases hafter with hnone | hctl
  · change st.after.stream = some id at hid
    rw [hnone] at hid
    cases hid
  · obtain ⟨hother, hsome⟩ := h.after id hid
    refine ⟨?_, (hm conn' hok).of_other hother hsome⟩
    change conn'.ctl = .other
    rw [hctl conn' hok, hother]

theorem StreamsInv.glitch {st st' : Streams} (h : StreamsInv st) {ts : Nat}
    (hr : st.lift (st.conn.glitch ts) = .ok st') : StreamsInv st' :=
  have hq : ∀ conn', st.conn.glitch ts = .ok conn' → Quiet 0 st.conn conn' := fun _ hc => Conn.quiet_glitch hc
  h.lift hr (fun _ hc => (hq _ hc).keep) (Or.inr fun _ hc => (hq _ hc).ctl)

/-- A step on the connection outside of callbacks. -/
theorem StreamsInv.quietly {st : Streams} {sid : Nat} (h : StreamsInv st) (hctl : st.conn.ctl = .idle) {conn' : Conn}
    (hm : Moves sid st.conn conn') (recved : Nat → Bool) : StreamsInv { st with conn := conn', stopSendingRecved := recved } :=
  h.moves hm rfl rfl rfl (fun id hid => by
    change st.after.stream = some id at hid
    rw [h.idle hctl] at hid
    cases hid)

theorem StreamsInv.recvStopSendingOn {st st' : Streams} {strm : Strm} {fr : StopSending} {env : RecvEnv}
    (h : StreamsInv st) (hctl : st.conn.ctl = .idle) (hs : st.conn.strms fr.streamId = some strm)
    (hr : st.recvStopSendingOn strm fr env = .ok st') : StreamsInv st' := by
  unfold Streams.recvStopSendingOn at hr
  split at hr
  · exact h.glitch hr
  · cases hr
    have hid := h.on hs
    refine @StreamsInv.quietly st fr.streamId h hctl _ (Conn.setStrm_closeIf_moves ?_ hctl) _
    exact ⟨hid.streamId, hid.present⟩

/-- The callback of a frame for the sending side. -/
theorem StreamsInv.callOther {st : Streams} (h : StreamsInv st) {conn' : Conn} {c : Call} (hc : c.inner = true)
    (hq : Quiet c.streamId st.conn conn') (hid : (st.conn.strms c.streamId).isSome = true) (after : After)
    (hafter : ∀ x, after.stream = some x → x = c.streamId) (txMaxOffset : Nat → Nat) :
    StreamsInv { st with
      conn := { conn' with calls := conn'.calls ++ [c], ctl := .other }
      after := after
      txMaxOffset := txMaxOffset } := by
  have hm : Moves c.streamId st.conn { conn' with calls := conn'.calls ++ [c], ctl := .other } := by
    refine hq.moves (.call c (Keeps.of_eq rfl rfl rfl rfl) rfl rfl rfl hc rfl ?_ rfl (Or.inr rfl))
    rw [hq.present, hid]
  refine h.moves hm rfl rfl rfl (fun x hx => ⟨rfl, ?_⟩)
  change (conn'.strms x).isSome = true
  rw [hafter x hx, hq.present, hid]

theorem StreamsInv.recvMaxStreamDataOn {st st' : Streams} {strm : Strm} {fr : MaxStreamData} {env : RecvEnv}
    (h : StreamsInv st) (hctl : st.conn.ctl = .idle) (hs : st.conn.strms fr.streamId = some strm)
    (hr : st.recvMaxStreamDataOn strm fr env = .ok st') : StreamsInv st' := by
  unfold Streams.recvMaxStreamDataOn at hr
  split at hr
  · exact h.glitch hr
  simp only at hr
  split at hr
  · obtain ⟨conn', hok, rfl⟩ := lift_ok hr
    have hq : Quiet fr.streamId st.conn conn' := Conn.quiet_glitch hok
    exact h.moves hq.keep rfl rfl rfl (fun id hid => by
      change st.after.stream = some id at hid
      rw [h.idle hctl] at hid
      cases hid)
  · cases hr
    refine h.callOther (c := .extendMaxStreamData fr.streamId) rfl (Quiet.refl st.conn) (by rw [Call.streamId, hs]; rfl)
      st.after (fun x hx => ?_) _
    rw [h.idle hctl] at hx
    cases hx

def Event.Wire : Event → Prop
  | .recv fr _ => fr.streamId ≤ maxVarint
  | _ => True

theorem StreamsInv.recv {st st' : Streams} {fr : Frame} {env : RecvEnv} (h : StreamsInv st)
    (hctl : st.conn.ctl = .idle) (hid : fr.streamId ≤ maxVarint) (hr : st.recv fr env = .ok st') : StreamsInv st' := by
  have hnone := h.idle hctl
  cases fr with
  | stream fr =>
      change st.recvStream fr env = .ok st' at hr
      unfold Streams.recvStream at hr
      split at hr
      · split at hr
        · cases hr
        · exact h.findOrOpen hr hid (Or.inl rfl) (fun x hx => by cases hx) h.glitch
            (fun strm hs hf => h.lift hf (fun c hc => Conn.recvStreamOn_moves hc (h.on hs) hctl) (Or.inl hnone))
      · cases hr
  | resetStream fr =>
      change st.recvResetStream fr env = .ok st' at hr
      unfold Streams.recvResetStream at hr
      split at hr
      · split at hr
        · cases hr
        · exact h.findOrOpen hr hid (Or.inl rfl) (fun x hx => by cases hx) h.glitch
            (fun strm hs hf => h.lift hf (fun c hc => Conn.recvResetStreamOn_moves hc rfl (by rw [hs]; rfl)) (Or.inl hnone))
      · cases hr
  | stopSending fr =>
      change st.recvStopSending fr env = .ok st' at hr
      unfold Streams.recvStopSending at hr
      split at hr
      · exact h.findOrOpen hr hid (Or.inr rfl) (fun x hx => ⟨rfl, by simpa [After.stream] using hx.symm⟩) h.glitch
          (fun strm hs hf => h.recvStopSendingOn hctl hs hf)
      · cases hr
  | maxStreamData fr =>
      change st.recvMaxStreamData fr env = .ok st' at hr
      unfold Streams.recvMaxStreamData at hr
      split at hr
      · exact h.findOrOpen hr hid (Or.inr rfl) (fun x hx => ⟨rfl, by simpa [After.stream] using hx.symm⟩) h.glitch
          (fun strm hs hf => h.recvMaxStreamDataOn hctl hs hf)
      · cases hr
  | streamDataBlocked fr =>
      change st.recvStreamDataBlocked fr env = .ok st' at hr
      unfold Streams.recvStreamDataBlocked at hr
      split at hr
      · refine h.findOrOpen hr hid (Or.inl rfl) (fun x hx => by cases hx) (fun heq => ?_)
          (fun strm hs hf => h.lift hf (fun c hc => Conn.recvStreamDataBlockedOn_moves hc (h.on hs)) (Or.inl hnone))
        cases heq
        exact h
      · cases hr

theorem StreamsInv.settle {st : Streams} (h : StreamsInv st) :
    StreamsInv { st with conn := { st.conn with ctl := .idle }, after := .nothing } :=
  have hm : Moves 0 st.conn { st.conn with ctl := .idle } :=
    .keep (Keeps.of_eq rfl rfl rfl rfl) rfl rfl rfl rfl (Or.inl rfl)
  h.moves hm rfl rfl rfl (fun x hx => by cases hx)

theorem StreamsInv.callbackReturns {st st' : Streams} (h : StreamsInv st) (hr : st.callbackReturns = .ok st') :
    StreamsInv st' := by
  unfold Streams.callbackReturns at hr
  simp only at hr
  split at hr
  · rename_i ha
    refine @StreamsInv.lift st st' (st.conn.ctl.stream.getD 0) _ h hr (fun c hc => callbackReturns_moves h.conn.keyed ?_ hc)
      (Or.inl (by rw [ha]; rfl))
    cases st.conn.ctl.stream with
    | none => exact Or.inr rfl
    | some x => exact Or.inl rfl
  · split at hr
    · cases hr
    · rename_i hs
      exact h.settle.recvStopSendingOn rfl hs hr
  · split at hr
    · cases hr
    · rename_i hs
      exact h.settle.recvMaxStreamDataOn rfl hs hr
  · split at hr
    · cases hr
    · rename_i hs
      cases hr
      exact h.settle.quietly rfl (Conn.closeIf_moves (h.settle.on hs) rfl) _

theorem StreamsInv.ackStream {st : Streams} (h : StreamsInv st) (hctl : st.conn.ctl = .idle) (id : Nat)
    (txDataFinAcked registered advances : Bool) :
    StreamsInv (st.ackStream id txDataFinAcked registered advances) := by
  unfold Streams.ackStream
  split
  · exact h
  · rename_i strm hs
    have hid := h.on hs
    have hq : Quiet id st.conn (st.conn.setStrm { strm with txDataFinAcked := strm.txDataFinAcked || txDataFinAcked }) :=
      Conn.quiet_setStrm ⟨hid.streamId, hid.present⟩
    simp only
    split
    · split
      · exact h.callOther (c := .ackedStreamDataOffset id) rfl hq (by rw [Call.streamId, hs]; rfl) _
          (fun x hx => by simpa [After.stream, Call.streamId] using hx.symm) _
      · exact h.quietly hctl hq.keep _
    · refine @StreamsInv.quietly st id h hctl _ (Conn.setStrm_closeIf_moves ?_ hctl) _
      exact ⟨hid.streamId, hid.present⟩

theorem StreamsInv.ackResetStream {st : Streams} (h : StreamsInv st) (hctl : st.conn.ctl = .idle) (id : Nat) :
    StreamsInv (st.ackResetStream id) := by
  unfold Streams.ackResetStream
  split
  · exact h
  · rename_i strm hs
    have hid := h.on hs
    refine @StreamsInv.quietly st id h hctl _ (Conn.setStrm_closeIf_moves ?_ hctl) _
    exact ⟨hid.streamId, hid.present⟩

theorem StreamsInv.writeStopSending {st : Streams} (h : StreamsInv st) (hctl : st.conn.ctl = .idle) (id : Nat) :
    StreamsInv (st.writeStopSending id) := by
  unfold Streams.writeStopSending
  split
  · exact h
  · rename_i strm hs
    split
    · exact h
    · refine h.callOther (c := .streamStopSending id) rfl (Quiet.refl st.conn) (by rw [Call.streamId, hs]; rfl) st.after
        (fun x hx => ?_) _
      rw [h.idle hctl] at hx
      cases hx

theorem localStream_add_four (conn : Conn) (id : Nat) : conn.localStream (id + 4) = conn.localStream id := by
  simp only [Conn.localStream]
  congr 1
  simp only [eq_iff_iff]
  omega

theorem bidiStream_add_four (id : Nat) : bidiStream (id + 4) = bidiStream id := by
  simp only [bidiStream]
  congr 1
  simp only [eq_iff_iff]
  omega

/-- A local stream of one kind is opened, with the next id. -/
theorem NextLocal.take {conn conn' : Conn} {bidi : Bool} {next : Nat} (h : NextLocal conn bidi next)
    (hserver : conn'.server = conn.server) (hopened : conn'.opened = insert next conn.opened) :
    NextLocal conn' bidi (next + 4) := by
  have hlocal : ∀ id, conn'.localStream id = conn.localStream id := fun id => by
    rw [Conn.localStream, Conn.localStream, hserver]
  refine ⟨?_, ?_, fun id hid hl hb => ?_⟩
  · rw [hlocal, localStream_add_four]
    exact h.isLocal
  · rw [bidiStream_add_four]
    exact h.kind
  · rw [hopened, Finset.mem_insert] at hid
    rw [hlocal] at hl
    rcases hid with rfl | hid
    · omega
    · have := h.lt id hid hl hb
      omega

theorem NextLocal.other {conn conn' : Conn} {bidi : Bool} {next id : Nat} (h : NextLocal conn bidi next)
    (hserver : conn'.server = conn.server) (hopened : conn'.opened = insert id conn.opened) (hkind : bidiStream id ≠ bidi) :
    NextLocal conn' bidi next := by
  have hlocal : ∀ id, conn'.localStream id = conn.localStream id := fun id => by
    rw [Conn.localStream, Conn.localStream, hserver]
  refine ⟨by rw [hlocal]; exact h.isLocal, h.kind, fun x hx hl hb => ?_⟩
  rw [hopened, Finset.mem_insert] at hx
  rw [hlocal] at hl
  rcases hx with rfl | hx
  · exact absurd hb hkind
  · exact h.lt x hx hl hb

theorem NextLocal.fresh {conn : Conn} {bidi : Bool} {next : Nat} (h : NextLocal conn bidi next) :
    next ∉ conn.opened :=
  fun hm => absurd (h.lt next hm h.isLocal h.kind) (Nat.lt_irrefl _)

/-- The trackers do not see local streams. -/
theorem StreamsInv.openLocal {st st' : Streams} (h : StreamsInv st) {id next : Nat}
    (hlocal : st.conn.localStream id = true) (hnew : id ∉ st.conn.opened)
    (hconn : st'.conn = { st.conn.initStream id with localBidiNextStreamId := next })
    (hafter : st'.after = st.after) (hbidi : st'.bidiIdtr = st.bidiIdtr) (huni : st'.uniIdtr = st.uniIdtr)
    (hnextBidi : NextLocal st'.conn true next) (hnextUni : NextLocal st'.conn false st'.localUniNextStreamId) :
    StreamsInv st' := by
  have hserver : st'.conn.server = st.conn.server := by rw [hconn]; rfl
  have hused := used_congr hserver (fun x hx => by
    rw [hconn]
    change x ∈ insert id st.conn.opened ↔ _
    rw [Finset.mem_insert]
    refine ⟨fun hor => hor.resolve_left ?_, Or.inr⟩
    rintro rfl
    rw [hlocal] at hx
    cases hx)
  refine ⟨?_, fun x hx => ?_, ?_, ?_, ?_, hnextUni⟩
  · rw [hconn]
    exact h.conn.initLocal hlocal hnew next
  · rw [hafter] at hx
    obtain ⟨hc, hs⟩ := h.after x hx
    rw [hconn]
    refine ⟨hc, ?_⟩
    change ((st.conn.initStream id).strms x).isSome = true
    by_cases heq : x = id
    · subst heq
      exact Conn.initStream_isSome st.conn x
    · rw [Conn.initStream_of_ne st.conn heq, hs]
  · rw [hbidi]
    exact h.bidi.congr (hused true)
  · rw [huni]
    exact h.uni.congr (hused false)
  · have hn : st'.conn.localBidiNextStreamId = next := by rw [hconn]
    rw [hn]
    exact hnextBidi

theorem StreamsInv.openBidiStream {st : Streams} (h : StreamsInv st) : StreamsInv st.openBidiStream := by
  unfold Streams.openBidiStream Conn.openBidiStream
  split
  · exact h
  · refine h.openLocal h.nextBidi.isLocal h.nextBidi.fresh rfl rfl rfl rfl (h.nextBidi.take rfl rfl) ?_
    exact h.nextUni.other rfl rfl (by rw [h.nextBidi.kind]; decide)

theorem StreamsInv.openUniStream {st : Streams} (h : StreamsInv st) : StreamsInv st.openUniStream := by
  unfold Streams.openUniStream
  split
  · exact h
  · refine h.openLocal h.nextUni.isLocal h.nextUni.fresh rfl rfl rfl rfl ?_ (h.nextUni.take rfl rfl)
    exact h.nextBidi.other rfl rfl (by rw [h.nextUni.kind]; decide)

theorem streamsWhenIdle_ok {st st' : Streams} {next : Except Stop Streams} (h : st.whenIdle next = .ok st') :
    st.conn.ctl = .idle ∧ next = .ok st' := by
  unfold Streams.whenIdle at h
  split at h
  · rename_i hctl
    exact ⟨hctl, h⟩
  · cases h

theorem StreamsInv.quiet {st st' : Streams} {sid : Nat} (h : StreamsInv st) {conn' : Conn} (hq : Quiet sid st.conn conn')
    (hr : st.lift (.ok conn') = .ok st') : StreamsInv st' := by
  refine @StreamsInv.lift st st' sid _ h hr (fun c hc => ?_) (Or.inr fun c hc => ?_)
  · cases hc
    exact hq.keep
  · cases hc
    exact hq.ctl

/-- The limits play no part. -/
theorem StreamsInv.limits {st st' : Streams} (h : StreamsInv st) (hserver : st'.conn.server = st.conn.server)
    (hnext : st'.conn.localBidiNextStreamId = st.conn.localBidiNextStreamId)
    (hopened : st'.conn.opened = st.conn.opened) (hstrms : st'.conn.strms = st.conn.strms)
    (hcalls : st'.conn.calls = st.conn.calls) (hctl : st'.conn.ctl = st.conn.ctl) (hbidi : st'.bidiIdtr = st.bidiIdtr)
    (huni : st'.uniIdtr = st.uniIdtr) (huniNext : st'.localUniNextStreamId = st.localUniNextStreamId)
    (hafter : st'.after = st.after) : StreamsInv st' := by
  have hlocal : ∀ id, st'.conn.localStream id = st.conn.localStream id := fun id => by
    rw [Conn.localStream, Conn.localStream, hserver]
  have hused := used_congr hserver (fun id _ => by rw [hopened])
  refine ⟨⟨?_, fun id => ?_, ?_⟩, ?_, ?_, ?_, ?_, ?_⟩
  · intro id strm hs
    rw [hstrms] at hs
    exact h.conn.keyed id strm hs
  · exact (h.conn.history id).other (hlocal id) (by rw [hopened]) (by rw [hstrms]) (by rw [hcalls])
  · rw [hctl, hstrms]
    exact h.conn.ctl
  · rw [hafter, hctl, hstrms]
    exact h.after
  · rw [hbidi]
    exact h.bidi.congr (hused true)
  · rw [huni]
    exact h.uni.congr (hused false)
  · rw [hnext]
    exact h.nextBidi.keep hserver (fun id _ => by rw [hopened])
  · rw [huniNext]
    exact h.nextUni.keep hserver (fun id _ => by rw [hopened])

theorem StreamsInv.step (st : Streams) (e : Event) (st' : Streams) (h : StreamsInv st) (hw : e.Wire)
    (hr : Streams.step st e = .ok st') : StreamsInv st' := by
  cases e with
  | recv fr env =>
      obtain ⟨hctl, hr⟩ := streamsWhenIdle_ok hr
      exact h.recv hctl hw hr
  | callbackReturns => exact h.callbackReturns hr
  | ackStream id txDataFinAcked registered advances =>
      obtain ⟨hctl, hr⟩ := streamsWhenIdle_ok hr
      cases hr
      exact h.ackStream hctl id _ _ _
  | ackResetStream id =>
      obtain ⟨hctl, hr⟩ := streamsWhenIdle_ok hr
      cases hr
      exact h.ackResetStream hctl id
  | writeStopSending id =>
      obtain ⟨hctl, hr⟩ := streamsWhenIdle_ok hr
      cases hr
      exact h.writeStopSending hctl id
  | openBidiStream =>
      cases hr
      exact h.openBidiStream
  | openUniStream =>
      cases hr
      exact h.openUniStream
  | extendMaxStreams bidi n =>
      cases hr
      unfold Streams.extendMaxStreams
      split <;> exact h.limits rfl rfl rfl rfl rfl rfl rfl rfl rfl rfl
  | sendMaxStreams bidi =>
      obtain ⟨-, hr⟩ := streamsWhenIdle_ok hr
      cases hr
      unfold Streams.sendMaxStreams
      split <;> split <;> exact h.limits rfl rfl rfl rfl rfl rfl rfl rfl rfl rfl
  | recvMaxStreams bidi n =>
      obtain ⟨-, hr⟩ := streamsWhenIdle_ok hr
      unfold Streams.recvMaxStreams at hr
      split at hr
      · cases hr
      · split at hr <;> cases hr <;> exact h.limits rfl rfl rfl rfl rfl rfl rfl rfl rfl rfl
  | shutdownStreamRead id => exact h.quiet (Conn.quiet_shutdownStreamRead h.conn.keyed id) hr
  | sendSide id shutWr resetStream resetStreamAcked txDataFinAcked =>
      change st.lift (.ok (st.conn.sendSide id shutWr resetStream resetStreamAcked txDataFinAcked)) = .ok st' at hr
      refine @StreamsInv.lift st st' id _ h hr (fun c hc => ?_) ?_
      · cases hc
        exact Conn.sendSide_moves h.conn.keyed id _ _ _ _
      · by_cases hctl : st.conn.ctl = .idle
        · exact Or.inl (h.idle hctl)
        · refine Or.inr (fun c hc => ?_)
          cases hc
          exact Conn.sendSide_ctl st.conn id _ _ _ _ hctl
  | extendMaxOffset n =>
      have hq : Quiet 0 st.conn (st.conn.extendMaxOffset n) := Quiet.of_eq rfl rfl rfl rfl rfl rfl rfl rfl
      exact h.quiet hq hr
  | extendMaxStreamOffset id n => exact h.quiet (Conn.quiet_extendMaxStreamOffset h.conn.keyed id n) hr
  | sendMaxData ts rtt =>
      obtain ⟨conn', hok, rfl⟩ := lift_ok hr
      obtain ⟨hctl, hok⟩ := whenIdle_ok hok
      cases hok
      have hq : Quiet 0 st.conn _ := Conn.quiet_sendMaxData st.conn ts rtt
      exact h.quiet hq rfl
  | sendMaxStreamData id delta =>
      obtain ⟨conn', hok, rfl⟩ := lift_ok hr
      obtain ⟨hctl, hok⟩ := whenIdle_ok hok
      cases hok
      exact h.quiet (Conn.quiet_sendMaxStreamData h.conn.keyed id delta) rfl

end Zngtcp2.Rx
