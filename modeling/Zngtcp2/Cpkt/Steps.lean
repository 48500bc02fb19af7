import Zngtcp2.Cpkt.Model

namespace Zngtcp2.Cpkt

open Pkt

variable {σ : Type}

theorem splitLen_some {pkt : Bytes} {k : Nat} (h : splitLen pkt = some k) :
    ∃ nread hd, decodeHdLong pkt = some (nread, hd) ∧ hd.type ≠ .versionNegotiation ∧ hd.type ≠ .retry ∧
      k = nread + hd.len ∧ k < pkt.length ∧ 7 ≤ nread := by
  rw [splitLen] at h
  split at h
  · cases h
  split at h
  · cases h
  rename_i nread hd hdec
  split at h
  · cases h
  rename_i htype
  split at h
  · cases h
  rename_i hne
  cases h
  have hbounds := decodeHdLong_bounds hdec
  simp only at hbounds
  push Not at htype
  exact ⟨nread, hd, hdec, htype.1, htype.2.1, rfl, by omega, hbounds.1⟩

/-- A long header packet with a Length field, alone. -/
def LongPacket (pkt : Bytes) : Prop :=
  ∃ nread hd, decodeHdLong pkt = some (nread, hd) ∧ hd.type ≠ .versionNegotiation ∧ hd.type ≠ .retry ∧
    nread + hd.len = pkt.length

theorem LongPacket.ne_nil {pkt : Bytes} (h : LongPacket pkt) : pkt ≠ [] := by
  obtain ⟨nread, hd, hdec, -⟩ := h
  have hbounds := decodeHdLong_bounds hdec
  rintro rfl
  simp only [List.length_nil] at hbounds
  omega

theorem LongPacket.splitLen_append {pkt : Bytes} (h : LongPacket pkt) (rest : Bytes) :
    splitLen (pkt ++ rest) = if rest = [] then none else some pkt.length := by
  obtain ⟨nread, hd, hdec, hvn, hretry, hlen⟩ := h
  have hbounds := decodeHdLong_bounds hdec
  simp only at hbounds
  have hdec' := (SameTo.append pkt rest).decodeHdLong hdec hbounds.2
  have hform := decodeHdLong_longForm hdec'
  rw [splitLen, if_neg (by simp [hform]; rintro rfl; simp at hbounds; omega), hdec']
  simp only [hvn, hretry, false_or, List.length_append]
  rw [if_neg (by omega)]
  by_cases hrest : rest = []
  · simp [hrest, hlen]
  · have hpos := List.length_pos_iff.mpr hrest
    rw [if_neg (by omega), if_neg hrest, hlen]

/-- What the loops need of a packet handler: it reads the first packet alone, and all of it. -/
structure Framed (p : Procedure σ) : Prop where
  own : ∀ {st : σ} {pkt : Bytes} {k : Nat}, splitLen pkt = some k → p.recv st (pkt.take k) = p.recv st pkt
  read : ∀ {st : σ} {pkt : Bytes} {nread n : Nat} {hd : PktHd}, decodeHdLong pkt = some (nread, hd) →
    hd.type ≠ .versionNegotiation → hd.type ≠ .retry → nread + hd.len ≤ pkt.length →
    (p.recv st pkt).1 = .ok n → n = nread + hd.len
  short : ∀ {st : σ} {pkt : Bytes} {n : Nat}, isLongForm pkt = false → (p.recv st pkt).1 = .ok n →
    n = 0 ∨ n = pkt.length
  le : ∀ {st : σ} {pkt : Bytes} {n : Nat}, (p.recv st pkt).1 = .ok n → n ≤ pkt.length
  zero : ∀ {st : σ} {pkt : Bytes}, pkt ≠ [] → (p.recv st pkt).1 = .ok 0 →
    p.stopsAtZero = true ∧ isLongForm pkt = false
  discard : ∀ {first : Bool} {pkt : Bytes} {e : Err} {st : σ},
    (p.onError first pkt e st).1 = .discard → e = .discardPkt

theorem Framed.read_first {p : Procedure σ} (hp : Framed p) {st : σ} {pkt : Bytes} {k n : Nat}
    (hk : splitLen pkt = some k) (hr : (p.recv st pkt).1 = .ok n) : n = k := by
  obtain ⟨nread, hd, hdec, hvn, hretry, rfl, hlt, -⟩ := splitLen_some hk
  exact hp.read hdec hvn hretry (Nat.le_of_lt hlt) hr

theorem readTo_ok {n m : Nat} {r : Option Err × σ} (h : (readTo n r).1 = .ok m) : m = n := by
  rw [readTo] at h
  split at h
  · exact (Except.ok.inj h).symm
  · cases h

theorem connRecvHandshakePkt_long (ops : HandshakeOps σ) (st : σ) {pkt : Bytes} {nread : Nat} {hd : PktHd}
    (hdec : decodeHdLong pkt = some (nread, hd)) (hvn : hd.type ≠ .versionNegotiation) (hretry : hd.type ≠ .retry)
    (hle : nread + hd.len ≤ pkt.length) :
    connRecvHandshakePkt ops st pkt =
      readTo (nread + hd.len) (ops.recvLong st hd (pkt.take (nread + hd.len))) := by
  rw [connRecvHandshakePkt, if_neg (by simp [decodeHdLong_longForm hdec]), hdec]
  cases htype : hd.type with
  | versionNegotiation => exact absurd htype hvn
  | retry => exact absurd htype hretry
  | _ => simp only [Nat.not_lt.mpr hle, if_false]

theorem connRecvPkt_long (ops : PktOps σ) (st : σ) {pkt : Bytes} {nread : Nat} {hd : PktHd}
    (hdec : decodeHdLong pkt = some (nread, hd)) (hle : nread + hd.len ≤ pkt.length) :
    connRecvPkt ops st pkt = readTo (nread + hd.len) (ops.recvLong st hd (pkt.take (nread + hd.len))) := by
  rw [connRecvPkt, if_pos (decodeHdLong_longForm hdec), hdec]
  simp only [Nat.not_lt.mpr hle, if_false]

theorem connRecvHandshakePkt_framed (ops : HandshakeOps σ) (dgramlen : Nat) : Framed (handshakeProcedure ops dgramlen) where
  own {st pkt k} h := by
    obtain ⟨nread, hd, hdec, hvn, hretry, rfl, hlt, -⟩ := splitLen_some h
    have hle := Nat.le_of_lt hlt
    have hdec' := (SameTo.take hle).decodeHdLong hdec (Nat.le_add_right _ _)
    have hlen : (pkt.take (nread + hd.len)).length = nread + hd.len := List.length_take_of_le hle
    simp only [handshakeProcedure]
    rw [connRecvHandshakePkt_long ops st hdec hvn hretry hle,
      connRecvHandshakePkt_long ops st hdec' hvn hretry (Nat.le_of_eq hlen.symm), List.take_take, Nat.min_self]
  read {st pkt nread n hd} hdec hvn hretry hle hr := by
    simp only [handshakeProcedure] at hr
    rw [connRecvHandshakePkt_long ops st hdec hvn hretry hle] at hr
    exact readTo_ok hr
  short {st pkt n} hshort hr := by
    simp only [handshakeProcedure, connRecvHandshakePkt, hshort, if_true] at hr
    split at hr
    · cases hr
      exact Or.inr rfl
    · split at hr
      · cases hr
        exact Or.inl rfl
      · exact Or.inr (readTo_ok hr)
  le {st pkt n} hr := by
    simp only [handshakeProcedure, connRecvHandshakePkt] at hr
    split at hr
    · split at hr
      · cases hr
        exact Nat.le_refl _
      · split at hr
        · cases hr
          exact Nat.zero_le _
        · exact Nat.le_of_eq (readTo_ok hr)
    · split at hr
      · cases hr
      · split at hr
        · cases hr
        · exact Nat.le_of_eq (readTo_ok hr)
        · split at hr
          · cases hr
          · rename_i hle
            rw [readTo_ok hr]
            exact Nat.not_lt.mp hle
  zero {st pkt} hne hr := by
    refine ⟨rfl, ?_⟩
    have hpos := List.length_pos_iff.mpr hne
    simp only [handshakeProcedure, connRecvHandshakePkt] at hr
    split at hr
    · assumption
    · split at hr
      · cases hr
      · rename_i nread hd hdec
        have hbounds := decodeHdLong_bounds hdec
        simp only at hbounds
        split at hr
        · cases hr
        · have := readTo_ok hr
          omega
        · split at hr
          · cases hr
          · have := readTo_ok hr
            omega
  discard {first pkt e st} h := by
    simp only [handshakeProcedure, handshakeOnError] at h
    split at h
    · cases h
    split at h
    · cases h
    split at h
    · split at h
      · cases h
      · split at h <;> cases h
    split at h
    · assumption
    · cases h

theorem connRecvPkt_framed (ops : PktOps σ) : Framed (cpktProcedure ops) where
  own {st pkt k} h := by
    obtain ⟨nread, hd, hdec, -, -, rfl, hlt, -⟩ := splitLen_some h
    have hle := Nat.le_of_lt hlt
    have hdec' := (SameTo.take hle).decodeHdLong hdec (Nat.le_add_right _ _)
    have hlen : (pkt.take (nread + hd.len)).length = nread + hd.len := List.length_take_of_le hle
    simp only [cpktProcedure]
    rw [connRecvPkt_long ops st hdec hle, connRecvPkt_long ops st hdec' (Nat.le_of_eq hlen.symm), List.take_take,
      Nat.min_self]
  read {st pkt nread n hd} hdec _ _ hle hr := by
    simp only [cpktProcedure] at hr
    rw [connRecvPkt_long ops st hdec hle] at hr
    exact readTo_ok hr
  short {st pkt n} hshort hr := by
    simp only [cpktProcedure, connRecvPkt, hshort, Bool.false_eq_true, if_false] at hr
    exact Or.inr (readTo_ok hr)
  le {st pkt n} hr := by
    simp only [cpktProcedure, connRecvPkt] at hr
    split at hr
    · split at hr
      · cases hr
      · split at hr
        · cases hr
        · rename_i hle
          rw [readTo_ok hr]
          exact Nat.not_lt.mp hle
    · exact Nat.le_of_eq (readTo_ok hr)
  zero {st pkt} hne hr := by
    have hpos := List.length_pos_iff.mpr hne
    simp only [cpktProcedure, connRecvPkt] at hr
    split at hr
    · split at hr
      · cases hr
      · rename_i nread hd hdec
        have hbounds := decodeHdLong_bounds hdec
        simp only at hbounds
        split at hr
        · cases hr
        · have := readTo_ok hr
          omega
    · have := readTo_ok hr
      omega
  discard {first pkt e st} h := by
    simp only [cpktProcedure, cpktOnError] at h
    split at h
    · cases h
    split at h
    · cases h
    generalize (if first = true then ops.onStatelessReset st pkt else (false, st)) = reset at h
    obtain ⟨reset, st'⟩ := reset
    simp only at h
    split at h
    · cases h
    split at h
    · assumption
    · cases h

/-- Every round ends the loop or leaves fewer bytes. -/
theorem recvNext_progress {p : Procedure σ} (hp : Framed p) (w : Work σ) {c : Cursor} (hne : c.pkt ≠ []) {firstlen : Nat}
    {next : Option Nat} (hfirst : 0 < firstlen) (hle : firstlen ≤ c.pkt.length) :
    (∃ r, recvNext p w c firstlen next = .ok (.inl r)) ∨
      ∃ w' c', recvNext p w c firstlen next = .ok (.inr (w', c')) ∧ c'.pkt.length < c.pkt.length := by
  have hlen : (c.pkt.take firstlen).length = firstlen := List.length_take_of_le hle
  have hne' : c.pkt.take firstlen ≠ [] := List.length_pos_iff.mp (by omega)
  have hdrop : (c.pkt.drop firstlen).length < c.pkt.length := by
    rw [List.length_drop]
    omega
  cases hr : (p.recv w.conn.st (c.pkt.take firstlen)).1 with
  | error e =>
      simp only [recvNext, hr]
      cases (p.onError c.isFirst c.pkt e (p.recv w.conn.st (c.pkt.take firstlen)).2).1 with
      | fail e => exact Or.inl ⟨_, rfl⟩
      | drop res => exact Or.inl ⟨_, rfl⟩
      | discard =>
          cases next with
          | none => exact Or.inl ⟨_, rfl⟩
          | some id => exact Or.inr ⟨_, _, rfl, hdrop⟩
  | ok n =>
      have hn := hp.le hr
      rw [hlen] at hn
      simp only [recvNext, hr]
      by_cases hz : p.stopsAtZero = true ∧ n = 0
      · obtain ⟨-, rfl⟩ := hz
        obtain ⟨hstop, hshort⟩ := hp.zero hne' hr
        have hform : isLongForm c.pkt = false := by
          rw [← hshort, isLongForm, isLongForm, (SameTo.take hle).getD hfirst]
        simp only [hstop, hform, and_self, if_true, Bool.false_eq_true, if_false]
        exact Or.inl ⟨_, rfl⟩
      · rw [if_neg hz, if_neg (by omega)]
        cases next with
        | some id => exact Or.inr ⟨_, _, rfl, hdrop⟩
        | none =>
            refine Or.inr ⟨_, _, rfl, ?_⟩
            have hpos : 0 < n := by
              rcases Nat.eq_zero_or_pos n with rfl | hpos
              · exact absurd ⟨(hp.zero hne' hr).1, rfl⟩ hz
              · exact hpos
            have := List.length_pos_iff.mpr hne
            simp only [List.length_drop]
            omega

theorem connSplitRxTrailing_ok {alloc : Nat → Alloc} {w w' : Work σ} {pkt : Bytes} {firstlen : Nat} {next : Option Nat}
    (hne : pkt ≠ []) (h : connSplitRxTrailing alloc w pkt = (.ok (firstlen, next), w')) :
    0 < firstlen ∧ firstlen ≤ pkt.length := by
  have hpos := List.length_pos_iff.mpr hne
  rw [connSplitRxTrailing] at h
  split at h
  · cases h
    exact ⟨hpos, Nat.le_refl _⟩
  split at h
  · cases h
    exact ⟨hpos, Nat.le_refl _⟩
  rename_i k hk
  obtain ⟨nread, hd, -, -, -, rfl, hlt, hseven⟩ := splitLen_some hk
  split at h
  · cases h
  · cases h
    exact ⟨by omega, Nat.le_of_lt hlt⟩

theorem step_progress (alloc : Nat → Alloc) {p : Procedure σ} (hp : Framed p) (w : Work σ) {c : Cursor} (hne : c.pkt ≠ []) :
    (∃ r, step alloc p w c = .ok (.inl r)) ∨
      ∃ w' c', step alloc p w c = .ok (.inr (w', c')) ∧ c'.pkt.length < c.pkt.length := by
  rw [step]
  rcases hs : connSplitRxTrailing alloc w c.pkt with ⟨e | ⟨firstlen, next⟩, w₁⟩
  · exact Or.inl ⟨_, rfl⟩
  · obtain ⟨hpos, hle⟩ := connSplitRxTrailing_ok hne hs
    exact recvNext_progress hp w₁ hne hpos hle

/-- The loop ends, within as many rounds as there are bytes, and no assertion fails. -/
theorem loop_returns (alloc : Nat → Alloc) {p : Procedure σ} (hp : Framed p) {fuel : Nat} (w : Work σ) {c : Cursor}
    (hfuel : c.pkt.length ≤ fuel) : ∃ r, loop alloc p fuel w c = some (.ok r) := by
  induction fuel generalizing w c with
  | zero =>
      have hnil : c.pkt = [] := List.length_eq_zero_iff.mp (by omega)
      exact ⟨_, by rw [loop, if_pos hnil]⟩
  | succ fuel ih =>
      rw [loop]
      by_cases hnil : c.pkt = []
      · exact ⟨_, if_pos hnil⟩
      · rw [if_neg hnil]
        rcases step_progress alloc hp w hnil with ⟨r, hr⟩ | ⟨w', c', hr, hlt⟩
        · exact ⟨r, by rw [hr]⟩
        · rw [hr]
          exact ih w' (by omega)

/-- A loop that returns has made a round, unless there was no byte. -/
theorem loop_cases {alloc : Nat → Alloc} {p : Procedure σ} {fuel : Nat} {w : Work σ} {c : Cursor}
    {r : Except Err Nat × Work σ} (h : loop alloc p fuel w c = some (.ok r)) :
    (c.pkt = [] ∧ r = (.ok p.res, w.releaseRxPacketCopy c.current)) ∨
      ∃ fuel', fuel = fuel' + 1 ∧ c.pkt ≠ [] ∧ (step alloc p w c = .ok (.inl r) ∨
        ∃ w' c', step alloc p w c = .ok (.inr (w', c')) ∧ loop alloc p fuel' w' c' = some (.ok r)) := by
  rw [loop.eq_def] at h
  simp only at h
  by_cases hnil : c.pkt = []
  · rw [if_pos hnil] at h
    simp only [Option.some.injEq, Except.ok.injEq] at h
    exact Or.inl ⟨hnil, h.symm⟩
  · rw [if_neg hnil] at h
    cases fuel with
    | zero => cases h
    | succ fuel =>
        refine Or.inr ⟨fuel, rfl, hnil, ?_⟩
        cases hs : step alloc p w c with
        | error e =>
            simp only [hs] at h
            cases h
        | ok out =>
            cases out with
            | inl r' =>
                simp only [hs, Option.some.injEq, Except.ok.injEq] at h
                exact Or.inl (by rw [h])
            | inr next =>
                simp only [hs] at h
                exact Or.inr ⟨next.1, next.2, rfl, h⟩

/-- What every round preserves holds where the loop returns. -/
theorem loop_invariant {alloc : Nat → Alloc} {p : Procedure σ} {Inv : Work σ → Cursor → Prop}
    {Post : Except Err Nat × Work σ → Prop}
    (hend : ∀ w c, Inv w c → Post (.ok p.res, w.releaseRxPacketCopy c.current))
    (hleave : ∀ w c r, c.pkt ≠ [] → Inv w c → step alloc p w c = .ok (.inl r) → Post r)
    (hgo : ∀ w c w' c', c.pkt ≠ [] → Inv w c → step alloc p w c = .ok (.inr (w', c')) → Inv w' c')
    {fuel : Nat} {w : Work σ} {c : Cursor} {r : Except Err Nat × Work σ} (hinv : Inv w c)
    (h : loop alloc p fuel w c = some (.ok r)) : Post r := by
  induction fuel generalizing w c with
  | zero =>
      rcases loop_cases h with ⟨-, rfl⟩ | ⟨_, hfuel, -⟩
      · exact hend w c hinv
      · cases hfuel
  | succ fuel ih =>
      rcases loop_cases h with ⟨-, rfl⟩ | ⟨_, hfuel, hne, hs | ⟨w', c', hs, hloop⟩⟩
      · exact hend w c hinv
      · exact hleave w c r hne hinv hs
      · cases hfuel
        exact ih (hgo w c w' c' hne hinv hs) hloop

def allocs (log : List Event) : List Nat :=
  log.filterMap fun
    | .alloc id => some id
    | _ => none

def releases (log : List Event) : List Nat :=
  log.filterMap fun
    | .release id => some id
    | _ => none

/-- The bytes the packet handler was given, each time with what it returned. -/
def calls (log : List Event) : List (Bytes × Except Err Nat) :=
  log.filterMap fun
    | .recv pkt nread => some (pkt, nread)
    | _ => none

/-- Every copy is released once, but those in `held` not yet. -/
structure Held (w : Work σ) (held : List Nat) : Prop where
  perm : (allocs w.log).Perm (releases w.log ++ held)
  nodup : (allocs w.log).Nodup
  lt : ∀ id ∈ allocs w.log, id < w.nalloc

/-- After a round the only copy that is not released is the one the loop goes on with. -/
def HeldAfter : Except Err Nat × Work σ ⊕ Work σ × Cursor → Prop
  | .inl r => Held r.2 []
  | .inr r => Held r.1 r.2.current.toList

namespace Held

variable {w w' : Work σ} {held : List Nat}

theorem of_log (h : Held w held) (halloc : allocs w'.log = allocs w.log) (hrelease : releases w'.log = releases w.log)
    (hn : w'.nalloc = w.nalloc) : Held w' held := by
  refine ⟨?_, ?_, ?_⟩
  · rw [halloc, hrelease]
    exact h.perm
  · rw [halloc]
    exact h.nodup
  · rw [halloc, hn]
    exact h.lt

theorem emit_recv (h : Held w held) (pkt : Bytes) (nread : Except Err Nat) : Held (w.emit (.recv pkt nread)) held :=
  h.of_log (by simp [Work.emit, allocs]) (by simp [Work.emit, releases]) rfl

theorem release {o : Option Nat} (h : Held w (o.toList ++ held)) : Held (w.releaseRxPacketCopy o) held := by
  cases o with
  | none => exact h
  | some id =>
      have ha : allocs (w.releaseRxPacketCopy (some id)).log = allocs w.log := by
        simp [Work.releaseRxPacketCopy, Work.emit, allocs]
      have hr : releases (w.releaseRxPacketCopy (some id)).log = releases w.log ++ [id] := by
        simp [Work.releaseRxPacketCopy, Work.emit, releases]
      refine ⟨?_, ?_, ?_⟩
      · rw [ha, hr, List.append_assoc]
        exact h.perm
      · rw [ha]
        exact h.nodup
      · rw [ha]
        exact h.lt

theorem emit_alloc (h : Held w held) : Held ({ w with nalloc := w.nalloc + 1 }.emit (.alloc w.nalloc)) (w.nalloc :: held) := by
  have ha : allocs ({ w with nalloc := w.nalloc + 1 }.emit (.alloc w.nalloc)).log = allocs w.log ++ [w.nalloc] := by
    simp [Work.emit, allocs]
  have hr : releases ({ w with nalloc := w.nalloc + 1 }.emit (.alloc w.nalloc)).log = releases w.log := by
    simp [Work.emit, releases]
  refine ⟨?_, ?_, ?_⟩
  · rw [ha, hr]
    refine (h.perm.append_right _).trans ?_
    rw [List.append_assoc]
    exact List.Perm.append_left _ List.perm_append_comm
  · rw [ha]
    refine List.nodup_append.mpr ⟨h.nodup, by simp, fun a hmem b hb => ?_⟩
    have hlt := h.lt a hmem
    rw [List.mem_singleton] at hb
    omega
  · rw [ha]
    intro id hmem
    rcases List.mem_append.mp hmem with hmem | hmem
    · exact Nat.lt_succ_of_lt (h.lt id hmem)
    · rw [List.mem_singleton.mp hmem]
      exact Nat.lt_succ_self _

theorem connSplitRxTrailing {alloc : Nat → Alloc} (h : Held w held) {pkt : Bytes} {r : Except Err (Nat × Option Nat)}
    (hs : connSplitRxTrailing alloc w pkt = (r, w')) :
    match r with
    | .ok (_, next) => Held w' (next.toList ++ held)
    | .error _ => Held w' held := by
  rw [Cpkt.connSplitRxTrailing] at hs
  split at hs
  · cases hs
    exact h
  split at hs
  · cases hs
    exact h
  split at hs
  · rename_i e w₁ he
    cases hs
    simp only [Work.allocRxPacketCopy] at he
    split at he
    · cases he
      exact ⟨h.perm, h.nodup, fun id hmem => Nat.lt_succ_of_lt (h.lt id hmem)⟩
    · cases he
      exact @Held.release _ _ held (some w.nalloc) h.emit_alloc
    · cases he
  · rename_i id w₁ he
    cases hs
    simp only [Work.allocRxPacketCopy] at he
    split at he
    · cases he
    · cases he
    · cases he
      exact h.emit_alloc

theorem recvNext {p : Procedure σ} {c : Cursor} {firstlen : Nat} {next : Option Nat}
    {out : Except Err Nat × Work σ ⊕ Work σ × Cursor} (h : Held w (next.toList ++ c.current.toList))
    (ho : recvNext p w c firstlen next = .ok out) : HeldAfter out := by
  have hleave : ∀ (conn : Conn σ) (res : Except Err Nat),
      Held (leave { (w.emit (.recv (c.pkt.take firstlen) (p.recv w.conn.st (c.pkt.take firstlen)).1)) with conn := conn }
        c.current next res).2 [] := by
    intro conn res
    have hemit := h.emit_recv (c.pkt.take firstlen) (p.recv w.conn.st (c.pkt.take firstlen)).1
    apply Held.release
    rw [List.append_nil]
    apply Held.release
    exact hemit.of_log rfl rfl rfl
  have hmove : ∀ (conn : Conn σ) (id : Nat), next = some id →
      Held ({ (w.emit (.recv (c.pkt.take firstlen) (p.recv w.conn.st (c.pkt.take firstlen)).1)) with
        conn := conn }.releaseRxPacketCopy c.current) [id] := by
    rintro conn id rfl
    apply Held.release
    have hswap : Held w (c.current.toList ++ [id]) := by
      refine ⟨?_, h.nodup, h.lt⟩
      exact h.perm.trans (List.Perm.append_left _ List.perm_append_comm)
    exact (hswap.emit_recv _ _).of_log rfl rfl rfl
  simp only [Cpkt.recvNext] at ho
  split at ho
  · split at ho
    · cases ho
      exact hleave _ _
    · cases ho
      exact hleave _ _
    · split at ho
      · cases ho
        exact hmove _ _ rfl
      · cases ho
        exact hleave _ _
  · split at ho
    · split at ho
      · cases ho
      · cases ho
        exact hleave _ _
    split at ho
    · cases ho
    split at ho
    · cases ho
      exact hmove _ _ rfl
    · cases ho
      exact (h.emit_recv _ _).of_log rfl rfl rfl

theorem step {alloc : Nat → Alloc} {p : Procedure σ} {c : Cursor} {out : Except Err Nat × Work σ ⊕ Work σ × Cursor}
    (h : Held w c.current.toList) (ho : step alloc p w c = .ok out) : HeldAfter out := by
  rw [Cpkt.step] at ho
  rcases hs : Cpkt.connSplitRxTrailing alloc w c.pkt with ⟨e | ⟨firstlen, next⟩, w₁⟩
  · rw [hs] at ho
    cases ho
    have hheld := h.connSplitRxTrailing hs
    apply Held.release
    rw [List.append_nil]
    exact hheld
  · rw [hs] at ho
    exact (h.connSplitRxTrailing hs).recvNext ho

end Held

theorem loop_held {alloc : Nat → Alloc} {p : Procedure σ} {fuel : Nat} {w : Work σ} {c : Cursor}
    {r : Except Err Nat × Work σ} (hinv : Held w c.current.toList) (h : loop alloc p fuel w c = some (.ok r)) :
    Held r.2 [] := by
  refine @loop_invariant σ alloc p (fun w c => Held w c.current.toList) (fun r => Held r.2 []) ?_ ?_ ?_ fuel w c r hinv h
  · intro w c hw
    apply Held.release
    rw [List.append_nil]
    exact hw
  · intro w c r _ hw hs
    exact hw.step hs
  · intro w c w' c' _ hw hs
    exact hw.step hs

end Zngtcp2.Cpkt
