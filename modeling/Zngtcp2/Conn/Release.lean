import Zngtcp2.Lib.Run
import Zngtcp2.Strm.Rx

namespace Zngtcp2

open Reorder Lib.Run

/-- The connection's buffer statistics that the reordering paths touch, with the references taken
so far and the log of the releases. References are numbered in the order they are taken. -/
structure BufStats where
  taken : Nat := 0
  released : List Nat := []
  appRetain : Nat := 0
  appRelease : Nat := 0
  reorderCopy : Nat := 0
  allocatorReject : Nat := 0
  bufContractFailure : Nat := 0
  deriving DecidableEq, Repr

/-- How `conn_alloc_rx_reorder_copy` fares: no allocator is set, the allocator fails, it returns a
buffer that fails validation, or all is well. -/
inductive AllocOutcome
  | noAllocator
  | fails (rv : Rv)
  | invalid
  | done
  deriving DecidableEq, Repr

/-- Where the bytes of a reordered frame live: in a packet buffer whose owner can be retained, with
the result of `ngtcp2_buf_slice` on it, or elsewhere, so that they are copied. -/
inductive Source
  | packet (sliceRv : Rv)
  | other (alloc : AllocOutcome)
  deriving DecidableEq, Repr

def connReorderRelease (stats : BufStats) (rel : Release) : BufStats :=
  { stats with
    released := stats.released ++ [rel.1.owner]
    appRelease := if rel.2 then stats.appRelease else stats.appRelease + 1 }

def connReorderReleaseAll (stats : BufStats) (rels : List Release) : BufStats :=
  rels.foldl connReorderRelease stats

/-- The slice or the copy of the frame's bytes: the return code, and the descriptor with its
`allocator_owned` flag on success. -/
def acquire (stats : BufStats) (data : List UInt8) : Source → Except Rv (Buf × Bool) × BufStats
  | .packet .ok =>
      (.ok (⟨stats.taken, data⟩, false), { stats with taken := stats.taken + 1, appRetain := stats.appRetain + 1 })
  | .packet rv => (.error rv, { stats with bufContractFailure := stats.bufContractFailure + 1 })
  | .other .noAllocator =>
      (.error .bufContract, { stats with
        allocatorReject := stats.allocatorReject + 1, bufContractFailure := stats.bufContractFailure + 1 })
  | .other (.fails .bufContract) =>
      (.error .bufContract, { stats with
        allocatorReject := stats.allocatorReject + 1, bufContractFailure := stats.bufContractFailure + 1 })
  | .other (.fails rv) => (.error rv, stats)
  | .other .invalid =>
      (.error .bufContract, { stats with
        taken := stats.taken + 1
        released := stats.released ++ [stats.taken]
        bufContractFailure := stats.bufContractFailure + 1 })
  | .other .done => (.ok (⟨stats.taken, data⟩, true), { stats with taken := stats.taken + 1 })

structure ReorderEnv where
  source : Source
  listMem : Bool
  entryMem : Bool
  deriving DecidableEq, Repr

structure ReorderingResult where
  rv : Rv
  nwrite : Nat
  strm : Strm
  stats : BufStats

def connRecvReordering (stats : BufStats) (strm : Strm) (data : List UInt8) (offset : Nat) (env : ReorderEnv) :
    ReorderingResult :=
  match acquire stats data env.source with
  | (.error rv, stats) => ⟨rv, 0, strm, stats⟩
  | (.ok (buf, allocatorOwned), stats) =>
      let r := strm.recvReorderingBuf buf offset allocatorOwned env.listMem env.entryMem
      let stats := connReorderReleaseAll stats r.released
      if r.rv ≠ .ok then ⟨r.rv, 0, r.strm, connReorderRelease stats (r.buf, allocatorOwned)⟩
      else if allocatorOwned then
        ⟨.ok, r.nwrite, r.strm, { stats with reorderCopy := stats.reorderCopy + r.nwrite }⟩
      else ⟨.ok, r.nwrite, r.strm, stats⟩

end Zngtcp2

namespace Zngtcp2.Release

open Reorder Lib.Run

/-- A held reference: the number of its owner reference and the `allocator_owned` flag. -/
abbrev Ref := Nat × Bool

def ref (rel : Release) : Ref :=
  (rel.1.owner, rel.2)

def refs (entries : Entries) : List Ref :=
  (free entries).map ref

/-- Every reference taken so far is either held once and not released, or released once and not
held; the retained packet references still held are those the statistics count. -/
structure Accounted (stats : BufStats) (held : List Ref) : Prop where
  once : ∀ id, stats.released.count id + (held.map Prod.fst).count id = if id < stats.taken then 1 else 0
  retained : stats.appRetain = stats.appRelease + held.countP (fun r => !r.2)

theorem Accounted.perm {stats : BufStats} {held held' : List Ref} (h : Accounted stats held)
    (hp : held.Perm held') : Accounted stats held' :=
  ⟨fun id => by rw [← (hp.map Prod.fst).count_eq]; exact h.once id, by rw [← hp.countP_eq]; exact h.retained⟩

theorem Accounted.release {stats : BufStats} {held : List Ref} {rel : Release}
    (h : Accounted stats (ref rel :: held)) : Accounted (connReorderRelease stats rel) held := by
  refine ⟨fun id => ?_, ?_⟩
  · have ho := h.once id
    change (stats.released ++ [rel.1.owner]).count id + (held.map Prod.fst).count id = _
    change _ = if id < stats.taken then 1 else 0
    simp only [List.map_cons, List.count_cons, ref] at ho
    simp only [List.count_append, List.count_cons, List.count_nil]
    omega
  · have hr := h.retained
    obtain ⟨buf, owned⟩ := rel
    cases owned
    · simp only [connReorderRelease, ref, List.countP_cons] at hr ⊢
      simp at hr ⊢
      omega
    · simpa [connReorderRelease, ref, List.countP_cons] using hr

theorem Accounted.releaseAll {stats : BufStats} {held : List Ref} {rels : List Release}
    (h : Accounted stats (rels.map ref ++ held)) : Accounted (connReorderReleaseAll stats rels) held := by
  induction rels generalizing stats with
  | nil => exact h
  | cons rel rels ih => exact ih h.release

theorem Accounted.of_eq {stats stats' : BufStats} {held : List Ref} (h : Accounted stats held)
    (ht : stats'.taken = stats.taken) (hr : stats'.released = stats.released)
    (ha : stats'.appRetain = stats.appRetain) (hl : stats'.appRelease = stats.appRelease) :
    Accounted stats' held :=
  ⟨fun id => by rw [hr, ht]; exact h.once id, by rw [ha, hl]; exact h.retained⟩

/-- Slicing or copying takes one fresh reference on success, and leaves none behind on failure. -/
theorem acquire_accounted {stats : BufStats} {held : List Ref} (h : Accounted stats held)
    (data : List UInt8) (source : Source) :
    match acquire stats data source with
    | (.ok (buf, owned), stats') => Accounted stats' ((buf.owner, owned) :: held) ∧ buf.bytes = data
    | (.error _, stats') => Accounted stats' held := by
  have hfresh : ∀ id, stats.released.count id + (held.map Prod.fst).count id + (if stats.taken == id then 1 else 0) =
      if id < stats.taken + 1 then 1 else 0 := by
    intro id
    have ho := h.once id
    by_cases heq : stats.taken = id
    · subst heq
      simp at ho ⊢
      omega
    · have hlt : (id < stats.taken + 1) = (id < stats.taken) := propext (by omega)
      simp only [hlt, beq_iff_eq, heq, if_false]
      omega
  have hr := h.retained
  cases source with
  | packet rv =>
      cases rv
      case ok =>
        refine ⟨⟨fun id => ?_, ?_⟩, rfl⟩
        · have hf := hfresh id
          simp only [List.map_cons, List.count_cons]
          omega
        · simp
          omega
      all_goals exact h.of_eq rfl rfl rfl rfl
  | other alloc =>
      cases alloc with
      | noAllocator => exact h.of_eq rfl rfl rfl rfl
      | fails rv => cases rv <;> exact h.of_eq rfl rfl rfl rfl
      | invalid =>
          refine ⟨fun id => ?_, hr⟩
          have hf := hfresh id
          simp only [List.count_append, List.count_cons, List.count_nil]
          omega
      | done =>
          refine ⟨⟨fun id => ?_, ?_⟩, rfl⟩
          · have hf := hfresh id
            simp only [List.map_cons, List.count_cons]
            omega
          · simpa [List.countP_cons] using hr

theorem refs_removePrefix (entries : Entries) (offset : Nat) :
    refs entries = (removePrefix entries offset).2.map ref ++ refs (removePrefix entries offset).1 := by
  induction entries with
  | nil => rfl
  | cons ent rest ih =>
      rw [removePrefix]
      split
      · rfl
      · split
        · rfl
        · simp only [refs, free, List.map_cons, List.cons_append] at ih ⊢
          rw [ih]

/-- What can happen to the receiving side of a stream that holds reordered data. -/
inductive RxOp
  | recvReordering (data : List UInt8) (offset : Nat) (env : ReorderEnv)
  | emit
  | updateRxOffset (offset : Nat)
  | discard
  | delete

structure St where
  strm : Option Strm
  stats : BufStats

def init (strm : Strm) : St :=
  ⟨some { strm with reorder := none }, {}⟩

/-- One emission: the data buffered at the consumed prefix is passed on and popped. -/
def emitOne (strm : Strm) : Except Fault (Strm × List Release) :=
  match strm.reorder with
  | none => .ok (strm, [])
  | some reorder =>
      match dataAt reorder strm.contOffset with
      | .error f => .error f
      | .ok none => .ok (strm, [])
      | .ok (some (_, datalen)) =>
          match pop reorder strm.contOffset datalen with
          | .error f => .error f
          | .ok (reorder', released) =>
              .ok ({ strm with reorder := some reorder', contOffset := strm.contOffset + datalen }, released)

def stepStrm (stats : BufStats) (strm : Strm) : RxOp → Except Fault St
  | .recvReordering data offset env =>
      let r := connRecvReordering stats strm data offset env
      .ok ⟨some r.strm, r.stats⟩
  | .emit =>
      match emitOne strm with
      | .error f => .error f
      | .ok (strm', released) => .ok ⟨some strm', connReorderReleaseAll stats released⟩
  | .updateRxOffset offset =>
      let r := strm.updateRxOffset offset
      .ok ⟨some r.1, connReorderReleaseAll stats r.2⟩
  | .discard =>
      let r := strm.discardReorderedData
      .ok ⟨some r.1, connReorderReleaseAll stats r.2⟩
  | .delete => .ok ⟨none, connReorderReleaseAll stats strm.free⟩

/-- A deleted stream is never used again. -/
def step (st : St) (op : RxOp) : Except Fault St :=
  match st.strm with
  | none => .ok st
  | some strm => stepStrm st.stats strm op

def St.entries (st : St) : Entries :=
  (st.strm.map Strm.entries).getD []

def Valid (strm : Strm) : RxOp → Prop
  | .recvReordering data offset _ => offset < 2 ^ 64 ∧ data.length < 2 ^ 64
  | .updateRxOffset offset => strm.contOffset ≤ offset
  | .emit | .discard | .delete => True

/-- The frame reaches the list as a new entry: it is sliced or copied, no allocation fails, its end
does not overflow, and it has a byte that is neither consumed nor buffered. -/
def AddsEntry (strm : Strm) (data : List UInt8) (offset : Nat) (env : ReorderEnv) : Prop :=
  (env.source = .packet .ok ∨ env.source = .other .done) ∧ (strm.reorder ≠ none ∨ env.listMem = true) ∧
    env.entryMem = true ∧ offset + data.length < 2 ^ 64 ∧
    ∃ o, Wanted strm.entries strm.contOffset offset data.length o

/-- An entry is added only to a list that stays below the limit with it. -/
def Room (strm : Strm) : RxOp → Prop
  | .recvReordering data offset env =>
      AddsEntry strm data offset env → strm.entries.length + 1 < Strm.maxFragments
  | .updateRxOffset _ | .emit | .discard | .delete => True

def Guard (st : St) (op : RxOp) : Prop :=
  ∀ strm, st.strm = some strm → Valid strm op ∧ Room strm op

theorem acquire_cases (stats : BufStats) (data : List UInt8) (source : Source) :
    (∃ owned stats', acquire stats data source = (.ok (⟨stats.taken, data⟩, owned), stats') ∧
      (source = .packet .ok ∨ source = .other .done)) ∨
    (∃ rv stats', acquire stats data source = (.error rv, stats') ∧
      ¬ (source = .packet .ok ∨ source = .other .done)) := by
  cases source with
  | packet rv => cases rv <;> simp [acquire]
  | other alloc =>
      cases alloc with
      | noAllocator | invalid | done => simp [acquire]
      | fails rv => cases rv <;> simp [acquire]

theorem refs_insert (pre post : Entries) (ent : Entry) :
    ((ent.buf.owner, ent.allocatorOwned) :: refs (pre ++ post)).Perm (refs (pre ++ ent :: post)) := by
  simp only [refs, free, List.map_append, List.map_cons]
  exact List.perm_middle.symm

theorem entries_setReorder (strm : Strm) (entries : Entries) :
    ({ strm with reorder := some entries } : Strm).entries = entries := rfl

/-- A reference that is both held and released breaks the account. -/
theorem not_accounted_of_held {stats : BufStats} {held : List Ref} {r : Ref} (hm : r ∈ held) {rel : Release}
    (ho : rel.1.owner = r.1) : ¬ Accounted (connReorderRelease stats rel) held := by
  intro h
  have hc := h.once r.1
  have h₁ : 0 < (connReorderRelease stats rel).released.count r.1 := by
    rw [List.count_pos_iff]
    simp [connReorderRelease, ho]
  have h₂ : 0 < (held.map Prod.fst).count r.1 := by
    rw [List.count_pos_iff]
    exact List.mem_map_of_mem hm
  split at hc <;> omega

/-- Reordered data is accounted for exactly when a new entry finds room below the limit. -/
theorem recvReordering_accounted_iff {stats : BufStats} {strm : Strm} {data : List UInt8} {offset : Nat}
    {env : ReorderEnv} (hacc : Accounted stats (refs strm.entries)) (hwf : strm.RxWF)
    (hfew : strm.entries.length < Strm.maxFragments) (hoff : offset < 2 ^ 64) (hlen : data.length < 2 ^ 64) :
    Accounted (connRecvReordering stats strm data offset env).stats
        (refs (connRecvReordering stats strm data offset env).strm.entries) ↔
      (AddsEntry strm data offset env → strm.entries.length + 1 < Strm.maxFragments) := by
  have hacq := acquire_accounted hacc data env.source
  rcases acquire_cases stats data env.source with ⟨owned, stats', heq, hsrc⟩ | ⟨rv, stats', heq, hsrc⟩
  · simp only [heq] at hacq
    simp only [connRecvReordering, heq]
    by_cases hlist : strm.reorder = none ∧ env.listMem = false
    · -- the list cannot be created: the caller releases the reference it has just taken
      have hno : ¬ AddsEntry strm data offset env := fun h => h.2.1.elim (fun hn => hn hlist.1) (by simp [hlist.2])
      simp only [Strm.recvReorderingBuf, if_pos hlist]
      exact iff_of_true hacq.1.release (fun h => absurd h hno)
    · simp only [Strm.recvReorderingBuf, if_neg hlist]
      have hblen : (⟨stats.taken, data⟩ : Buf).len < 2 ^ 64 := hlen
      have hout := push_outcome owned env.entryMem hwf hoff hblen
      generalize push strm.entries ⟨stats.taken, data⟩ offset strm.contOffset owned env.entryMem = r at hout
      cases hout with
      | overflow h =>
          have hno : ¬ AddsEntry strm data offset env := fun ha => absurd ha.2.2.2.1 (not_lt.mpr h)
          exact iff_of_true hacq.1.release (fun h => absurd h hno)
      | dropped n hlt h =>
          have hno : ¬ AddsEntry strm data offset env := fun ha => ha.2.2.2.2.elim h
          have hfrag : Strm.heavilyFragmented strm.entries = false := by
            simp only [Strm.heavilyFragmented, decide_eq_false_iff_not]
            omega
          refine iff_of_true ?_ (fun h => absurd h hno)
          simp only [ne_eq, not_true_eq_false, if_false, hfrag, Bool.false_eq_true]
          have hrel : Accounted (connReorderReleaseAll stats' [((⟨stats.taken, data⟩ : Buf).advance n, owned)])
              (refs strm.entries) := hacq.1.release
          cases owned
          · exact hrel
          · exact hrel.of_eq rfl rfl rfl rfl
      | noMemory buf' howner hlt hm h =>
          have hno : ¬ AddsEntry strm data offset env := fun ha => by simp [ha.2.2.1] at hm
          refine iff_of_true ?_ (fun h => absurd h hno)
          simp only [ne_eq, reduceCtorEq, not_false_eq_true, if_true]
          have hacq' : Accounted stats' (ref (buf', owned) :: refs strm.entries) := by
            simpa only [ref, howner] using hacq.1
          exact hacq'.release
      | inserted pre post b e hlt hm hsplit hob hcb hbe hend hw hbefore hin hstop =>
          have hadds : AddsEntry strm data offset env :=
            ⟨hsrc, by by_contra hcon; simp only [not_or, not_not, Bool.not_eq_true] at hcon; exact hlist hcon,
              hm, hlt, b, hob, by simp only [Buf.len] at hend; omega, hcb, hin b (le_refl _) hbe⟩
          have hcount : (pre ++ cutEntry ⟨stats.taken, data⟩ offset b e owned :: post).length =
              strm.entries.length + 1 := by
            simp [hsplit]
            omega
          have hheld : Accounted stats' (refs (pre ++ cutEntry ⟨stats.taken, data⟩ offset b e owned :: post)) := by
            have hacq' := hacq.1
            rw [hsplit] at hacq'
            exact hacq'.perm (refs_insert pre post (cutEntry ⟨stats.taken, data⟩ offset b e owned))
          simp only [ne_eq, not_true_eq_false, if_false]
          by_cases hroom : strm.entries.length + 1 < Strm.maxFragments
          · have hfrag : Strm.heavilyFragmented (pre ++ cutEntry ⟨stats.taken, data⟩ offset b e owned :: post) =
                false := by
              simp only [Strm.heavilyFragmented, decide_eq_false_iff_not, hcount]
              omega
            refine iff_of_true ?_ (fun _ => hroom)
            simp only [hfrag, Bool.false_eq_true, if_false, not_true_eq_false]
            cases owned
            · exact hheld
            · exact hheld.of_eq rfl rfl rfl rfl
          · -- the new entry stays in the list while the caller releases its buffer
            have hfrag : Strm.heavilyFragmented (pre ++ cutEntry ⟨stats.taken, data⟩ offset b e owned :: post) =
                true := by
              simp only [Strm.heavilyFragmented, decide_eq_true_eq, hcount]
              omega
            refine iff_of_false ?_ (fun h => hroom (h hadds))
            simp only [hfrag, if_true, reduceCtorEq, not_false_eq_true, entries_setReorder]
            refine not_accounted_of_held (r := (stats.taken, owned)) ?_ rfl
            simp [refs, free, ref, Entry.release, cutEntry, Buf.advance, Buf.truncate]
  · simp only [heq] at hacq
    simp only [connRecvReordering, heq]
    exact iff_of_true hacq (fun h => absurd h.1 hsrc)

/-- The stream after `conn_recv_reordering`: untouched, or with the frame pushed on its list. -/
theorem connRecvReordering_strm (stats : BufStats) (strm : Strm) (data : List UInt8) (offset : Nat)
    (env : ReorderEnv) :
    (connRecvReordering stats strm data offset env).strm = strm ∨
      (env.source = .packet .ok ∨ env.source = .other .done) ∧ (strm.reorder ≠ none ∨ env.listMem = true) ∧
      ∃ buf owned, buf.bytes = data ∧ (connRecvReordering stats strm data offset env).strm =
        { strm with reorder := some (push strm.entries buf offset strm.contOffset owned env.entryMem).entries } := by
  rcases acquire_cases stats data env.source with ⟨owned, stats', heq, hsrc⟩ | ⟨rv, stats', heq, -⟩
  · simp only [connRecvReordering, heq]
    by_cases hlist : strm.reorder = none ∧ env.listMem = false
    · left
      simp only [Strm.recvReorderingBuf, if_pos hlist]
      simp
    · right
      refine ⟨hsrc, ?_, ⟨stats.taken, data⟩, owned, rfl, ?_⟩
      · by_contra hcon
        simp only [not_or, not_not, Bool.not_eq_true] at hcon
        exact hlist hcon
      · simp only [Strm.recvReorderingBuf, if_neg hlist]
        split_ifs <;> rfl
  · left
    simp only [connRecvReordering, heq]

theorem connRecvReordering_flags (stats : BufStats) (strm : Strm) (data : List UInt8) (offset : Nat)
    (env : ReorderEnv) :
    (connRecvReordering stats strm data offset env).strm =
      { strm with reorder := (connRecvReordering stats strm data offset env).strm.reorder } := by
  rcases connRecvReordering_strm stats strm data offset env with heq | ⟨-, -, buf, owned, -, heq⟩
  · rw [heq]
  · rw [heq]

theorem push_length {entries : Entries} {buf : Buf} {offset contOffset : Nat} (allocatorOwned mem : Bool)
    (hwf : WF contOffset entries) (hoff : offset < 2 ^ 64) (hlen : buf.len < 2 ^ 64) :
    (push entries buf offset contOffset allocatorOwned mem).entries.length = entries.length ∨
      mem = true ∧ offset + buf.len < 2 ^ 64 ∧ (∃ o, Wanted entries contOffset offset buf.len o) ∧
      (push entries buf offset contOffset allocatorOwned mem).entries.length = entries.length + 1 := by
  have hout := push_outcome allocatorOwned mem hwf hoff hlen
  generalize push entries buf offset contOffset allocatorOwned mem = r at hout
  cases hout with
  | overflow | noMemory | dropped => exact Or.inl rfl
  | inserted pre post b e hlt hm hsplit hob hcb hbe hend hw hbefore hin hstop =>
      refine Or.inr ⟨hm, hlt, ⟨b, hob, by omega, hcb, hin b (le_refl _) hbe⟩, ?_⟩
      simp [hsplit]
      omega

theorem recvReordering_wf (stats : BufStats) {strm : Strm} {data : List UInt8} {offset : Nat} {env : ReorderEnv}
    (hwf : strm.RxWF) (hfew : strm.entries.length < Strm.maxFragments) (hoff : offset < 2 ^ 64)
    (hlen : data.length < 2 ^ 64)
    (hroom : AddsEntry strm data offset env → strm.entries.length + 1 < Strm.maxFragments) :
    (connRecvReordering stats strm data offset env).strm.RxWF ∧
      (connRecvReordering stats strm data offset env).strm.entries.length < Strm.maxFragments := by
  rcases connRecvReordering_strm stats strm data offset env with heq | ⟨hsrc, hlist, buf, owned, hbytes, heq⟩
  · rw [heq]
    exact ⟨hwf, hfew⟩
  · have hblen : buf.len < 2 ^ 64 := by rw [Buf.len, hbytes]; exact hlen
    rw [heq]
    refine ⟨push_wf owned env.entryMem hwf hoff hblen, ?_⟩
    rw [entries_setReorder]
    rcases push_length owned env.entryMem hwf hoff hblen with hl | ⟨hm, hlt, hw, hl⟩
    · rw [hl]
      exact hfew
    · rw [hl]
      rw [Buf.len, hbytes] at hlt hw
      exact hroom ⟨hsrc, hlist, hm, hlt, hw⟩

theorem removePrefix_length (entries : Entries) (offset : Nat) :
    (removePrefix entries offset).1.length ≤ entries.length := by
  induction entries with
  | nil => simp [removePrefix]
  | cons ent rest ih =>
      rw [removePrefix]
      split
      · exact le_refl _
      · split
        · simp
        · simp only [List.length_cons]
          omega

/-- An emission pops the head when it starts at the consumed prefix, and does nothing otherwise. -/
theorem emitOne_cases {strm : Strm} (hwf : strm.RxWF) :
    emitOne strm = .ok (strm, []) ∨
      ∃ ent rest, strm.reorder = some (ent :: rest) ∧ ent.range.begin = strm.contOffset ∧
        emitOne strm = .ok ({ strm with
          reorder := some rest, contOffset := strm.contOffset + (ent.range.endOff - strm.contOffset) }, [ent.release]) := by
  cases hr : strm.reorder with
  | none => exact Or.inl (by simp only [emitOne, hr])
  | some reorder =>
      cases reorder with
      | nil => exact Or.inl (by simp only [emitOne, hr, dataAt])
      | cons ent rest =>
          have hw : WF strm.contOffset (ent :: rest) := by simpa [Strm.RxWF, Strm.entries, hr] using hwf
          have hdata := dataAt_head hw
          by_cases hb : ent.range.begin = strm.contOffset
          · rw [if_pos hb] at hdata
            exact Or.inr ⟨ent, rest, rfl, hb, by simp only [emitOne, hr, hdata, pop_head hw hb]⟩
          · rw [if_neg hb] at hdata
            exact Or.inl (by simp only [emitOne, hr, hdata])

/-- The invariant of the runs of one stream. -/
structure Inv (st : St) : Prop where
  accounted : Accounted st.stats (refs st.entries)
  wf : ∀ strm, st.strm = some strm → strm.RxWF
  few : st.entries.length < Strm.maxFragments

theorem init_inv (strm : Strm) : Inv (init strm) :=
  ⟨⟨fun _ => rfl, rfl⟩, by rintro _ ⟨⟩; trivial, by simp [init, St.entries, Strm.entries, Strm.maxFragments]⟩

theorem step_inv (st : St) (op : RxOp) (hinv : Inv st) (hg : Guard st op) : ∃ st', step st op = .ok st' ∧ Inv st' := by
  obtain ⟨strm, stats⟩ := st
  cases strm with
  | none => exact ⟨_, rfl, hinv⟩
  | some strm =>
      obtain ⟨hv, hroom⟩ := hg strm rfl
      have hacc : Accounted stats (refs strm.entries) := hinv.accounted
      have hwf : strm.RxWF := hinv.wf strm rfl
      have hfew : strm.entries.length < Strm.maxFragments := hinv.few
      cases op with
      | recvReordering data offset env =>
          obtain ⟨hw, hl⟩ := recvReordering_wf stats hwf hfew hv.1 hv.2 hroom
          refine ⟨_, rfl, (recvReordering_accounted_iff hacc hwf hfew hv.1 hv.2).mpr hroom, ?_, hl⟩
          rintro _ ⟨⟩
          exact hw
      | emit =>
          rcases emitOne_cases hwf with heq | ⟨ent, rest, hr, hb, heq⟩
          · exact ⟨⟨some strm, stats⟩, by simp only [step, stepStrm, heq]; rfl, hinv⟩
          · have hent : strm.entries = ent :: rest := by simp [Strm.entries, hr]
            have hw : WF strm.contOffset (ent :: rest) := by rw [← hent]; exact hwf
            rw [hent] at hacc hfew
            refine ⟨⟨some _, connReorderReleaseAll stats [ent.release]⟩, by simp only [step, stepStrm, heq]; rfl, ?_, ?_, ?_⟩
            · exact hacc.release
            · rintro _ ⟨⟩
              have hlt := hw.2.1.1
              have hend : strm.contOffset + (ent.range.endOff - strm.contOffset) = ent.range.endOff := by omega
              simpa only [Strm.RxWF, Strm.entries, Option.getD_some, hend] using hw.2.2
            · simp only [St.entries, Strm.entries, Option.map_some, Option.getD_some]
              simp only [List.length_cons] at hfew
              omega
      | updateRxOffset offset =>
          refine ⟨_, rfl, ?_, ?_, ?_⟩
          · have hsplit := refs_removePrefix strm.entries offset
            rw [hsplit] at hacc
            simp only [St.entries, Option.map_some, Option.getD_some, Strm.updateRxOffset_entries,
              Strm.updateRxOffset_released]
            exact hacc.releaseAll
          · rintro _ ⟨⟩
            exact Strm.updateRxOffset_wf hwf hv
          · simp only [St.entries, Option.map_some, Option.getD_some, Strm.updateRxOffset_entries]
            exact lt_of_le_of_lt (removePrefix_length _ _) hfew
      | discard =>
          refine ⟨_, rfl, ?_, ?_, ?_⟩
          · rw [← List.append_nil (refs strm.entries)] at hacc
            cases hr : strm.reorder with
            | none => simpa [Strm.discardReorderedData, hr, St.entries, connReorderReleaseAll] using hinv.accounted
            | some reorder =>
                simp only [Strm.entries, hr, Option.getD_some] at hacc
                simpa [Strm.discardReorderedData, hr, St.entries, Strm.entries, refs, free] using hacc.releaseAll
          · rintro _ ⟨⟩
            cases hr : strm.reorder with
            | none => simpa [Strm.discardReorderedData, hr] using hwf
            | some reorder => simp [Strm.discardReorderedData, hr, Strm.RxWF, Strm.entries, WF]
          · cases hr : strm.reorder with
            | none => simpa [Strm.discardReorderedData, hr, St.entries] using hfew
            | some reorder => simp [Strm.discardReorderedData, hr, St.entries, Strm.entries, Strm.maxFragments]
      | delete =>
          refine ⟨_, rfl, ?_, by rintro _ ⟨⟩, by simp [St.entries, Strm.maxFragments]⟩
          rw [← List.append_nil (refs strm.entries)] at hacc
          exact hacc.releaseAll

/-- In every run of a stream in which no entry is added at the fragment limit, no assertion fires,
and every reference taken for reordered data is released once, after its entry has left the list. -/
theorem run_released_once (strm : Strm) (ops : List RxOp) (hops : Guarded step Guard (init strm) ops) :
    ∃ st, run step (init strm) ops = .ok st ∧ Accounted st.stats (refs st.entries) ∧
      (st.strm = none → ∀ id, st.stats.released.count id = if id < st.stats.taken then 1 else 0) := by
  obtain ⟨st, hrun, hinv⟩ := run_invariant step_inv (init_inv strm) hops
  refine ⟨st, hrun, hinv.accounted, fun hdel id => ?_⟩
  have honce := hinv.accounted.once id
  simpa [St.entries, hdel, refs, free] using honce

def idle : Strm :=
  ⟨0, 10000, 10000, 0, 0, none, false, false, false, false, false, false, false⟩

/-- A copied fragment, a retained one that overlaps it, an in-order advance, an emission and the
deletion of the stream. -/
theorem run_released_once_overlap :
    ∃ st, run step (init idle) [.recvReordering [1, 2] 12 ⟨.other .done, true, true⟩,
        .recvReordering [0, 1, 2] 11 ⟨.packet .ok, true, true⟩, .updateRxOffset 11, .emit, .delete] = .ok st ∧
      Accounted st.stats (refs st.entries) ∧
      (st.strm = none → ∀ id, st.stats.released.count id = if id < st.stats.taken then 1 else 0) := by
  refine run_released_once idle _ ⟨?_, fun st₁ h₁ => ⟨?_, fun st₂ h₂ => ⟨?_, fun st₃ h₃ => ⟨?_, fun st₄ h₄ => ⟨?_, ?_⟩⟩⟩⟩⟩
  · rintro _ ⟨⟩
    exact ⟨by simp [Valid], fun _ => by simp [Strm.entries, Strm.maxFragments]⟩
  · cases h₁
    rintro _ ⟨⟩
    exact ⟨by simp [Valid], fun _ => by decide⟩
  · cases h₁
    cases h₂
    rintro _ ⟨⟩
    exact ⟨by simp [Valid]; decide, trivial⟩
  · exact fun _ _ => ⟨trivial, trivial⟩
  · exact fun _ _ => ⟨trivial, trivial⟩
  · exact fun _ _ => trivial

/-- One-byte fragments at even offsets, from the highest down. -/
def fragmentOp (n : Nat) : RxOp :=
  .recvReordering [0] (8000 - 2 * n) ⟨.other .done, true, true⟩

def fragmentEntries : Nat → Entries
  | 0 => []
  | n + 1 => ⟨⟨8000 - 2 * n, 8001 - 2 * n⟩, ⟨n, [0]⟩, true⟩ :: fragmentEntries n

def fragmentStrm (n : Nat) : Strm :=
  { idle with reorder := if n = 0 then none else some (fragmentEntries n) }

def fragmentSt (n : Nat) : St :=
  ⟨some (fragmentStrm n), { taken := n, reorderCopy := n }⟩

theorem fragment_push {n : Nat} (hn : n < 4000) :
    push (fragmentEntries n) ⟨n, [0]⟩ (8000 - 2 * n) 0 true true =
      ⟨.ok, fragmentEntries (n + 1), ⟨n, [0]⟩, [], 1⟩ := by
  have hend : (8000 - 2 * n + (⟨n, [0]⟩ : Buf).len) % 2 ^ 64 = 8001 - 2 * n := by
    simp only [Buf.len, List.length_singleton]
    omega
  have hloop : pushLoop (fragmentEntries n) (8000 - 2 * n) (8001 - 2 * n) 0 =
      .place [] (fragmentEntries n) (8000 - 2 * n) (8001 - 2 * n) 0 := by
    cases n with
    | zero => rfl
    | succ n =>
        simp only [fragmentEntries, pushLoop]
        rw [if_neg (by omega), if_pos (by omega)]
  rw [push, hend, if_neg (by omega), if_neg (by omega)]
  have hlen : 8001 - 2 * n - (8000 - 2 * n) = 1 := by omega
  simp only [Nat.max_zero, hloop, if_neg (by omega : ¬ 8000 - 2 * n = 8001 - 2 * n), hlen]
  simp [Buf.advance, Buf.truncate, fragmentEntries]

theorem fragmentEntries_length (n : Nat) : (fragmentEntries n).length = n := by
  induction n with
  | zero => rfl
  | succ n ih => simp [fragmentEntries, ih]

theorem fragmentStrm_entries (n : Nat) : (fragmentStrm n).entries = fragmentEntries n := by
  cases n with
  | zero => rfl
  | succ n => simp [fragmentStrm, Strm.entries]

theorem fragmentStrm_succ (n : Nat) :
    { fragmentStrm n with reorder := some (fragmentEntries (n + 1)) } = fragmentStrm (n + 1) := by
  simp [fragmentStrm]

/-- A fragment on top of `n` others: the buffer is kept, and released as well from the limit on. -/
theorem fragment_recv {n : Nat} (hn : n < 4000) :
    step (fragmentSt n) (fragmentOp n) =
      .ok (if n + 1 < Strm.maxFragments then fragmentSt (n + 1)
        else ⟨(fragmentSt (n + 1)).strm, { taken := n + 1, released := [n], reorderCopy := n }⟩) := by
  have hcont : (fragmentStrm n).contOffset = 0 := rfl
  simp only [step, fragmentSt, fragmentOp, stepStrm, connRecvReordering, acquire, Strm.recvReorderingBuf,
    Bool.true_eq_false, and_false, if_false, fragmentStrm_entries, hcont, fragment_push hn, Strm.heavilyFragmented,
    fragmentEntries_length, decide_eq_true_eq]
  by_cases hlim : n + 1 < Strm.maxFragments
  · simp [hlim, not_le.mpr hlim, connReorderReleaseAll]
    exact fragmentStrm_succ n
  · simp [hlim, not_lt.mp hlim, connReorderReleaseAll, connReorderRelease]
    exact fragmentStrm_succ n

theorem fragment_run {n : Nat} (hn : n < Strm.maxFragments) :
    run step (init idle) ((List.range n).map fragmentOp) = .ok (fragmentSt n) := by
  have hmax : Strm.maxFragments = 4000 := rfl
  induction n with
  | zero => rfl
  | succ n ih =>
      have hstep := fragment_recv (n := n) (by omega)
      rw [if_pos hn] at hstep
      rw [List.range_succ, List.map_append, run_append, ih (by omega)]
      simp only [List.map_cons, List.map_nil, run_cons_ok hstep, run]

/-- The fragment that fills the list is released by the caller while its entry stays: a later
deletion of the stream releases it again. -/
theorem fragment_limit_released_twice :
    ¬ ∀ strm ops, Guarded step (fun st op => ∀ strm, st.strm = some strm → Valid strm op) (init strm) ops →
      ∃ st, run step (init strm) ops = .ok st ∧ Accounted st.stats (refs st.entries) := by
  intro h
  obtain ⟨n, hn⟩ : ∃ n, n + 1 = Strm.maxFragments := ⟨3999, rfl⟩
  have hmax : Strm.maxFragments = 4000 := rfl
  have hvalid : ∀ op ∈ (List.range (n + 1)).map fragmentOp, ∀ st : St, ∀ strm, st.strm = some strm → Valid strm op := by
    intro op hop st strm _
    obtain ⟨k, -, rfl⟩ := List.mem_map.mp hop
    exact ⟨by omega, by simp⟩
  obtain ⟨st, hrun, hacc⟩ := h idle _ (guarded_of_forall hvalid _)
  have hstep := fragment_recv (n := n) (by omega)
  rw [if_neg (by omega)] at hstep
  rw [List.range_succ, List.map_append, run_append, fragment_run (by omega)] at hrun
  simp only [List.map_cons, List.map_nil, run_cons_ok hstep, run] at hrun
  cases hrun
  have honce := hacc.once n
  have hheld : 0 < ((refs (fragmentEntries (n + 1))).map Prod.fst).count n := by
    rw [List.count_pos_iff]
    simp [fragmentEntries, refs, free, ref, Entry.release]
  simp only [St.entries, fragmentSt, Option.map_some, Option.getD_some, fragmentStrm_entries,
    List.count_singleton_self, Nat.lt_succ_self, if_true] at honce
  omega

end Zngtcp2.Release
