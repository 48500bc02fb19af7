import Zngtcp2.Conn.Release
import Zngtcp2.Reorder.Runs

namespace Zngtcp2.Reassembly

open Reorder Lib.Segment

/-- A piece of data with its offset: the payload of a frame, or the data of a callback call. -/
abbrev Chunk := Nat × List UInt8

structure SliceOf (S : List UInt8) (c : Chunk) : Prop where
  le : c.1 + c.2.length ≤ S.length
  data : c.2 = (S.drop c.1).take c.2.length

/-- The chunks carry consecutive data from `a` up to `b`. -/
def Consecutive : Nat → List Chunk → Nat → Prop
  | a, [], b => a = b
  | a, c :: cs, b => c.1 = a ∧ Consecutive (a + c.2.length) cs b

/-- The chunks passed on are, in order, the first `n` bytes of `S`. -/
structure Passed (S : List UInt8) (calls : List Chunk) (n : Nat) : Prop where
  le : n ≤ S.length
  consecutive : Consecutive 0 calls n
  bytes : (calls.map Prod.snd).flatten = S.take n

theorem passed_nil (S : List UInt8) : Passed S [] 0 :=
  ⟨Nat.zero_le _, rfl, by simp⟩

theorem Consecutive.append {a b : Nat} {cs : List Chunk} (h : Consecutive a cs b) {c : Chunk} (hc : c.1 = b) :
    Consecutive a (cs ++ [c]) (b + c.2.length) := by
  induction cs generalizing a with
  | nil =>
      have hab : a = b := h
      exact ⟨hc.trans hab.symm, by rw [hab]; rfl⟩
  | cons e cs ih => exact ⟨h.1, ih h.2⟩

theorem Consecutive.end_eq {a b : Nat} {cs : List Chunk} (h : Consecutive a cs b) :
    b = a + (cs.map (fun c => c.2.length)).sum := by
  induction cs generalizing a with
  | nil => exact h.symm
  | cons c cs ih => rw [ih h.2, List.map_cons, List.sum_cons, Nat.add_assoc]

theorem Passed.append {S : List UInt8} {calls : List Chunk} {n : Nat} (h : Passed S calls n) {c : Chunk}
    (hoff : c.1 = n) (hc : SliceOf S c) : Passed S (calls ++ [c]) (n + c.2.length) := by
  refine ⟨by rw [← hoff]; exact hc.le, h.consecutive.append hoff, ?_⟩
  have hdata := hc.data
  rw [hoff] at hdata
  rw [List.map_append, List.flatten_append, h.bytes, List.take_add]
  simp only [List.map_cons, List.map_nil, List.flatten_cons, List.flatten_nil, List.append_nil]
  rw [← hdata]

theorem SliceOf.segAt {S : List UInt8} {c : Chunk} (h : SliceOf S c) {o : Nat} {x : UInt8}
    (hx : segAt c.1 c.2 o = some x) : S[o]? = some x := by
  have hin := segAt_isSome.mp (by rw [hx]; rfl)
  rw [Lib.Segment.segAt, if_pos hin.1, h.data, List.getElem?_take, if_pos (by omega), List.getElem?_drop] at hx
  rwa [Nat.add_sub_cancel' hin.1] at hx

theorem SliceOf.drop {S : List UInt8} {c : Chunk} (h : SliceOf S c) {n : Nat} (hle : c.1 ≤ n)
    (hend : n ≤ c.1 + c.2.length) : SliceOf S (n, c.2.drop (n - c.1)) := by
  have hlen := h.le
  refine ⟨?_, ?_⟩
  · simp only [List.length_drop]
    omega
  · simp only [List.length_drop]
    conv_lhs => rw [h.data, List.drop_take, List.drop_drop]
    rw [Nat.add_sub_cancel' hle]

/-- A chunk whose bytes are those of `S` at their offsets. -/
theorem sliceOf_of_segAt {S : List UInt8} {c : Chunk} (hle : c.1 + c.2.length ≤ S.length)
    (h : ∀ o x, segAt c.1 c.2 o = some x → S[o]? = some x) : SliceOf S c := by
  refine ⟨hle, ?_⟩
  apply List.ext_getElem?
  intro i
  rw [List.getElem?_take]
  split
  · rename_i hi
    rw [List.getElem?_drop, List.getElem?_eq_getElem hi]
    refine (h (c.1 + i) _ ?_).symm
    rw [Lib.Segment.segAt, if_pos (by omega), Nat.add_sub_cancel_left, List.getElem?_eq_getElem hi]
  · rename_i hi
    exact List.getElem?_eq_none (by omega)

theorem inSomePush_append (arrived : List Chunk) (c : Chunk) (o : Nat) :
    InSomePush (arrived ++ [c]) o ↔ InSomePush arrived o ∨ c.1 ≤ o ∧ o < c.1 + c.2.length := by
  simp only [InSomePush, List.mem_append, List.mem_singleton]
  constructor
  · rintro ⟨f, hf | rfl, h⟩
    · exact Or.inl ⟨f, hf, h⟩
    · exact Or.inr h
  · rintro (⟨f, hf, h⟩ | h)
    · exact ⟨f, Or.inl hf, h⟩
    · exact ⟨c, Or.inr rfl, h⟩

/-- The consumed prefix and the list of the stream hold the bytes of `S` that have arrived, and no
others. -/
structure Holds (S : List UInt8) (arrived : List Chunk) (strm : Strm) : Prop where
  wf : strm.RxWF
  cont_le : strm.contOffset ≤ S.length
  bytes : ∀ o x, view strm.entries o = some x → S[o]? = some x
  covered : ∀ o, (o < strm.contOffset ∨ Covered strm.entries o) ↔ InSomePush arrived o
  few : strm.entries.length < Strm.maxFragments

/-- The first gap of the stream is the first byte that has not arrived. -/
theorem Holds.gap {S : List UInt8} {arrived : List Chunk} {strm : Strm} (h : Holds S arrived strm) :
    (∀ o, o < strm.rxOffset → InSomePush arrived o) ∧ ¬ InSomePush arrived strm.rxOffset := by
  rw [Strm.rxOffset_eq]
  obtain ⟨h₁, h₂, h₃⟩ := firstGapOffset_spec h.wf strm.contOffset
  refine ⟨fun o ho => (h.covered o).mp ?_, fun hc => ?_⟩
  · by_cases hlt : o < strm.contOffset
    · exact Or.inl hlt
    · exact Or.inr (h₂ o (by omega) ho)
  · rcases (h.covered _).mpr hc with hlt | hcov
    · omega
    · exact h₃ hcov

theorem Holds.rxOffset_le {S : List UInt8} {arrived : List Chunk} {strm : Strm} (h : Holds S arrived strm) :
    strm.rxOffset ≤ S.length := by
  rw [Strm.rxOffset_eq]
  obtain ⟨h₁, h₂, -⟩ := firstGapOffset_spec h.wf strm.contOffset
  rcases Nat.eq_or_lt_of_le h₁ with heq | hlt
  · rw [← heq]
    exact h.cont_le
  · obtain ⟨x, hx⟩ := Option.isSome_iff_exists.mp (h₂ (firstGapOffset strm.entries strm.contOffset - 1) (by omega) (by omega))
    have := (List.getElem?_eq_some_iff.mp (h.bytes _ x hx)).1
    omega

/-- Only the consumed prefix and the list matter. -/
theorem Holds.congr {S : List UInt8} {arrived : List Chunk} {strm strm' : Strm} (h : Holds S arrived strm)
    (hcont : strm'.contOffset = strm.contOffset) (hre : strm'.reorder = strm.reorder) : Holds S arrived strm' := by
  have hent : strm'.entries = strm.entries := by rw [Strm.entries, Strm.entries, hre]
  refine ⟨?_, by rw [hcont]; exact h.cont_le, by rw [hent]; exact h.bytes, ?_, by rw [hent]; exact h.few⟩
  · rw [Strm.RxWF, hcont, hent]
    exact h.wf
  · rw [hcont, hent]
    exact h.covered

theorem rxOffset_congr {strm strm' : Strm} (hcont : strm'.contOffset = strm.contOffset)
    (hre : strm'.reorder = strm.reorder) : strm'.rxOffset = strm.rxOffset := by
  rw [Strm.rxOffset, Strm.rxOffset, hcont, hre]

/-- A chunk with no byte above the first gap brings nothing new. -/
theorem Holds.duplicate {S : List UInt8} {arrived : List Chunk} {strm : Strm} (h : Holds S arrived strm) {c : Chunk}
    (hend : c.2 = [] ∨ c.1 + c.2.length ≤ strm.rxOffset) : Holds S (arrived ++ [c]) strm := by
  refine ⟨h.wf, h.cont_le, h.bytes, fun o => ?_, h.few⟩
  rw [inSomePush_append, h.covered]
  refine ⟨Or.inl, ?_⟩
  rintro (ha | ⟨h₁, h₂⟩)
  · exact ha
  · rcases hend with hnil | hend
    · rw [hnil, List.length_nil] at h₂
      omega
    · exact h.gap.1 o (by omega)

/-- The consumed prefix moves to the end of a chunk that starts at or below the first gap. -/
theorem Holds.take {S : List UInt8} {arrived : List Chunk} {strm : Strm} (h : Holds S arrived strm) {c : Chunk}
    (hc : SliceOf S c) (hoff : c.1 ≤ strm.rxOffset) (hgap : strm.rxOffset = strm.contOffset)
    (hend : strm.rxOffset ≤ c.1 + c.2.length) :
    Holds S (arrived ++ [c]) (strm.updateRxOffset (c.1 + c.2.length)).1 := by
  have hle := hc.le
  refine ⟨Strm.updateRxOffset_wf h.wf (by omega), ?_, ?_, fun o => ?_, ?_⟩
  · rw [Strm.updateRxOffset_contOffset]
    exact hle
  · intro o x hx
    rw [Strm.updateRxOffset_entries, removePrefix_view h.wf, restrict] at hx
    split at hx
    · exact h.bytes o x hx
    · cases hx
  · rw [inSomePush_append, Strm.updateRxOffset_contOffset, Strm.updateRxOffset_entries, Covered,
      removePrefix_view h.wf, restrict, ← h.covered]
    split
    · rename_i ho
      constructor
      · rintro (hlt | hcov)
        · omega
        · exact Or.inl (Or.inr hcov)
      · rintro ((hlt | hcov) | hin)
        · omega
        · exact Or.inr hcov
        · omega
    · rename_i ho
      refine iff_of_true (Or.inl (by omega)) ?_
      by_cases hlt : o < strm.contOffset
      · exact Or.inl (Or.inl hlt)
      · exact Or.inr ⟨by omega, by omega⟩
  · rw [Strm.updateRxOffset_entries]
    exact lt_of_le_of_lt (Release.removePrefix_length _ _) h.few

/-- The entry at the consumed prefix holds bytes of `S`, and popping it keeps what has arrived. -/
theorem Holds.pop {S : List UInt8} {arrived : List Chunk} {strm : Strm} (h : Holds S arrived strm) {ent : Entry}
    {rest : Entries} (hr : strm.reorder = some (ent :: rest)) (hb : ent.range.begin = strm.contOffset) :
    SliceOf S (strm.contOffset, ent.buf.bytes) ∧
      Holds S arrived { strm with reorder := some rest, contOffset := ent.range.endOff } := by
  have hent : strm.entries = ent :: rest := by simp [Strm.entries, hr]
  have hrest : ({ strm with reorder := some rest, contOffset := ent.range.endOff } : Strm).entries = rest := rfl
  have hw : WF strm.contOffset (ent :: rest) := by
    rw [← hent]
    exact h.wf
  have hlt := hw.2.1.1
  have hlen : ent.buf.bytes.length = ent.range.endOff - ent.range.begin := hw.2.1.2
  have hbytes : ∀ o x, segAt strm.contOffset ent.buf.bytes o = some x → S[o]? = some x := by
    intro o x hx
    apply h.bytes o x
    rw [hent, view, overlay, hb, hx, Option.some_or]
  have hend : ent.range.endOff ≤ S.length := by
    have hs := segAt_isSome.mpr (⟨by omega, by omega⟩ : strm.contOffset ≤ ent.range.endOff - 1 ∧
      ent.range.endOff - 1 < strm.contOffset + ent.buf.bytes.length)
    obtain ⟨x, hx⟩ := Option.isSome_iff_exists.mp hs
    have := (List.getElem?_eq_some_iff.mp (hbytes _ x hx)).1
    omega
  refine ⟨sliceOf_of_segAt (by simp only; omega) hbytes, hw.2.2, hend, ?_, fun o => ?_, ?_⟩
  · intro o x hx
    apply h.bytes o x
    have hn : segAt ent.range.begin ent.buf.bytes o = none := by
      rw [segAt_eq_none]
      by_contra hcon
      have hnone := view_below hw.2.2 (o := o) (by omega)
      rw [hrest] at hx
      rw [hnone] at hx
      cases hx
    rw [hent, view, overlay, hn, Option.none_or]
    exact hx
  · rw [← h.covered, hent, covered_cons hw, hrest]
    by_cases hc : Covered rest o
    · exact iff_of_true (Or.inr hc) (Or.inr (Or.inr hc))
    · simp only [hc, or_false]
      omega
  · have hf := h.few
    rw [hent, List.length_cons] at hf
    rw [hrest]
    omega

/-- No allocation fails while a frame is buffered. -/
structure Supplied (env : ReorderEnv) : Prop where
  source : env.source = .packet .ok ∨ env.source = .other .done
  list : env.listMem = true
  entry : env.entryMem = true

/-- With the wanted bytes of a frame contiguous and room for one more entry, buffering the frame
adds what it carries. -/
theorem Holds.recvReordering {S : List UInt8} {arrived : List Chunk} {strm : Strm} (h : Holds S arrived strm)
    (stats : BufStats) {data : List UInt8} {offset : Nat} {env : ReorderEnv} (hc : SliceOf S (offset, data))
    (hlt : offset + data.length < 2 ^ 64) (henv : Supplied env)
    (hcontig : Contiguous strm.entries strm.contOffset offset data.length)
    (hroom : (∃ o, Wanted strm.entries strm.contOffset offset data.length o) →
      strm.entries.length + 1 < Strm.maxFragments) :
    (connRecvReordering stats strm data offset env).rv = .ok ∧
      Holds S (arrived ++ [(offset, data)]) (connRecvReordering stats strm data offset env).strm := by
  obtain ⟨hsrc, hlist, hentry⟩ := henv
  rcases Release.acquire_cases stats data env.source with ⟨owned, stats', hacq, -⟩ | ⟨rv, stats', -, hn⟩
  · have hlen : (⟨stats.taken, data⟩ : Buf).len = data.length := rfl
    have hoff : offset < 2 ^ 64 := by omega
    have hdlen : (⟨stats.taken, data⟩ : Buf).len < 2 ^ 64 := by rw [hlen]; omega
    have hout := push_outcome owned env.entryMem h.wf hoff hdlen
    have hadds := push_adds_iff owned env.entryMem h.wf hoff hdlen
    have hwf := push_wf owned env.entryMem h.wf hoff hdlen
    have hcount := Release.push_length owned env.entryMem h.wf hoff hdlen
    have hok : (push strm.entries ⟨stats.taken, data⟩ offset strm.contOffset owned env.entryMem).rv = .ok := by
      generalize push strm.entries ⟨stats.taken, data⟩ offset strm.contOffset owned env.entryMem = r at hout
      cases hout with
      | overflow ho =>
          rw [hlen] at ho
          omega
      | noMemory _ _ _ hm =>
          rw [hentry] at hm
          cases hm
      | dropped | inserted => rfl
    have hview := (hadds hok).mpr hcontig
    have hfew : (push strm.entries ⟨stats.taken, data⟩ offset strm.contOffset owned env.entryMem).entries.length <
        Strm.maxFragments := by
      rcases hcount with hsame | ⟨-, -, hw, hone⟩
      · rw [hsame]
        exact h.few
      · rw [hone]
        exact hroom hw
    simp only [connRecvReordering, hacq, Strm.recvReorderingBuf, hlist, and_false, if_false, Bool.true_eq_false]
    generalize push strm.entries ⟨stats.taken, data⟩ offset strm.contOffset owned env.entryMem = r at hok hview hfew hwf
    have hfrag : Strm.heavilyFragmented r.entries = false := by
      simp only [Strm.heavilyFragmented, decide_eq_false_iff_not]
      omega
    have hholds : Holds S (arrived ++ [(offset, data)]) { strm with reorder := some r.entries } := by
      refine ⟨hwf, h.cont_le, ?_, fun o => ?_, hfew⟩
      · intro o x hx
        rw [Release.entries_setReorder] at hx
        by_cases ho : strm.contOffset ≤ o
        · rw [hview o ho, overlay, Option.or_eq_some_iff] at hx
          rcases hx with hx | ⟨-, hx⟩
          · exact h.bytes o x hx
          · exact hc.segAt hx
        · rw [view_below hwf (by omega)] at hx
          cases hx
      · rw [inSomePush_append, ← h.covered, Release.entries_setReorder]
        by_cases ho : strm.contOffset ≤ o
        · rw [Covered, hview o ho, overlay_isSome, segAt_isSome, Covered, or_assoc]
        · exact iff_of_true (Or.inl (by simp only; omega)) (Or.inl (Or.inl (by omega)))
    simp only [hok, ne_eq, not_true_eq_false, if_false, hfrag, Bool.false_eq_true]
    cases owned
    · exact ⟨rfl, hholds⟩
    · exact ⟨rfl, hholds⟩
  · exact absurd hsrc hn

end Zngtcp2.Reassembly
