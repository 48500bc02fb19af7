import Zngtcp2.Reorder.Model

namespace Zngtcp2.Reorder

open Lib.Segment

/-- The bytes a list of entries gives to the stream offsets. -/
def view : Entries → Nat → Option UInt8
  | [] => fun _ => none
  | ent :: rest => overlay (segAt ent.range.begin ent.buf.bytes) (view rest)

def Entry.WF (ent : Entry) : Prop :=
  ent.range.begin < ent.range.endOff ∧ ent.buf.len = ent.range.endOff - ent.range.begin

/-- The entries are nonempty, hold as many bytes as their ranges have offsets, and follow each
other without overlap from `lo` on. -/
def WF : Nat → Entries → Prop
  | _, [] => True
  | lo, ent :: rest => lo ≤ ent.range.begin ∧ ent.WF ∧ WF ent.range.endOff rest

def Covered (entries : Entries) (o : Nat) : Prop :=
  (view entries o).isSome

instance (entries : Entries) (o : Nat) : Decidable (Covered entries o) :=
  inferInstanceAs (Decidable (_ = true))

theorem Entry.WF.segAt_isSome {ent : Entry} (h : ent.WF) (o : Nat) :
    (segAt ent.range.begin ent.buf.bytes o).isSome ↔ ent.range.begin ≤ o ∧ o < ent.range.endOff := by
  have hlen : ent.buf.bytes.length = ent.range.endOff - ent.range.begin := h.2
  have hlt := h.1
  rw [Lib.Segment.segAt_isSome, hlen]
  omega

theorem overlay_isSome (m n : Nat → Option UInt8) (o : Nat) :
    (overlay m n o).isSome ↔ (m o).isSome ∨ (n o).isSome := by
  simp [overlay]

theorem covered_cons {lo : Nat} {ent : Entry} {rest : Entries} (h : WF lo (ent :: rest)) (o : Nat) :
    Covered (ent :: rest) o ↔ (ent.range.begin ≤ o ∧ o < ent.range.endOff) ∨ Covered rest o := by
  rw [Covered, view, overlay_isSome, h.2.1.segAt_isSome, Covered]

theorem covered_iff {lo : Nat} {entries : Entries} (h : WF lo entries) (o : Nat) :
    Covered entries o ↔ ∃ ent ∈ entries, ent.range.begin ≤ o ∧ o < ent.range.endOff := by
  induction entries generalizing lo with
  | nil => simp [Covered, view]
  | cons ent rest ih =>
      rw [covered_cons h, ih h.2.2]
      simp only [List.mem_cons, exists_eq_or_imp]

theorem view_eq_none_of_not_covered {entries : Entries} {o : Nat} (h : ¬ Covered entries o) :
    view entries o = none :=
  Option.not_isSome_iff_eq_none.mp h

theorem WF.mono {lo lo' : Nat} {entries : Entries} (h : WF lo entries) (hle : lo' ≤ lo) : WF lo' entries := by
  cases entries with
  | nil => trivial
  | cons ent rest => exact ⟨hle.trans h.1, h.2⟩

theorem WF.not_covered_below {lo : Nat} {entries : Entries} (h : WF lo entries) {o : Nat} (ho : o < lo) :
    ¬ Covered entries o := by
  induction entries generalizing lo with
  | nil => simp [Covered, view]
  | cons ent rest ih =>
      have hlt := h.2.1.1
      have hle := h.1
      rw [covered_cons h]
      rintro (hin | hrest)
      · omega
      · exact ih h.2.2 (by omega) hrest

theorem WF.pairwise {lo : Nat} {entries : Entries} (h : WF lo entries) :
    entries.Pairwise (fun a b => a.range.endOff ≤ b.range.begin) ∧
      ∀ ent ∈ entries, lo ≤ ent.range.begin ∧ ent.WF := by
  induction entries generalizing lo with
  | nil => exact ⟨List.Pairwise.nil, by simp⟩
  | cons ent rest ih =>
      obtain ⟨hp, hall⟩ := ih h.2.2
      refine ⟨List.pairwise_cons.mpr ⟨fun b hb => (hall b hb).1, hp⟩, ?_⟩
      intro b hb
      rcases List.mem_cons.mp hb with rfl | hb
      · exact ⟨h.1, h.2.1⟩
      · have h₁ := (hall b hb).1
        have h₂ := h.2.1.1
        have h₃ := h.1
        exact ⟨by omega, (hall b hb).2⟩

theorem view_append (pre post : Entries) : view (pre ++ post) = overlay (view pre) (view post) := by
  induction pre with
  | nil => funext o; simp [view, overlay]
  | cons ent pre ih => funext o; simp [view, overlay, ih, Option.or_assoc]

/-- An entry put where nothing is buffered adds its bytes and hides none. -/
theorem view_insert (pre post : Entries) (ent : Entry)
    (hfree : ∀ o, (segAt ent.range.begin ent.buf.bytes o).isSome → view (pre ++ post) o = none) :
    view (pre ++ ent :: post) = overlay (view (pre ++ post)) (segAt ent.range.begin ent.buf.bytes) := by
  funext o
  have hf := hfree o
  rw [view_append] at hf ⊢
  rw [view_append]
  simp only [view, overlay] at hf ⊢
  cases hs : segAt ent.range.begin ent.buf.bytes o with
  | none => simp
  | some x =>
      have hn := hf (by simp [hs])
      simp only [Option.or_eq_none_iff] at hn
      simp [hn.1, hn.2]

theorem view_eq_of_mem {lo : Nat} {entries : Entries} (h : WF lo entries) {ent : Entry} (hm : ent ∈ entries)
    {o : Nat} (hb : ent.range.begin ≤ o) (he : o < ent.range.endOff) :
    view entries o = segAt ent.range.begin ent.buf.bytes o := by
  induction entries generalizing lo with
  | nil => cases hm
  | cons head rest ih =>
      simp only [view, overlay]
      rcases List.mem_cons.mp hm with rfl | hm
      · exact Option.or_of_isSome ((h.2.1.segAt_isSome o).mpr ⟨hb, he⟩)
      · have hle := (h.2.2.pairwise.2 ent hm).1
        have hnone : segAt head.range.begin head.buf.bytes o = none := by
          rw [← Option.not_isSome_iff_eq_none, h.2.1.segAt_isSome]
          omega
        rw [hnone, Option.none_or, ih h.2.2 hm]

theorem firstGapOffset_spec {lo : Nat} {entries : Entries} (h : WF lo entries) (c : Nat) :
    c ≤ firstGapOffset entries c ∧ (∀ o, c ≤ o → o < firstGapOffset entries c → Covered entries o) ∧
      ¬ Covered entries (firstGapOffset entries c) := by
  induction entries generalizing lo c with
  | nil => exact ⟨le_refl _, fun o h₁ h₂ => absurd h₂ (by simp only [firstGapOffset]; omega), by simp [Covered, view]⟩
  | cons ent rest ih =>
      have hlt := h.2.1.1
      simp only [firstGapOffset, covered_cons h]
      split
      · rename_i hend
        obtain ⟨h₁, h₂, h₃⟩ := ih h.2.2 c
        refine ⟨h₁, fun o ho ho' => Or.inr (h₂ o ho ho'), ?_⟩
        rintro (hin | hrest)
        · omega
        · exact h₃ hrest
      · split
        · rename_i hend hbeg
          refine ⟨le_refl _, fun o h₁ h₂ => by omega, ?_⟩
          rintro (hin | hrest)
          · omega
          · exact h.2.2.not_covered_below (by omega) hrest
        · rename_i hend hbeg
          obtain ⟨h₁, h₂, h₃⟩ := ih h.2.2 ent.range.endOff
          refine ⟨by omega, fun o ho ho' => ?_, ?_⟩
          · by_cases hin : o < ent.range.endOff
            · exact Or.inl ⟨by omega, hin⟩
            · exact Or.inr (h₂ o (by omega) ho')
          · rintro (hin | hrest)
            · omega
            · exact h₃ hrest

theorem firstGapOffset_unique {lo : Nat} {entries : Entries} (h : WF lo entries) {c g : Nat} (hcg : c ≤ g)
    (hcov : ∀ o, c ≤ o → o < g → Covered entries o) (hgap : ¬ Covered entries g) :
    firstGapOffset entries c = g := by
  obtain ⟨h₁, h₂, h₃⟩ := firstGapOffset_spec h c
  rcases Nat.lt_trichotomy (firstGapOffset entries c) g with hlt | heq | hgt
  · exact absurd (hcov _ h₁ hlt) h₃
  · exact heq
  · exact absurd (h₂ g hcg hgt) hgap

/-- With every entry at or above `c`, only the head can hold data at `c`, and `data_at` never
meets an entry that straddles it. -/
theorem dataAt_head {c : Nat} {ent : Entry} {rest : Entries} (h : WF c (ent :: rest)) :
    dataAt (ent :: rest) c =
      .ok (if ent.range.begin = c then some (ent.buf, ent.range.endOff - c) else none) := by
  have hlt := h.2.1.1
  have hle := h.1
  rw [dataAt, if_neg (by omega)]
  by_cases hb : ent.range.begin = c
  · rw [if_neg (by omega), if_pos hb.symm, if_pos hb]
  · rw [if_pos (by omega), if_neg hb]

theorem pop_head {c : Nat} {ent : Entry} {rest : Entries} (h : WF c (ent :: rest)) (hb : ent.range.begin = c) :
    pop (ent :: rest) c (ent.range.endOff - c) = .ok (rest, [ent.release]) := by
  have hlt := h.2.1.1
  rw [pop, if_neg (by omega), if_neg (by simp [hb]), if_neg (by omega), if_neg (by omega)]

theorem removePrefix_wf {lo : Nat} {entries : Entries} (h : WF lo entries) {off : Nat} (hle : lo ≤ off) :
    WF off (removePrefix entries off).1 := by
  induction entries generalizing lo with
  | nil => trivial
  | cons ent rest ih =>
      obtain ⟨hb, hent, hrest⟩ := h
      have hlen : ent.buf.bytes.length = ent.range.endOff - ent.range.begin := hent.2
      rw [removePrefix]
      split
      · rename_i hoff
        exact ⟨hoff, hent, hrest⟩
      · split
        · rename_i hoff hend
          refine ⟨le_refl _, ⟨hend, ?_⟩, hrest⟩
          simp only [Buf.len, Buf.advance, List.length_drop, hlen]
          omega
        · exact ih hrest (by omega)

theorem view_below {lo : Nat} {entries : Entries} (h : WF lo entries) {o : Nat} (ho : o < lo) :
    view entries o = none :=
  view_eq_none_of_not_covered (h.not_covered_below ho)

theorem removePrefix_view {lo : Nat} {entries : Entries} (h : WF lo entries) (off : Nat) :
    view (removePrefix entries off).1 = restrict off (view entries) := by
  induction entries generalizing lo with
  | nil => funext o; simp [removePrefix, view, restrict]
  | cons ent rest ih =>
      obtain ⟨hb, hent, hrest⟩ := h
      have hlen : ent.buf.bytes.length = ent.range.endOff - ent.range.begin := hent.2
      funext o
      rw [removePrefix]
      simp only [restrict]
      split
      · rename_i hoff
        by_cases ho : off ≤ o
        · rw [if_pos ho]
        · rw [if_neg ho]
          have hwf : WF off (ent :: rest) := ⟨hoff, hent, hrest⟩
          exact view_below hwf (by omega)
      · split
        · rename_i hoff hend
          have hs := segAt_drop ent.range.begin (off - ent.range.begin) ent.buf.bytes o
          have heq : ent.range.begin + (off - ent.range.begin) = off := by omega
          rw [heq] at hs
          simp only [view, overlay, Buf.advance, hs]
          by_cases ho : off ≤ o
          · simp only [if_pos ho]
          · simp only [if_neg ho, Option.none_or]
            exact view_below hrest (by omega)
        · rename_i hoff hend
          rw [ih hrest]
          simp only [restrict, view, overlay]
          by_cases ho : off ≤ o
          · have hnone : segAt ent.range.begin ent.buf.bytes o = none := segAt_eq_none.mpr (by omega)
            simp only [if_pos ho, hnone, Option.none_or]
          · simp only [if_neg ho]

/-- What the loop of `ngtcp2_reorder_push` finds for the range `[b, e)`: either all of it is
buffered, or the part before the new entry is, the new entry overlaps nothing, and it ends at `e`
or where another entry starts. -/
def ScanSpec (lo : Nat) (entries : Entries) (b e cut : Nat) : Scan → Prop
  | .covered _ => ∀ o, b ≤ o → o < e → Covered entries o
  | .place pre post b' e' cut' =>
      entries = pre ++ post ∧ b ≤ b' ∧ b' < e' ∧ e' ≤ e ∧ cut' = cut + (b' - b) ∧
      (∀ buf owned, buf.len = e' - b' → WF lo (pre ++ ⟨⟨b', e'⟩, buf, owned⟩ :: post)) ∧
      (∀ o, b ≤ o → o < b' → Covered entries o) ∧ (∀ o, b' ≤ o → o < e' → ¬ Covered entries o) ∧
      (e' = e ∨ Covered entries e')

theorem ScanSpec.skip {lo b b' e cut cut' : Nat} {ent : Entry} {rest : Entries} {scan : Scan}
    (hwf : WF lo (ent :: rest)) (h : ScanSpec ent.range.endOff rest b' e cut' scan)
    (hb : b ≤ b') (hend : ent.range.endOff ≤ b') (hcut : cut' = cut + (b' - b))
    (hin : ∀ o, b ≤ o → o < b' → ent.range.begin ≤ o ∧ o < ent.range.endOff) :
    ScanSpec lo (ent :: rest) b e cut (scan.skip ent) := by
  have hcov : ∀ o, b ≤ o → o < b' → Covered (ent :: rest) o :=
    fun o h₁ h₂ => (covered_cons hwf o).mpr (Or.inl (hin o h₁ h₂))
  cases scan with
  | covered =>
      intro o h₁ h₂
      by_cases ho : o < b'
      · exact hcov o h₁ ho
      · exact (covered_cons hwf o).mpr (Or.inr (h o (by omega) h₂))
  | place pre post b'' e' cut'' =>
      obtain ⟨heq, h₁, h₂, h₃, h₄, h₅, h₆, h₇, h₈⟩ := h
      refine ⟨by rw [heq]; rfl, by omega, h₂, h₃, by omega, ?_, ?_, ?_, ?_⟩
      · intro buf owned hlen
        exact ⟨hwf.1, hwf.2.1, h₅ buf owned hlen⟩
      · intro o ho ho'
        by_cases hlt : o < b'
        · exact hcov o ho hlt
        · exact (covered_cons hwf o).mpr (Or.inr (h₆ o (by omega) ho'))
      · intro o ho ho' hc
        rcases (covered_cons hwf o).mp hc with hin' | hrest
        · omega
        · exact h₇ o ho ho' hrest
      · exact h₈.imp id (fun hc => (covered_cons hwf e').mpr (Or.inr hc))

theorem pushLoop_spec {lo : Nat} {entries : Entries} (hwf : WF lo entries) {b e : Nat} (hlo : lo ≤ b)
    (hbe : b < e) (cut : Nat) : ScanSpec lo entries b e cut (pushLoop entries b e cut) := by
  induction entries generalizing lo b cut with
  | nil =>
      refine ⟨rfl, le_refl _, hbe, le_refl _, by omega, ?_, fun o h₁ h₂ => by omega, ?_, Or.inl rfl⟩
      · intro buf owned hlen
        exact ⟨hlo, ⟨hbe, hlen⟩, trivial⟩
      · simp [Covered, view]
  | cons ent rest ih =>
      have hlt := hwf.2.1.1
      rw [pushLoop]
      split
      · rename_i hend
        exact (ih hwf.2.2 hend hbe cut).skip hwf (le_refl _) hend (by omega) (fun o h₁ h₂ => by omega)
      · split
        · rename_i hend hbeg
          refine ⟨rfl, le_refl _, hbe, le_refl _, by omega, ?_, fun o h₁ h₂ => by omega, ?_, Or.inl rfl⟩
          · intro buf owned hlen
            exact ⟨hlo, ⟨hbe, hlen⟩, hbeg, hwf.2⟩
          · intro o h₁ h₂ hc
            have hw : WF e (ent :: rest) := ⟨hbeg, hwf.2⟩
            exact hw.not_covered_below h₂ hc
        · split
          · rename_i hend hbeg hin
            split
            · rename_i hcov
              exact fun o h₁ h₂ => (covered_cons hwf o).mpr (Or.inl (by omega))
            · rename_i hcov
              exact (ih hwf.2.2 (le_refl _) (by omega) _).skip hwf (by omega) (le_refl _) rfl
                (fun o h₁ h₂ => by omega)
          · rename_i hend hbeg hin
            refine ⟨rfl, le_refl _, by omega, by omega, by omega, ?_, fun o h₁ h₂ => by omega, ?_, ?_⟩
            · intro buf owned hlen
              exact ⟨hlo, ⟨by simp only; omega, hlen⟩, le_refl _, hwf.2⟩
            · intro o h₁ h₂ hc
              have hw : WF ent.range.begin (ent :: rest) := ⟨le_refl _, hwf.2⟩
              exact hw.not_covered_below h₂ hc
            · exact Or.inr ((covered_cons hwf _).mpr (Or.inl ⟨le_refl _, hlt⟩))

theorem pushLoop_empty (entries : Entries) (b cut : Nat) :
    pushLoop entries b b cut = .covered cut ∨ ∃ pre post, pushLoop entries b b cut = .place pre post b b cut := by
  induction entries with
  | nil => exact Or.inr ⟨[], [], rfl⟩
  | cons ent rest ih =>
      rw [pushLoop]
      split
      · rcases ih with h | ⟨pre, post, h⟩
        · exact Or.inl (by rw [h, Scan.skip])
        · exact Or.inr ⟨ent :: pre, post, by rw [h, Scan.skip]⟩
      · split
        · exact Or.inr ⟨[], ent :: rest, rfl⟩
        · exact Or.inl (by rw [if_pos (by omega), if_pos (by omega)])

/-- The frame `[offset, offset + len)` has a byte at `o` that is still wanted: at or above the
consumed prefix and not buffered. -/
def Wanted (entries : Entries) (contOffset offset len o : Nat) : Prop :=
  offset ≤ o ∧ o < offset + len ∧ contOffset ≤ o ∧ ¬ Covered entries o

instance (entries : Entries) (contOffset offset len o : Nat) : Decidable (Wanted entries contOffset offset len o) :=
  inferInstanceAs (Decidable (_ ∧ _ ∧ _ ∧ _))

/-- The entry made of the part `[b, e)` of the data pushed at `offset`. -/
def cutEntry (buf : Buf) (offset b e : Nat) (allocatorOwned : Bool) : Entry :=
  ⟨⟨b, e⟩, (buf.advance (b - offset)).truncate (e - b), allocatorOwned⟩

/-- Every way a call of `ngtcp2_reorder_push` can end. -/
inductive PushOutcome (entries : Entries) (buf : Buf) (offset contOffset : Nat) (allocatorOwned mem : Bool) :
    PushResult → Prop
  | overflow (h : 2 ^ 64 ≤ offset + buf.len) :
      PushOutcome entries buf offset contOffset allocatorOwned mem ⟨.frameEncoding, entries, buf, [], 0⟩
  | dropped (n : Nat) (hlt : offset + buf.len < 2 ^ 64)
      (h : ∀ o, ¬ Wanted entries contOffset offset buf.len o) :
      PushOutcome entries buf offset contOffset allocatorOwned mem
        ⟨.ok, entries, buf.advance n, [(buf.advance n, allocatorOwned)], 0⟩
  | noMemory (buf' : Buf) (howner : buf'.owner = buf.owner) (hlt : offset + buf.len < 2 ^ 64) (hm : mem = false)
      (h : ∃ o, Wanted entries contOffset offset buf.len o) :
      PushOutcome entries buf offset contOffset allocatorOwned mem ⟨.nomem, entries, buf', [], 0⟩
  | inserted (pre post : Entries) (b e : Nat) (hlt : offset + buf.len < 2 ^ 64) (hm : mem = true)
      (hsplit : entries = pre ++ post) (hob : offset ≤ b) (hcb : contOffset ≤ b) (hbe : b < e)
      (hend : e ≤ offset + buf.len)
      (hwf : WF contOffset (pre ++ cutEntry buf offset b e allocatorOwned :: post))
      (hbefore : ∀ o, Wanted entries contOffset offset buf.len o → b ≤ o)
      (hin : ∀ o, b ≤ o → o < e → ¬ Covered entries o) (hstop : e = offset + buf.len ∨ Covered entries e) :
      PushOutcome entries buf offset contOffset allocatorOwned mem
        ⟨.ok, pre ++ cutEntry buf offset b e allocatorOwned :: post,
          (cutEntry buf offset b e allocatorOwned).buf, [], e - b⟩

theorem advance_advance (buf : Buf) (m n : Nat) : (buf.advance m).advance n = buf.advance (m + n) := by
  simp [Buf.advance, List.drop_drop]

theorem push_outcome {entries : Entries} {buf : Buf} {offset contOffset : Nat} (allocatorOwned mem : Bool)
    (hwf : WF contOffset entries) (hoff : offset < 2 ^ 64) (hlen : buf.len < 2 ^ 64) :
    PushOutcome entries buf offset contOffset allocatorOwned mem
      (push entries buf offset contOffset allocatorOwned mem) := by
  by_cases hover : 2 ^ 64 ≤ offset + buf.len
  · have hmod : (offset + buf.len) % 2 ^ 64 < offset := by omega
    rw [push, if_pos hmod]
    exact .overflow hover
  have hlt : offset + buf.len < 2 ^ 64 := by omega
  have hmod : (offset + buf.len) % 2 ^ 64 = offset + buf.len := Nat.mod_eq_of_lt hlt
  rw [push, hmod, if_neg (by omega)]
  by_cases hcont : offset + buf.len ≤ contOffset
  · rw [if_pos hcont]
    exact .dropped 0 hlt (fun o ho => by have := ho.2.1; have := ho.2.2.1; omega)
  rw [if_neg hcont]
  by_cases hempty : max offset contOffset = offset + buf.len
  · -- only an empty buffer beyond the consumed prefix gets here
    have hnone : ∀ o, ¬ Wanted entries contOffset offset buf.len o := by
      rintro o ⟨h₁, h₂, h₃, -⟩
      omega
    rw [hempty]
    rcases pushLoop_empty entries (offset + buf.len) 0 with hres | ⟨pre, post, hres⟩
    · simp only [hres, advance_advance]
      exact .dropped _ hlt hnone
    · simp only [hres, if_true, advance_advance]
      exact .dropped _ hlt hnone
  have hscan := pushLoop_spec hwf (Nat.le_max_right offset contOffset) (e := offset + buf.len) (by omega) 0
  simp only [advance_advance]
  cases hres : pushLoop entries (max offset contOffset) (offset + buf.len) 0 with
  | covered cut =>
      rw [hres] at hscan
      exact .dropped _ hlt (fun o ho => ho.2.2.2 (hscan o (by have := ho.1; have := ho.2.2.1; omega) ho.2.1))
  | place pre post b e cut =>
      rw [hres] at hscan
      obtain ⟨hsplit, hb, hbe, he, hcut, hw, hbefore, hin, hstop⟩ := hscan
      have hadv : max offset contOffset - offset + cut = b - offset := by omega
      simp only [hadv, if_neg (by omega : ¬ b = e)]
      have hwlen : ((buf.advance (b - offset)).truncate (e - b)).len = e - b := by
        have hl : buf.len = buf.bytes.length := rfl
        simp only [Buf.len, Buf.advance, Buf.truncate, List.length_take, List.length_drop]
        omega
      cases mem with
      | true =>
          exact .inserted pre post b e hlt rfl hsplit (by omega) (by omega) hbe he (hw _ _ hwlen)
            (fun o ho => by
              by_contra hlt'
              exact ho.2.2.2 (hbefore o (by have := ho.1; have := ho.2.2.1; omega) (by omega)))
            hin hstop
      | false => exact .noMemory _ rfl hlt rfl ⟨b, by omega, by omega, by omega, hin b (le_refl _) hbe⟩

theorem push_wf {entries : Entries} {buf : Buf} {offset contOffset : Nat} (allocatorOwned mem : Bool)
    (hwf : WF contOffset entries) (hoff : offset < 2 ^ 64) (hlen : buf.len < 2 ^ 64) :
    WF contOffset (push entries buf offset contOffset allocatorOwned mem).entries := by
  have hout := push_outcome allocatorOwned mem hwf hoff hlen
  generalize push entries buf offset contOffset allocatorOwned mem = r at hout
  cases hout with
  | overflow | noMemory | dropped => exact hwf
  | inserted pre post b e hlt hm hsplit hob hcb hbe hend hw => exact hw

theorem push_entries_of_error {entries : Entries} {buf : Buf} {offset contOffset : Nat} (allocatorOwned mem : Bool)
    (hwf : WF contOffset entries) (hoff : offset < 2 ^ 64) (hlen : buf.len < 2 ^ 64)
    (hrv : (push entries buf offset contOffset allocatorOwned mem).rv ≠ .ok) :
    (push entries buf offset contOffset allocatorOwned mem).entries = entries := by
  have hout := push_outcome allocatorOwned mem hwf hoff hlen
  revert hrv hout
  generalize push entries buf offset contOffset allocatorOwned mem = r
  intro hrv hout
  cases hout with
  | overflow | noMemory => rfl
  | dropped | inserted => exact absurd rfl hrv

/-- Every entry after a push was there before or lies inside the pushed frame. -/
theorem push_mem {entries : Entries} {buf : Buf} {offset contOffset : Nat} (allocatorOwned mem : Bool)
    (hwf : WF contOffset entries) (hoff : offset < 2 ^ 64) (hlen : buf.len < 2 ^ 64) {ent : Entry}
    (hm : ent ∈ (push entries buf offset contOffset allocatorOwned mem).entries) :
    ent ∈ entries ∨ offset ≤ ent.range.begin ∧ ent.range.endOff ≤ offset + buf.len := by
  have hout := push_outcome allocatorOwned mem hwf hoff hlen
  revert hm hout
  generalize push entries buf offset contOffset allocatorOwned mem = r
  intro hm hout
  cases hout with
  | overflow | noMemory | dropped => exact Or.inl hm
  | inserted pre post b e hlt hmem hsplit hob hcb hbe hend hw hbefore hin hstop =>
      rw [hsplit]
      simp only [List.mem_append, List.mem_cons] at hm ⊢
      rcases hm with hpre | rfl | hpost
      · exact Or.inl (Or.inl hpre)
      · exact Or.inr ⟨hob, hend⟩
      · exact Or.inl (Or.inr hpost)

end Zngtcp2.Reorder
