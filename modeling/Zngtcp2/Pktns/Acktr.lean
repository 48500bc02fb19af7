import Zngtcp2.Buf
import Mathlib.Data.List.TakeWhile

namespace Zngtcp2.PktnsRx

/-- `NGTCP2_ACKTR_MAX_ENT` -/
def maxEnt : Nat := 33

/-- `len` packet numbers that end with `pktNum`. -/
structure Entry where
  pktNum : Nat
  len : Nat
  tstamp : Nat
  deriving DecidableEq, Repr

/-- An ACK frame that was sent in the packet `pktNum`. -/
structure AckEntry where
  largestAck : Nat
  pktNum : Nat
  deriving DecidableEq, Repr

structure Ecn where
  ect0 : Nat
  ect1 : Nat
  ce : Nat
  deriving DecidableEq, Repr

/-- `ents` are in decreasing order, `acks` begin with the newest. The times that may be
`UINT64_MAX` and the packet numbers that may be -1 are optional. -/
structure Acktr where
  ents : List Entry
  acks : List AckEntry
  immediateAck : Bool
  activeAck : Bool
  firstUnackedTs : Option Nat
  maxPktNum : Option Nat
  maxPktTs : Option Nat
  ecn : Ecn
  deriving DecidableEq, Repr

def Acktr.new : Acktr :=
  ⟨[], [], false, false, none, none, none, ⟨0, 0, 0⟩⟩

/-- The part of `ngtcp2_acktr_add` that extends an entry; `none` where the packet number is next to
no entry. -/
def extend (pktNum ts : Nat) : List Entry → Except Fault (Option (List Entry))
  | [] => .ok none
  | e :: es =>
      if e.pktNum ≤ pktNum then
        if e.pktNum = pktNum then .error .assertion
        else if e.pktNum + 1 = pktNum then .ok (some (⟨pktNum, e.len + 1, ts⟩ :: es))
        else .ok none
      else
        match es with
        | [] =>
            if e.pktNum < pktNum + e.len then .error .assertion
            else if e.pktNum = pktNum + e.len then .ok (some [{ e with len := e.len + 1 }])
            else .ok none
        | ent :: rest =>
            if ent.pktNum ≤ pktNum then
              if ent.pktNum = pktNum then .error .assertion
              else if e.pktNum < pktNum + e.len then .error .assertion
              else if ent.pktNum + 1 = pktNum then
                if e.pktNum = pktNum + e.len then .ok (some ({ e with len := e.len + (ent.len + 1) } :: rest))
                else .ok (some (e :: ⟨pktNum, ent.len + 1, ts⟩ :: rest))
              else if e.pktNum = pktNum + e.len then .ok (some ({ e with len := e.len + 1 } :: ent :: rest))
              else .ok none
            else do
              let es ← extend pktNum ts (ent :: rest)
              .ok (es.map (e :: ·))

/-- `ngtcp2_ksl_insert`; `none` is NGTCP2_ERR_INVALID_ARGUMENT. -/
def insert (ent : Entry) : List Entry → Option (List Entry)
  | [] => some [ent]
  | e :: es =>
      if ent.pktNum < e.pktNum then (insert ent es).map (e :: ·)
      else if ent.pktNum = e.pktNum then none
      else some (ent :: e :: es)

namespace Acktr

/-- `ngtcp2_acktr_add` -/
def add (a : Acktr) (pktNum : Nat) (activeAck : Bool) (ts : Nat) : Except Fault (Rv × Acktr) := do
  let extended ← extend pktNum ts a.ents
  match extended.or (insert ⟨pktNum, 1, ts⟩ a.ents) with
  | none => .ok (.invalidArgument, a)
  | some ents =>
      let newest : Bool := a.maxPktNum.all (fun n => decide (n < pktNum))
      .ok (.ok, { a with
        ents := if maxEnt < ents.length then ents.dropLast else ents
        activeAck := a.activeAck || activeAck
        firstUnackedTs := if activeAck then a.firstUnackedTs.or (some ts) else a.firstUnackedTs
        maxPktNum := if newest then some pktNum else a.maxPktNum
        maxPktTs := if newest then some ts else a.maxPktTs })

/-- `ngtcp2_acktr_commit_ack`, then `ngtcp2_acktr_add_ack`, whose ring buffer has 32 places. -/
def commitAck (a : Acktr) (pktNum largestAck : Nat) : Acktr :=
  { a with
    immediateAck := false
    activeAck := false
    firstUnackedTs := none
    acks := (⟨largestAck, pktNum⟩ :: a.acks).take 32 }

end Acktr

/-- What is left of the last entry when everything up to `largestAck` is forgotten. -/
def trim (largestAck : Nat) (e : Entry) : Entry :=
  if e.pktNum < largestAck + e.len then { e with len := e.pktNum - largestAck } else e

/-- `acktr_on_ack` -/
def Acktr.onAck (a : Acktr) (i : Nat) : Except Fault Acktr :=
  match a.acks[i]? with
  | none => .error .assertion
  | some ack =>
      let kept := a.ents.takeWhile (fun e => decide (ack.largestAck < e.pktNum))
      .ok { a with ents := kept.dropLast ++ (kept.getLast?.map (trim ack.largestAck)).toList, acks := a.acks.take i }

structure AckRange where
  gap : Nat
  len : Nat
  deriving DecidableEq, Repr

/-- The ACK frames that were sent in packets after `largestAck`. -/
def skipAcks (acks : List AckEntry) (largestAck : Int) (i : Nat) : Nat :=
  i + ((acks.drop i).takeWhile (fun ack => decide (largestAck < ack.pktNum))).length

/-- The loop of `ngtcp2_acktr_recv_ack` over the ranges after the first one. -/
def findAck (acks : List AckEntry) : List AckRange → Int → Nat → Option Nat
  | [], _, _ => none
  | r :: rs, minAck, i =>
      let largestAck := minAck - r.gap - 2
      let minAck := largestAck - r.len
      match acks[skipAcks acks largestAck i]? with
      | none => none
      | some ack =>
          if ack.pktNum < minAck then findAck acks rs minAck (skipAcks acks largestAck i)
          else some (skipAcks acks largestAck i)

/-- `ngtcp2_acktr_recv_ack` -/
def Acktr.recvAck (a : Acktr) (largestAck firstAckRange : Nat) (ranges : List AckRange) : Except Fault Acktr :=
  let i := skipAcks a.acks largestAck 0
  match a.acks[i]? with
  | none => .ok a
  | some ack =>
      let minAck : Int := largestAck - firstAckRange
      if minAck ≤ ack.pktNum then a.onAck i
      else
        match findAck a.acks ranges minAck i with
        | none => .ok a
        | some i => a.onAck i

/-- `ngtcp2_acktr_increase_ecn_counts` -/
def Acktr.increaseEcnCounts (a : Acktr) (ecn : Fin 4) : Acktr :=
  match ecn with
  | 0 => a
  | 1 => { a with ecn := { a.ecn with ect1 := a.ecn.ect1 + 1 } }
  | 2 => { a with ecn := { a.ecn with ect0 := a.ecn.ect0 + 1 } }
  | 3 => { a with ecn := { a.ecn with ce := a.ecn.ce + 1 } }

def Entry.Covers (e : Entry) (x : Nat) : Prop :=
  e.pktNum < x + e.len ∧ x ≤ e.pktNum

def Covered (ents : List Entry) (x : Nat) : Prop :=
  ∃ e ∈ ents, e.Covers x

theorem covered_cons {e : Entry} {es : List Entry} {x : Nat} : Covered (e :: es) x ↔ e.Covers x ∨ Covered es x := by
  simp [Covered]

/-- The entries are disjoint and in decreasing order. -/
structure Descending (ents : List Entry) : Prop where
  pos : ∀ e ∈ ents, 0 < e.len
  pairwise : ents.Pairwise (fun a b => b.pktNum + a.len ≤ a.pktNum)

theorem descending_cons {e : Entry} {es : List Entry} :
    Descending (e :: es) ↔ 0 < e.len ∧ (∀ b ∈ es, b.pktNum + e.len ≤ e.pktNum) ∧ Descending es := by
  constructor
  · intro h
    obtain ⟨hpos, hes⟩ := List.forall_mem_cons.mp h.pos
    obtain ⟨hle, hpair⟩ := List.pairwise_cons.mp h.pairwise
    exact ⟨hpos, hle, hes, hpair⟩
  · intro ⟨hpos, hle, hes⟩
    exact ⟨List.forall_mem_cons.mpr ⟨hpos, hes.pos⟩, List.pairwise_cons.mpr ⟨hle, hes.pairwise⟩⟩

theorem Descending.sublist {es es' : List Entry} (h : Descending es) (hs : es'.Sublist es) : Descending es' :=
  ⟨fun e he => h.pos e (hs.subset he), h.pairwise.sublist hs⟩

/-- `es'` are the entries `es` and one more packet number. -/
structure Adds (pktNum : Nat) (es es' : List Entry) : Prop where
  descending : Descending es'
  tops : ∀ e' ∈ es', e'.pktNum = pktNum ∨ ∃ e ∈ es, e'.pktNum = e.pktNum
  covered : ∀ x, Covered es' x ↔ x = pktNum ∨ Covered es x

theorem Adds.cons {pktNum : Nat} {e : Entry} {es es' : List Entry} (h : Adds pktNum es es') (he : Descending (e :: es))
    (hlt : pktNum + e.len ≤ e.pktNum) : Adds pktNum (e :: es) (e :: es') := by
  obtain ⟨hpos, hle, hes⟩ := descending_cons.mp he
  refine ⟨descending_cons.mpr ⟨hpos, fun b hb => ?_, h.descending⟩, ?_, fun x => ?_⟩
  · rcases h.tops b hb with hb | ⟨a, ha, hb⟩
    · rw [hb]
      exact hlt
    · rw [hb]
      exact hle a ha
  · intro b hb
    rcases List.mem_cons.mp hb with rfl | hb
    · exact Or.inr ⟨b, List.mem_cons_self, rfl⟩
    · rcases h.tops b hb with hb | ⟨a, ha, hb⟩
      · exact Or.inl hb
      · exact Or.inr ⟨a, List.mem_cons_of_mem e ha, hb⟩
  · rw [covered_cons, covered_cons, h.covered x, or_left_comm]

/-- The first entry takes the place of `e`, and the rest stays. -/
theorem adds_head {pktNum : Nat} {e e' : Entry} {es : List Entry} (he : Descending (e :: es)) (hpos : 0 < e'.len)
    (htop : e'.pktNum = pktNum ∨ e'.pktNum = e.pktNum) (hle : ∀ b ∈ es, b.pktNum + e'.len ≤ e'.pktNum)
    (hcov : ∀ x, e'.Covers x ↔ x = pktNum ∨ e.Covers x) : Adds pktNum (e :: es) (e' :: es) := by
  obtain ⟨_, _, hes⟩ := descending_cons.mp he
  refine ⟨descending_cons.mpr ⟨hpos, hle, hes⟩, ?_, fun x => ?_⟩
  · intro b hb
    rcases List.mem_cons.mp hb with rfl | hb
    · exact htop.imp_right (fun h => ⟨e, List.mem_cons_self, h⟩)
    · exact Or.inr ⟨b, List.mem_cons_of_mem e hb, rfl⟩
  · rw [covered_cons, covered_cons, hcov x, or_assoc]

theorem insert_adds {pktNum ts : Nat} {es : List Entry} (hes : Descending es) (hnot : ¬Covered es pktNum) :
    ∃ es', insert ⟨pktNum, 1, ts⟩ es = some es' ∧ Adds pktNum es es' := by
  induction es with
  | nil =>
      refine ⟨_, rfl, ⟨fun e he => ?_, List.pairwise_singleton _ _⟩, fun e he => ?_, fun x => ?_⟩
      · rw [List.mem_singleton.mp he]
        exact Nat.one_pos
      · rw [List.mem_singleton.mp he]
        exact Or.inl rfl
      · simp only [Covered, List.mem_singleton, exists_eq_left, Entry.Covers, List.not_mem_nil, false_and, exists_false, or_false]
        omega
  | cons e es ih =>
      obtain ⟨hpos, hle, hrest⟩ := descending_cons.mp hes
      rw [covered_cons, not_or] at hnot
      have he := hnot.1
      rw [Entry.Covers] at he
      rw [insert]
      split
      · rename_i hlt
        obtain ⟨es', hins, hadds⟩ := ih hrest hnot.2
        rw [hins]
        refine ⟨_, rfl, hadds.cons hes ?_⟩
        simp only at hlt
        omega
      · rename_i hge
        simp only at hge ⊢
        rw [if_neg (by omega)]
        refine ⟨_, rfl, descending_cons.mpr ⟨Nat.one_pos, fun b hb => ?_, hes⟩, fun b hb => ?_, fun x => ?_⟩
        · rcases List.mem_cons.mp hb with rfl | hb
          · simp only
            omega
          · have hb := hle b hb
            simp only
            omega
        · rcases List.mem_cons.mp hb with rfl | hb
          · exact Or.inl rfl
          · exact Or.inr ⟨b, hb, rfl⟩
        · rw [covered_cons]
          refine or_congr_left ?_
          simp only [Entry.Covers]
          omega

theorem extend_adds {pktNum ts : Nat} {es : List Entry} (hes : Descending es) (hnot : ¬Covered es pktNum) :
    ∃ r, extend pktNum ts es = .ok r ∧ ∀ es' ∈ r, Adds pktNum es es' := by
  induction es with
  | nil => exact ⟨none, rfl, fun es' h => by cases h⟩
  | cons e es ih =>
      obtain ⟨hpos, hle, hrest⟩ := descending_cons.mp hes
      rw [covered_cons, not_or] at hnot
      have he := hnot.1
      rw [Entry.Covers] at he
      have hnone : ∃ r, (Except.ok none : Except Fault (Option (List Entry))) = .ok r ∧ ∀ es' ∈ r, Adds pktNum (e :: es) es' :=
        ⟨none, rfl, fun es' h => by cases h⟩
      rw [extend.eq_def]
      simp only
      split
      · rw [if_neg (by omega)]
        split
        · refine ⟨_, rfl, fun es' h => ?_⟩
          cases h
          refine adds_head hes (Nat.succ_pos _) (Or.inl rfl) (fun b hb => ?_) (fun x => ?_)
          · have hb := hle b hb
            simp only
            omega
          · simp only [Entry.Covers]
            omega
        · exact hnone
      · cases es with
        | nil =>
          simp only
          rw [if_neg (by omega)]
          split
          · refine ⟨_, rfl, fun es' h => ?_⟩
            cases h
            refine adds_head hes (Nat.succ_pos _) (Or.inr rfl) (fun b hb => by cases hb) (fun x => ?_)
            simp only [Entry.Covers]
            omega
          · exact hnone
        | cons ent rest =>
          simp only
          have hent := hle ent List.mem_cons_self
          obtain ⟨hpos', hle', _⟩ := descending_cons.mp hrest
          have he' := hnot.2
          rw [covered_cons, not_or, Entry.Covers] at he'
          split
          · rw [if_neg (by omega), if_neg (by omega)]
            split
            · split
              · -- the packet number closes the gap between two entries
                refine ⟨_, rfl, fun es' h => ?_⟩
                cases h
                obtain ⟨_, _, hrest'⟩ := descending_cons.mp hrest
                refine ⟨descending_cons.mpr ⟨by simp only; omega, fun b hb => ?_, hrest'⟩, fun b hb => ?_, fun x => ?_⟩
                · have hb := hle' b hb
                  simp only
                  omega
                · rcases List.mem_cons.mp hb with rfl | hb
                  · exact Or.inr ⟨e, List.mem_cons_self, rfl⟩
                  · exact Or.inr ⟨b, List.mem_cons_of_mem _ (List.mem_cons_of_mem _ hb), rfl⟩
                · rw [covered_cons, covered_cons, covered_cons, ← or_assoc, ← or_assoc]
                  refine or_congr_left ?_
                  simp only [Entry.Covers]
                  omega
              · refine ⟨_, rfl, fun es' h => ?_⟩
                cases h
                refine Adds.cons ?_ hes (by omega)
                refine adds_head hrest (Nat.succ_pos _) (Or.inl rfl) (fun b hb => ?_) (fun x => ?_)
                · have hb := hle' b hb
                  simp only
                  omega
                · simp only [Entry.Covers]
                  omega
            · split
              · refine ⟨_, rfl, fun es' h => ?_⟩
                cases h
                refine adds_head hes (Nat.succ_pos _) (Or.inr rfl) (fun b hb => ?_) (fun x => ?_)
                · rcases List.mem_cons.mp hb with rfl | hb
                  · simp only
                    omega
                  · have hb := hle' b hb
                    simp only
                    omega
                · simp only [Entry.Covers]
                  omega
              · exact hnone
          · obtain ⟨r, hr, hadds⟩ := ih hrest hnot.2
            rw [hr]
            refine ⟨r.map (e :: ·), rfl, fun es' h => ?_⟩
            obtain ⟨es₁, h₁, rfl⟩ := Option.map_eq_some_iff.mp h
            exact (hadds es₁ h₁).cons hes (by omega)

theorem trim_spec {largestAck : Nat} {e : Entry} (hlt : largestAck < e.pktNum) (hpos : 0 < e.len) :
    (trim largestAck e).pktNum = e.pktNum ∧ 0 < (trim largestAck e).len ∧ ∀ x, (trim largestAck e).Covers x → e.Covers x := by
  rw [trim]
  split
  · refine ⟨rfl, by simp only; omega, fun x hx => ?_⟩
    simp only [Entry.Covers] at hx ⊢
    omega
  · exact ⟨rfl, hpos, fun _ hx => hx⟩

namespace Acktr

theorem add_ok {a : Acktr} {pktNum ts : Nat} {activeAck : Bool} (hes : Descending a.ents) (hnot : ¬Covered a.ents pktNum) :
    ∃ a', a.add pktNum activeAck ts = .ok (.ok, a') ∧ Descending a'.ents ∧
      ∀ x, Covered a'.ents x → x = pktNum ∨ Covered a.ents x := by
  obtain ⟨r, hr, hext⟩ := @extend_adds pktNum ts _ hes hnot
  obtain ⟨es, hins, hadds⟩ := @insert_adds pktNum ts _ hes hnot
  obtain ⟨es', hes', hadds'⟩ : ∃ es', r.or (insert ⟨pktNum, 1, ts⟩ a.ents) = some es' ∧ Adds pktNum a.ents es' := by
    cases r with
    | none => exact ⟨es, hins, hadds⟩
    | some es' => exact ⟨es', rfl, hext es' rfl⟩
  have hsub : (if maxEnt < es'.length then es'.dropLast else es').Sublist es' := by
    split
    · exact List.dropLast_sublist es'
    · exact List.Sublist.refl es'
  rw [add, hr]
  simp only [bind, Except.bind, hes']
  refine ⟨_, rfl, hadds'.descending.sublist hsub, fun x ⟨e, he, hx⟩ => ?_⟩
  exact (hadds'.covered x).mp ⟨e, hsub.subset he, hx⟩

theorem onAck_ok {a : Acktr} {i : Nat} {ack : AckEntry} (hes : Descending a.ents) (hi : a.acks[i]? = some ack) :
    ∃ a', a.onAck i = .ok a' ∧ Descending a'.ents ∧ ∀ x, Covered a'.ents x → Covered a.ents x := by
  rw [onAck, hi]
  refine ⟨_, rfl, ?_⟩
  have hsub : (a.ents.takeWhile (fun e => decide (ack.largestAck < e.pktNum))).Sublist a.ents := List.takeWhile_sublist _
  have hlt : ∀ e ∈ a.ents.takeWhile (fun e => decide (ack.largestAck < e.pktNum)), ack.largestAck < e.pktNum := by
    intro e he
    simpa using List.mem_takeWhile_imp he
  generalize a.ents.takeWhile (fun e => decide (ack.largestAck < e.pktNum)) = kept at hsub hlt
  rcases List.eq_nil_or_concat kept with rfl | ⟨init, last, hkept⟩
  · exact ⟨⟨by simp, by simp⟩, fun x ⟨e, he, _⟩ => by simp at he⟩
  · rw [List.concat_eq_append] at hkept
    subst hkept
    obtain ⟨hpos, hpair⟩ := hes.sublist hsub
    obtain ⟨hinit, _, hlast⟩ := List.pairwise_append.mp hpair
    have hlt := hlt last (by simp)
    have hpos' := hpos last (by simp)
    obtain ⟨htop, hlen, hcov⟩ := trim_spec hlt hpos'
    simp only [List.dropLast_concat, List.getLast?_concat, Option.map_some, Option.toList_some]
    refine ⟨⟨fun e he => ?_, List.pairwise_append.mpr ⟨hinit, List.pairwise_singleton _ _, fun e he b hb => ?_⟩⟩, fun x ⟨e, he, hx⟩ => ?_⟩
    · rcases List.mem_append.mp he with he | he
      · exact hpos e (List.mem_append_left _ he)
      · rw [List.mem_singleton.mp he]
        exact hlen
    · rw [List.mem_singleton.mp hb, htop]
      exact hlast e he last (by simp)
    · rcases List.mem_append.mp he with he | he
      · exact ⟨e, hsub.subset (List.mem_append_left _ he), hx⟩
      · rw [List.mem_singleton.mp he] at hx
        exact ⟨last, hsub.subset (by simp), hcov x hx⟩

theorem findAck_some {acks : List AckEntry} {ranges : List AckRange} {minAck : Int} {i j : Nat}
    (h : findAck acks ranges minAck i = some j) : ∃ ack, acks[j]? = some ack := by
  induction ranges generalizing minAck i with
  | nil => cases h
  | cons r rs ih =>
      rw [findAck] at h
      split at h
      · cases h
      · rename_i ack hack
        split at h
        · exact ih h
        · cases h
          exact ⟨ack, hack⟩

theorem recvAck_ok {a : Acktr} {largestAck firstAckRange : Nat} {ranges : List AckRange} (hes : Descending a.ents) :
    ∃ a', a.recvAck largestAck firstAckRange ranges = .ok a' ∧ Descending a'.ents ∧
      ∀ x, Covered a'.ents x → Covered a.ents x := by
  rw [recvAck]
  simp only
  split
  · exact ⟨a, rfl, hes, fun _ hx => hx⟩
  · rename_i ack hack
    split
    · exact onAck_ok hes hack
    · split
      · exact ⟨a, rfl, hes, fun _ hx => hx⟩
      · rename_i j hj
        obtain ⟨ack', hack'⟩ := findAck_some hj
        exact onAck_ok hes hack'

end Acktr

end Zngtcp2.PktnsRx
