import Zngtcp2.Pktns.AckFrame

namespace Zngtcp2.PktnsRx

open Lib.Run (run Guarded run_invariant)

/-- The tracker, with all packet numbers that were ever added to it. -/
structure AckState where
  acktr : Acktr
  added : List Nat

def AckState.new : AckState :=
  ⟨.new, []⟩

inductive AckOp
  | add (pktNum : Nat) (activeAck : Bool) (ts : Nat)
  | forget (pktNum : Nat)
  | addAck (pktNum largestAck : Nat)
  | recvAck (fr : AckFrame)
  | commitAck
  | immediateAck
  | increaseEcnCounts (ecn : Fin 4)
  | createAckFrame (oneRtt : Bool) (ts ackDelay ackDelayExponent : Nat)

namespace AckState

def step (s : AckState) : AckOp → Except Fault AckState
  | .add pktNum activeAck ts => do
      let (_, a) ← s.acktr.add pktNum activeAck ts
      .ok ⟨a, pktNum :: s.added⟩
  | .forget pktNum => do
      let a ← s.acktr.forget pktNum
      .ok { s with acktr := a }
  | .addAck pktNum largestAck => .ok { s with acktr := s.acktr.addAck pktNum largestAck }
  | .recvAck fr => do
      let a ← s.acktr.recvAck fr.largestAck fr.firstAckRange fr.ranges
      .ok { s with acktr := a }
  | .commitAck => .ok { s with acktr := s.acktr.commit }
  | .immediateAck => .ok { s with acktr := { s.acktr with immediateAck := true } }
  | .increaseEcnCounts ecn => .ok { s with acktr := s.acktr.increaseEcnCounts ecn }
  | .createAckFrame oneRtt ts ackDelay ackDelayExponent => do
      let (_, a) ← s.acktr.createAckFrame oneRtt ts ackDelay ackDelayExponent
      .ok { s with acktr := a }

/-- A packet number is added once, an entry that is forgotten is there, and an ACK frame is valid. -/
def Allowed (s : AckState) : AckOp → Prop
  | .add pktNum _ _ => pktNum ∉ s.added ∧ pktNum ≤ maxPktNum
  | .forget pktNum => ∃ e ∈ s.acktr.ents, e.pktNum = pktNum
  | .recvAck fr => validateAck fr 0 = .ok ()
  | _ => True

instance decidableAllowed (s : AckState) : (op : AckOp) → Decidable (s.Allowed op)
  | .add pktNum _ _ => inferInstanceAs (Decidable (pktNum ∉ s.added ∧ pktNum ≤ maxPktNum))
  | .forget pktNum => inferInstanceAs (Decidable (∃ e ∈ s.acktr.ents, e.pktNum = pktNum))
  | .recvAck fr =>
      match h : validateAck fr 0 with
      | .ok () => .isTrue h
      | .error _ => .isFalse fun hok => by rw [Allowed, h] at hok; cases hok
  | .addAck _ _ | .commitAck | .immediateAck | .increaseEcnCounts _ | .createAckFrame _ _ _ _ => .isTrue trivial

structure Sound (s : AckState) : Prop where
  descending : Descending s.acktr.ents
  apart : Apart s.acktr.ents
  length_le : s.acktr.ents.length ≤ maxEnt
  covered : ∀ x, Covered s.acktr.ents x → x ∈ s.added
  newest : ∀ n, s.acktr.maxPktNum = some n → IsGreatest {x | x ∈ s.added} n
  none_added : s.acktr.maxPktNum = none → s.added = []
  bounded : ∀ x ∈ s.added, x ≤ maxPktNum

theorem new_sound : Sound .new := by
  refine ⟨⟨fun e he => (nomatch he), List.Pairwise.nil⟩, apart_nil, Nat.zero_le _, ?_, fun n hn => (nomatch hn),
    fun _ => rfl, fun x hx => (nomatch hx)⟩
  rintro x ⟨e, he, _⟩
  cases he

/-- A step that drops entries or parts of them. -/
theorem Sound.shrink {s : AckState} (h : s.Sound) {a : Acktr} (hdesc : Descending a.ents) (hapart : Apart a.ents)
    (hlen : a.ents.length ≤ s.acktr.ents.length) (hcov : ∀ x, Covered a.ents x → Covered s.acktr.ents x)
    (hmax : a.maxPktNum = s.acktr.maxPktNum) : Sound { s with acktr := a } := by
  refine ⟨hdesc, hapart, Nat.le_trans hlen h.length_le, fun x hx => h.covered x (hcov x hx), ?_, ?_, h.bounded⟩
  · rw [hmax]
    exact h.newest
  · rw [hmax]
    exact h.none_added

/-- A step that leaves the entries alone. -/
theorem Sound.same {s : AckState} (h : s.Sound) {a : Acktr} (hents : a.ents = s.acktr.ents)
    (hmax : a.maxPktNum = s.acktr.maxPktNum) : Sound { s with acktr := a } := by
  refine h.shrink ?_ ?_ ?_ ?_ hmax
  · rw [hents]
    exact h.descending
  · rw [hents]
    exact h.apart
  · rw [hents]
  · rw [hents]
    exact fun _ => id

theorem newest_add {s : AckState} (h : s.Sound) {pktNum : Nat} (n : Nat)
    (hn : (if s.acktr.maxPktNum.all (fun n => decide (n < pktNum)) = true then some pktNum else s.acktr.maxPktNum) = some n) :
    IsGreatest {x | x ∈ pktNum :: s.added} n := by
  cases hmax : s.acktr.maxPktNum with
  | none =>
      rw [hmax] at hn
      cases hn
      rw [h.none_added hmax]
      exact ⟨List.mem_cons_self, fun x hx => Nat.le_of_eq (List.mem_singleton.mp hx)⟩
  | some m =>
      obtain ⟨hmem, hupper⟩ := h.newest m hmax
      simp only [hmax, Option.all_some, decide_eq_true_eq] at hn
      split at hn
      · cases hn
        refine ⟨List.mem_cons_self, fun x hx => ?_⟩
        rcases List.mem_cons.mp hx with rfl | hx
        · exact Nat.le_refl _
        · have := hupper hx
          omega
      · cases hn
        refine ⟨List.mem_cons_of_mem _ hmem, fun x hx => ?_⟩
        rcases List.mem_cons.mp hx with rfl | hx
        · omega
        · exact hupper hx

theorem Sound.add {s : AckState} (h : s.Sound) {pktNum ts : Nat} {activeAck : Bool} (hnew : pktNum ∉ s.added)
    (hle : pktNum ≤ maxPktNum) :
    ∃ a, s.acktr.add pktNum activeAck ts = .ok (.ok, a) ∧ Sound ⟨a, pktNum :: s.added⟩ := by
  have hnot : ¬Covered s.acktr.ents pktNum := fun hcov => hnew (h.covered _ hcov)
  obtain ⟨r, hr, hext⟩ := @extend_adds pktNum ts _ h.descending hnot
  obtain ⟨es, hins, hadds⟩ := @insert_adds pktNum ts _ h.descending hnot
  obtain ⟨hsome, hnone⟩ := extend_apart hr h.descending h.apart hnot
  obtain ⟨es', hes', hadds', hapart, hlen'⟩ : ∃ es', r.or (insert ⟨pktNum, 1, ts⟩ s.acktr.ents) = some es' ∧
      Adds pktNum s.acktr.ents es' ∧ Apart es' ∧ es'.length ≤ s.acktr.ents.length + 1 := by
    cases r with
    | none =>
        exact ⟨es, hins, hadds, insert_apart hins h.descending h.apart hnot (hnone rfl), Nat.le_of_eq (insert_length hins)⟩
    | some es' => exact ⟨es', rfl, hext es' rfl, hsome es' rfl, Nat.le_succ_of_le (extend_length hr)⟩
  rw [Acktr.add, hr]
  simp only [bind, Except.bind, hes']
  have hsub : (if maxEnt < es'.length then es'.dropLast else es').Sublist es' := by
    split
    · exact List.dropLast_sublist es'
    · exact List.Sublist.refl es'
  refine ⟨_, rfl, hadds'.descending.sublist hsub, hapart.sublist hsub, ?_, ?_, ?_, ?_, ?_⟩
  · simp only
    have hlen := h.length_le
    split
    · rw [List.length_dropLast]
      omega
    · omega
  · rintro x ⟨e, he, hx⟩
    rcases (hadds'.covered x).mp ⟨e, hsub.subset he, hx⟩ with rfl | hx
    · exact List.mem_cons_self
    · exact List.mem_cons_of_mem _ (h.covered x hx)
  · exact newest_add h
  · intro hnone
    simp only at hnone
    split at hnone
    · cases hnone
    · rename_i hall
      rw [hnone] at hall
      exact absurd rfl hall
  · intro x hx
    rcases List.mem_cons.mp hx with rfl | hx
    · exact hle
    · exact h.bounded x hx

/-- What is left after an acknowledgement is cut from what was there. -/
theorem onAck_shrinks {a a' : Acktr} {i : Nat} (hes : Descending a.ents) (hapart : Apart a.ents)
    (h : a.onAck i = .ok a') : Apart a'.ents ∧ a'.ents.length ≤ a.ents.length ∧ a'.maxPktNum = a.maxPktNum := by
  rw [Acktr.onAck] at h
  split at h
  · cases h
  rename_i ack hack
  cases h
  have hsub : (a.ents.takeWhile (fun e => decide (ack.largestAck < e.pktNum))).Sublist a.ents := List.takeWhile_sublist _
  have hlt : ∀ e ∈ a.ents.takeWhile (fun e => decide (ack.largestAck < e.pktNum)), ack.largestAck < e.pktNum := by
    intro e he
    simpa using List.mem_takeWhile_imp he
  simp only
  generalize a.ents.takeWhile (fun e => decide (ack.largestAck < e.pktNum)) = kept at hsub hlt
  refine ⟨?_, ?_, trivial⟩
  · rcases List.eq_nil_or_concat kept with rfl | ⟨init, last, hkept⟩
    · exact apart_nil
    · rw [List.concat_eq_append] at hkept
      subst hkept
      obtain ⟨hfits, hpair⟩ := hapart.sublist hsub
      obtain ⟨hinit, _, hlast⟩ := List.pairwise_append.mp hpair
      have hpos := (hes.sublist hsub).pos last (by simp)
      obtain ⟨htop, _, _⟩ := trim_spec (hlt last (by simp)) hpos
      have hfits' := hfits last (by simp)
      simp only [List.dropLast_concat, List.getLast?_concat, Option.map_some, Option.toList_some]
      refine ⟨fun e he => ?_, List.pairwise_append.mpr ⟨hinit, List.pairwise_singleton _ _, fun e he b hb => ?_⟩⟩
      · rcases List.mem_append.mp he with he | he
        · exact hfits e (List.mem_append_left _ he)
        · rw [List.mem_singleton.mp he, trim]
          split
          · simp only
            omega
          · exact hfits'
      · rw [List.mem_singleton.mp hb, htop]
        exact hlast e he last (by simp)
  · have hle := hsub.length_le
    rw [List.length_append, List.length_dropLast]
    cases hlast : kept.getLast? with
    | none =>
        rw [Option.map_none, Option.toList_none, List.length_nil]
        omega
    | some e =>
        have hne : kept ≠ [] := by
          rintro rfl
          cases hlast
        have := List.length_pos_iff.mpr hne
        rw [Option.map_some, Option.toList_some, List.length_singleton]
        omega

theorem recvAck_cases {a a' : Acktr} {largestAck firstAckRange : Nat} {ranges : List AckRange}
    (h : a.recvAck largestAck firstAckRange ranges = .ok a') : a' = a ∨ ∃ i, a.onAck i = .ok a' := by
  rw [Acktr.recvAck] at h
  simp only at h
  split at h
  · cases h
    exact Or.inl rfl
  · split at h
    · exact Or.inr ⟨_, h⟩
    · split at h
      · cases h
        exact Or.inl rfl
      · exact Or.inr ⟨_, h⟩

theorem Sound.recvAck {s : AckState} (h : s.Sound) {largestAck firstAckRange : Nat} {ranges : List AckRange} :
    ∃ a, s.acktr.recvAck largestAck firstAckRange ranges = .ok a ∧ Sound { s with acktr := a } := by
  obtain ⟨a, ha, hdesc, hcov⟩ := @Acktr.recvAck_ok s.acktr largestAck firstAckRange ranges h.descending
  refine ⟨a, ha, ?_⟩
  rcases recvAck_cases ha with rfl | ⟨i, hi⟩
  · exact h.same rfl rfl
  · obtain ⟨hapart, hlen, hmax⟩ := onAck_shrinks h.descending h.apart hi
    exact h.shrink hdesc hapart hlen hcov hmax

theorem Sound.forget {s : AckState} (h : s.Sound) {pktNum : Nat} (hent : ∃ e ∈ s.acktr.ents, e.pktNum = pktNum) :
    ∃ a, s.acktr.forget pktNum = .ok a ∧ Sound { s with acktr := a } := by
  obtain ⟨e, he, rfl⟩ := hent
  have hsub : (s.acktr.ents.takeWhile (fun e' => decide (e.pktNum < e'.pktNum))).Sublist s.acktr.ents :=
    List.takeWhile_sublist _
  have hsplit := @List.takeWhile_append_dropWhile _ (fun e' : Entry => decide (e.pktNum < e'.pktNum)) s.acktr.ents
  have hnot := List.head?_dropWhile_not (fun e' : Entry => decide (e.pktNum < e'.pktNum)) s.acktr.ents
  have htake : ∀ e' ∈ s.acktr.ents.takeWhile (fun e' => decide (e.pktNum < e'.pktNum)), e.pktNum < e'.pktNum := by
    intro e' he'
    simpa using List.mem_takeWhile_imp he'
  rw [Acktr.forget]
  have hpair := h.descending.pairwise
  have hpos := h.descending.pos
  rw [← hsplit] at he hpair hpos
  have hdrop : e ∈ s.acktr.ents.dropWhile (fun e' => decide (e.pktNum < e'.pktNum)) := by
    rcases List.mem_append.mp he with he | he
    · exact absurd (htake e he) (Nat.lt_irrefl _)
    · exact he
  cases hd : s.acktr.ents.dropWhile (fun e' => decide (e.pktNum < e'.pktNum)) with
  | nil =>
      rw [hd] at hdrop
      cases hdrop
  | cons e' es =>
      rw [hd] at hdrop hnot hpair hpos
      have hle : e'.pktNum ≤ e.pktNum := by simpa using hnot
      have heq : e'.pktNum = e.pktNum := by
        rcases List.mem_cons.mp hdrop with rfl | hmem
        · rfl
        · have hlt := (List.pairwise_cons.mp (List.pairwise_append.mp hpair).2.1).1 e hmem
          have := hpos e' (by simp)
          omega
      simp only
      rw [if_pos heq]
      refine ⟨_, rfl, h.shrink (h.descending.sublist hsub) (h.apart.sublist hsub) hsub.length_le ?_ rfl⟩
      rintro x ⟨b, hb, hx⟩
      exact ⟨b, hsub.subset hb, hx⟩

/-- What is claimed of a frame when `added` are the packet numbers added so far. -/
structure FrameSound (added : List Nat) (fr : AckFrame) : Prop where
  valid : validateAck fr 0 = .ok ()
  ranges_le : fr.ranges.length ≤ maxAckRanges
  largest : IsGreatest {x | x ∈ added} fr.largestAck
  acknowledges : ∀ x, fr.Acknowledges x → x ∈ added

theorem ackRanges_length (low : Nat) (es : List Entry) : (ackRanges low es).length = es.length := by
  induction es generalizing low with
  | nil => rfl
  | cons e es ih => rw [ackRanges, List.length_cons, ih, List.length_cons]

/-- What is needed of the first range, so that the others can follow it. -/
structure FirstSound (added : List Nat) (f : FirstRange) : Prop where
  largest : IsGreatest {x | x ∈ added} f.largestAck
  largest_eq : f.largestAck = f.lastPktNum + f.firstAckRange
  acknowledges : ∀ x, f.lastPktNum ≤ x → x ≤ f.largestAck → x ∈ added
  descending : Descending f.rest
  apart : Apart f.rest
  below : ∀ e ∈ f.rest, e.pktNum + 2 ≤ f.lastPktNum
  covered : ∀ x, Covered f.rest x → x ∈ added

theorem Sound.firstRange {s : AckState} (h : s.Sound) {rpkt : Entry} {rest : List Entry}
    (hents : s.acktr.ents = rpkt :: rest) :
    ∃ f, s.acktr.firstRange rpkt rest = .ok f ∧ FirstSound s.added f := by
  have hdesc := h.descending
  have hapart := h.apart
  have hcov := h.covered
  rw [hents] at hdesc hapart hcov
  obtain ⟨hpos, _, hrest⟩ := descending_cons.mp hdesc
  obtain ⟨hfits, hlt, hrest'⟩ := apart_cons.mp hapart
  have hrpkt : ∀ x, rpkt.pktNum - (rpkt.len - 1) ≤ x → x ≤ rpkt.pktNum → x ∈ s.added := by
    intro x hx hx'
    refine hcov x (covered_cons.mpr (Or.inl ?_))
    rw [Entry.Covers]
    omega
  have hcov' : ∀ x, Covered rest x → x ∈ s.added := fun x hx => hcov x (covered_cons.mpr (Or.inr hx))
  have hbelow : ∀ e ∈ rest, e.pktNum + 2 ≤ rpkt.pktNum - (rpkt.len - 1) := by
    intro e he
    have := hlt e he
    omega
  rw [Acktr.firstRange]
  split
  · rename_i htop
    exact ⟨_, rfl, h.newest _ htop.symm, by simp only; omega, hrpkt, hrest, hrest', hbelow, hcov'⟩
  · rename_i htop
    split
    · rename_i hnext
      have hnewest := h.newest _ hnext.symm
      refine ⟨_, rfl, hnewest, by simp only; omega, fun x hx hx' => ?_, hrest, hrest', hbelow, hcov'⟩
      simp only at hx hx'
      rcases Nat.lt_or_ge rpkt.pktNum x with hgt | hle
      · have heq : x = rpkt.pktNum + 1 := by omega
        rw [heq]
        exact hnewest.1
      · exact hrpkt x hx hle
    · rename_i hnext
      have hmem : rpkt.pktNum ∈ s.added := hrpkt _ (by omega) (Nat.le_refl _)
      cases hmax : s.acktr.maxPktNum with
      | none =>
          rw [h.none_added hmax] at hmem
          cases hmem
      | some n =>
          rw [hmax] at htop hnext
          have hnewest := h.newest n hmax
          have hle := hnewest.2 hmem
          have hne : rpkt.pktNum ≠ n := fun heq => htop (congrArg some heq)
          have hne' : rpkt.pktNum + 1 ≠ n := fun heq => hnext (congrArg some heq)
          simp only
          rw [if_pos (by omega)]
          refine ⟨_, rfl, hnewest, rfl, fun x hx hx' => ?_, hdesc, hapart, fun e he => ?_, hcov⟩
          · rw [Nat.le_antisymm hx' hx]
            exact hnewest.1
          · simp only
            rcases List.mem_cons.mp he with rfl | he
            · omega
            · have := hlt e he
              omega

theorem FirstSound.frame {added : List Nat} {f : FirstRange} (h : FirstSound added f) (hbounded : ∀ x ∈ added, x ≤ maxPktNum)
    {fr : AckFrame} (hlargest : fr.largestAck = f.largestAck) (hfirst : fr.firstAckRange = f.firstAckRange)
    (hranges : fr.ranges = ackRanges f.lastPktNum (f.rest.take maxAckRanges)) : FrameSound added fr := by
  have hsub : (f.rest.take maxAckRanges).Sublist f.rest := List.take_sublist _ _
  have heq := h.largest_eq
  have hmax : f.lastPktNum ≤ maxPktNum := by
    have := hbounded _ h.largest.1
    omega
  obtain ⟨hvalid, hin⟩ := ackRanges_valid (h.descending.sublist hsub) (h.apart.sublist hsub)
    (fun e he => h.below e (hsub.subset he)) hmax
  have hlow : (f.largestAck : Int) - f.firstAckRange = f.lastPktNum := by omega
  refine ⟨?_, ?_, ?_, fun x hx => ?_⟩
  · rw [validateAck, hlargest, hfirst, if_neg (by omega)]
    simp only
    rw [hlow, if_neg (by omega), hranges]
    exact hvalid
  · rw [hranges, ackRanges_length, List.length_take]
    exact Nat.min_le_left _ _
  · rw [hlargest]
    exact h.largest
  · rw [AckFrame.Acknowledges, hlargest, hfirst, hlow, hranges] at hx
    rcases hx with hx | hx
    · exact h.acknowledges x (by omega) (by omega)
    · obtain ⟨e, he, hcov⟩ := hin x hx
      exact h.covered x ⟨e, hsub.subset he, hcov⟩

theorem Sound.createAckFrame {s : AckState} (h : s.Sound) (oneRtt : Bool) (ts ackDelay ackDelayExponent : Nat) :
    ∃ r a, s.acktr.createAckFrame oneRtt ts ackDelay ackDelayExponent = .ok (r, a) ∧
      Sound { s with acktr := a } ∧ ∀ fr ∈ r, FrameSound s.added fr := by
  rw [Acktr.createAckFrame]
  generalize (if s.acktr.immediateAck then 0 else ackDelay) = delay
  split
  · exact ⟨_, _, rfl, h, fun fr hfr => by cases hfr⟩
  split
  · exact ⟨_, _, rfl, h.same rfl rfl, fun fr hfr => by cases hfr⟩
  · rename_i rpkt rest hents
    obtain ⟨f, hf, hsound⟩ := h.firstRange hents
    rw [hf]
    refine ⟨_, _, rfl, h, fun fr hfr => ?_⟩
    cases hfr
    exact hsound.frame h.bounded rfl rfl rfl

theorem step_sound (s : AckState) (op : AckOp) (h : s.Sound) (hop : s.Allowed op) :
    ∃ s', s.step op = .ok s' ∧ s'.Sound := by
  cases op with
  | add pktNum activeAck ts =>
      obtain ⟨a, ha, hsound⟩ := @Sound.add s h pktNum ts activeAck hop.1 hop.2
      exact ⟨_, by rw [step, ha]; rfl, hsound⟩
  | forget pktNum =>
      obtain ⟨a, ha, hsound⟩ := h.forget hop
      exact ⟨_, by rw [step, ha]; rfl, hsound⟩
  | addAck pktNum largestAck => exact ⟨_, rfl, h.same rfl rfl⟩
  | recvAck fr =>
      obtain ⟨a, ha, hsound⟩ := @Sound.recvAck s h fr.largestAck fr.firstAckRange fr.ranges
      exact ⟨_, by rw [step, ha]; rfl, hsound⟩
  | commitAck => exact ⟨_, rfl, h.same rfl rfl⟩
  | immediateAck => exact ⟨_, rfl, h.same rfl rfl⟩
  | increaseEcnCounts ecn =>
      have hents : (s.acktr.increaseEcnCounts ecn).ents = s.acktr.ents := by
        rw [Acktr.increaseEcnCounts.eq_def]
        split <;> rfl
      have hmax : (s.acktr.increaseEcnCounts ecn).maxPktNum = s.acktr.maxPktNum := by
        rw [Acktr.increaseEcnCounts.eq_def]
        split <;> rfl
      exact ⟨_, rfl, h.same hents hmax⟩
  | createAckFrame oneRtt ts ackDelay ackDelayExponent =>
      obtain ⟨r, a, ha, hsound, _⟩ := h.createAckFrame oneRtt ts ackDelay ackDelayExponent
      exact ⟨_, by rw [step, ha]; rfl, hsound⟩

/-- Along every run no assertion fails, the entries are sound, and so is every frame that could be
made at its end. -/
theorem run_ackSound {ops : List AckOp} (hg : Guarded step Allowed .new ops) :
    ∃ s, run step .new ops = .ok s ∧ s.Sound ∧
      ∀ oneRtt ts ackDelay ackDelayExponent, ∃ r a,
        s.acktr.createAckFrame oneRtt ts ackDelay ackDelayExponent = .ok (r, a) ∧ ∀ fr ∈ r, FrameSound s.added fr := by
  obtain ⟨s, hs, hsound⟩ := run_invariant step_sound new_sound hg
  refine ⟨s, hs, hsound, fun oneRtt ts ackDelay ackDelayExponent => ?_⟩
  obtain ⟨r, a, ha, _, hfr⟩ := hsound.createAckFrame oneRtt ts ackDelay ackDelayExponent
  exact ⟨r, a, ha, hfr⟩

/-- Three packets and the acknowledgement of an earlier ACK frame, so that the largest packet number
is next to the first entry. -/
def threeAdded : List AckOp :=
  [.add 3 true 0, .add 5 true 1, .addAck 7 5, .recvAck ⟨none, 7, 0, 0, 0, []⟩, .add 4 true 2]

theorem run_ackSound_three :
    ∃ s, run step .new threeAdded = .ok s ∧ s.Sound ∧
      (s.acktr.createAckFrame true 10 0 3).toOption.map (fun r => r.1.map fun fr => (fr.largestAck, fr.firstAckRange)) =
        some (some (5, 1)) := by
  obtain ⟨s, hs, hsound, _⟩ := @run_ackSound threeAdded (by decide)
  refine ⟨s, hs, hsound, ?_⟩
  cases (show run step .new threeAdded = .ok _ from rfl).symm.trans hs
  rfl

end AckState

end Zngtcp2.PktnsRx
