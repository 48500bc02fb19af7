import Zngtcp2.Strmq.Order

namespace Zngtcp2

open Lib.Run Pq

namespace Strmq

/-- The cycles are in the window of the first one, `cycle_less` is an order that makes the array a heap, no stream is
queued twice, and a stream that is not queued says so. -/
structure Sound (s : Strmq) : Prop where
  window : ∀ x, s.pq.Holds x → InWindow s.cycle (s.cycle (s.pq.q 0)) x
  total : IsStrictTotalOrder {x // s.pq.Holds x} fun a b => cycleLess s.cycle a b = true
  heap : s.pq.IsHeap (cycleLess s.cycle)
  once : ∀ i < s.pq.length, ∀ j < s.pq.length, s.pq.q i = s.pq.q j → i = j
  index : ∀ x, s.strms x = true → (s.pq.index x = badIndex ↔ ¬ s.pq.Holds x)

/-- No callback puts a stream into the queue that goes before the one being written. -/
def Undisturbed (s : Strmq) : Event → Prop
  | .turn turn => turn.found = .noRoom ∨ ∀ strm < s.pq.q 0, (turn.calls.foldl call s).pq.Holds strm → s.pq.Holds strm
  | _ => True

/-- The streams `a` and `b` stay in the queue, and `a` sends no data. -/
def Waits (a b : Nat) (s : Strmq) (ev : Event) : Prop :=
  s.pq.Holds a ∧ s.pq.Holds b ∧
    ∀ s', s.step ev = .ok s' → s'.pq.Holds a ∧ s'.pq.Holds b ∧ s'.sent a = s.sent a

variable {s s' : Strmq} {c : Nat}

theorem rankLess_total {cycle : Nat → Nat} {a b : Nat} (hab : rankLess cycle c a b = false)
    (hba : rankLess cycle c b a = false) : a = b := by
  simp only [rankLess, Bool.or_eq_false_iff, Bool.and_eq_false_iff, decide_eq_false_iff_not] at hab hba
  omega

theorem Inv.total (h : Inv s c) : IsStrictTotalOrder {x // s.pq.Holds x} fun a b => cycleLess s.cycle a b = true := by
  have heq (a b : {x // s.pq.Holds x}) : cycleLess s.cycle a b = rankLess s.cycle c a b := h.agree a b a.2 b.2
  simp only [heq]
  have hweak := rankLess_isStrictWeakOrder s.cycle c
  refine { trichotomous := fun a b hab hba => ?_, irrefl := fun a => hweak.irrefl a, trans := fun a b d => hweak.trans a b d }
  rw [Bool.not_eq_true] at hab hba
  exact Subtype.ext (rankLess_total hab hba)

theorem Inv.sound (h : Inv s c) : Sound s := by
  refine ⟨fun x hx => ?_, h.total, h.heap.congr fun a b ha hb => (h.agree a b ha hb).symm, fun i hi j hj heq => ?_,
    fun x hx => ?_⟩
  · have hwindow := h.first.window x hx
    rwa [firstCycle, if_neg (length_ne hx)] at hwindow
  · exact by_contra fun hne => h.heap.indexed.ne hi hj hne heq
  · rw [← h.queued_iff hx, isTxQueued, decide_eq_true_eq, not_not]

theorem Inv.calls (h : Inv s s.firstCycle) (hne : s.pq.length ≠ 0) {calls : List Call}
    (hids : ∀ call ∈ calls, call.strm < 2 ^ 62) :
    Inv (calls.foldl Strmq.call s) s.firstCycle ∧ Extends s (calls.foldl Strmq.call s) := by
  induction calls generalizing s with
  | nil => exact ⟨h, .refl s⟩
  | cons call calls ih =>
      obtain ⟨hinv, hextends⟩ := h.call call (hids call List.mem_cons_self)
      obtain ⟨htop, hcycle⟩ := hextends.holds _ (top_holds hne)
      have hfirst : (s.call call).firstCycle = s.firstCycle := by
        rw [firstCycle, if_neg (length_ne htop)]
        rw [firstCycle, if_neg hne] at hinv ⊢
        exact hinv.cycle_top htop hcycle
      rw [← hfirst] at hinv
      obtain ⟨hinv', hextends'⟩ := ih hinv (length_ne htop) fun call hcall => hids call (List.mem_cons_of_mem _ hcall)
      rw [hfirst] at hinv'
      exact ⟨hinv', hextends.trans hextends'⟩

/-- Where no stream with a smaller ID has come into the queue, the first stream is still the first one. -/
theorem Inv.top_eq (h : Inv s c) (h' : Inv s' c) (hextends : Extends s s') (hne : s.pq.length ≠ 0)
    (hcycle : s.cycle (s.pq.q 0) = c) (hundisturbed : ∀ x < s.pq.q 0, s'.pq.Holds x → s.pq.Holds x) :
    s'.pq.q 0 = s.pq.q 0 := by
  obtain ⟨hheld, hcycle'⟩ := hextends.holds _ (top_holds hne)
  have htop' := top_holds (length_ne hheld)
  have hfirst : s'.cycle (s'.pq.q 0) = c := h'.cycle_top hheld (hcycle'.trans hcycle)
  apply Nat.le_antisymm
  · have hless := h'.not_less hheld
    simp only [rankLess, hfirst, hcycle', hcycle, Nat.lt_irrefl, decide_false, Bool.false_or, decide_true, Bool.true_and,
      decide_eq_false_iff_not] at hless
    exact Nat.le_of_not_lt hless
  · by_contra hlt
    have hlt := Nat.lt_of_not_le hlt
    have hmem := hundisturbed _ hlt htop'
    have hless := h.not_less hmem
    rw [rankLess, ← (hextends.holds _ hmem).2, hfirst, hcycle] at hless
    simp [hlt] at hless

/-- A stream that is queued before and after either sends nothing and keeps its cycle, or sends data and goes on to the
next cycle. -/
def Advances (s s' : Strmq) : Prop :=
  ∀ x, s.pq.Holds x → s'.pq.Holds x →
    s'.cycle x = s.cycle x ∧ s'.sent x = s.sent x ∨ s'.cycle x = (s.cycle x + 1) % 2 ^ 64 ∧ s'.sent x = s.sent x + 1

theorem Extends.advances (h : Extends s s') : Advances s s' :=
  fun x hx _ => Or.inl ⟨(h.holds x hx).2, congrFun h.sent x⟩

theorem sends_of_ne {strm x : Nat} (hx : x ≠ strm) : (s.sends strm).sent x = s.sent x :=
  Function.update_of_ne hx _ _

theorem Inv.sends (h : Inv s c) (strm : Nat) : Inv (s.sends strm) c :=
  ⟨h.lowest, h.heap, h.window, h.exists_of_holds, h.index, h.word⟩

theorem Extends.trans_advances {s'' : Strmq} (h : Extends s s') (h' : Advances s' s'') : Advances s s'' := by
  intro x hx hx''
  obtain ⟨hx', hcycle⟩ := h.holds x hx
  have hadvances := h' x hx' hx''
  rwa [hcycle, congrFun h.sent x] at hadvances

theorem Inv.idle (h : Inv s c) (hne : s.pq.length ≠ 0) : ∃ s', s.pop = .ok s' ∧ Inv s' c ∧ Advances s s' := by
  obtain ⟨pq, hpop, hinv, -⟩ := h.pop hne
  exact ⟨_, hpop, hinv, fun x _ _ => Or.inl ⟨rfl, rfl⟩⟩

theorem Inv.sendLast (h : Inv s c) (hne : s.pq.length ≠ 0) :
    ∃ s', (s.sends (s.pq.q 0)).pop = .ok s' ∧ Inv s' c ∧ Advances s s' := by
  obtain ⟨pq, hpop, hinv, hholds⟩ := (h.sends (s.pq.q 0)).pop hne
  exact ⟨_, hpop, hinv, fun x _ hx => Or.inl ⟨rfl, sends_of_ne ((hholds x).mp hx).2⟩⟩

/-- The first stream goes on to the next cycle. -/
theorem Inv.sendMore (h : Inv s c) (hne : s.pq.length ≠ 0) (hcycle : s.cycle (s.pq.q 0) = c) (alloc : Bool) :
    ∃ s', ((s.sends (s.pq.q 0)).pop >>= fun s' => .ok ((s'.withCycle (s.pq.q 0)
        ((s'.cycle (s.pq.q 0) + 1) % 2 ^ 64)).push (s.pq.q 0) alloc).2) = Except.ok s' ∧ Inv s' c ∧ Advances s s' := by
  obtain ⟨hexists, hid⟩ := h.exists_of_holds _ (top_holds hne)
  generalize hstrm : s.pq.q 0 = strm at *
  obtain ⟨pq, hpop, hinv, hholds⟩ := (h.sends strm).pop hne
  have hnot : ¬ pq.Holds strm := fun hx => ((hholds strm).mp hx).2 hstrm.symm
  rw [hpop]
  have hnext := hinv.withCycle hnot (Nat.mod_lt (s.cycle strm + 1) (show 0 < 2 ^ 64 by decide))
  have hself := withCycle_self (s := { s.sends strm with pq := pq }) strm ((s.cycle strm + 1) % 2 ^ 64)
  obtain ⟨hpush, -, -⟩ := hnext.push hnot hexists hid (Or.inr (hself.trans (by rw [hcycle]))) alloc
  refine ⟨_, rfl, hpush, fun x hx _ => ?_⟩
  by_cases hxs : x = strm
  · subst hxs
    exact Or.inr ⟨hself, Function.update_self _ _ _⟩
  · exact Or.inl ⟨withCycle_of_ne hxs _, sends_of_ne hxs⟩

/-- What a turn of the loop does with the first stream. -/
theorem Inv.writeStrm (h : Inv s s.firstCycle) (hne : s.pq.length ≠ 0) {turn : Turn}
    (hids : ∀ call ∈ turn.calls, call.strm < 2 ^ 62) (hundisturbed : s.Undisturbed (.turn turn)) :
    ∃ s', s.writeStrm turn = .ok s' ∧ Inv s' s.firstCycle ∧ Advances s s' := by
  obtain ⟨hinv, hextends⟩ := h.calls hne hids
  have hcycle : s.cycle (s.pq.q 0) = s.firstCycle := (if_neg hne).symm
  have htop : s.top = .ok (s.pq.q 0) := if_neg hne
  obtain ⟨hheld, hcycle'⟩ := hextends.holds _ (top_holds hne)
  have hne' := length_ne hheld
  rw [Strmq.writeStrm, htop]
  rw [Undisturbed] at hundisturbed
  generalize turn.calls.foldl Strmq.call s = s₁ at hinv hextends hheld hcycle' hne' hundisturbed ⊢
  have hsame (hfound : turn.found ≠ .noRoom) : s₁.pq.q 0 = s.pq.q 0 :=
    h.top_eq hinv hextends hne hcycle (hundisturbed.resolve_left hfound)
  cases hfound : turn.found with
  | noRoom => exact ⟨s₁, rfl, hinv, hextends.trans_advances (Extends.refl s₁).advances⟩
  | idle =>
      obtain ⟨s', heq, hinv', hadvances⟩ := hinv.idle hne'
      exact ⟨s', heq, hinv', hextends.trans_advances hadvances⟩
  | data more =>
      have htop₁ := hsame (by rw [hfound]; exact Found.noConfusion)
      rw [← htop₁]
      cases more with
      | false =>
          obtain ⟨s', heq, hinv', hadvances⟩ := hinv.sendLast hne'
          exact ⟨s', heq, hinv', hextends.trans_advances hadvances⟩
      | true =>
          obtain ⟨s', heq, hinv', hadvances⟩ := hinv.sendMore hne' (by rw [htop₁, hcycle', hcycle]) turn.alloc
          exact ⟨s', heq, hinv', hextends.trans_advances hadvances⟩

theorem step_spec (h : ∃ c, Inv s c) {ev : Event} (hallowed : s.Allowed ev) (hundisturbed : s.Undisturbed ev) :
    ∃ s', s.step ev = .ok s' ∧ (∃ c, Inv s' c) ∧ Advances s s' := by
  obtain ⟨c, h⟩ := h
  cases ev with
  | call call =>
      obtain ⟨hinv, hextends⟩ := h.first.call call hallowed
      exact ⟨_, rfl, ⟨_, hinv⟩, hextends.advances⟩
  | close strm =>
      obtain ⟨pq, hclose, hinv, -⟩ := h.closeStream hallowed
      exact ⟨_, hclose, ⟨c, hinv⟩, fun x _ _ => Or.inl ⟨rfl, rfl⟩⟩
  | retry =>
      obtain ⟨s', hpop, hinv, hadvances⟩ := h.idle hallowed
      exact ⟨s', hpop, ⟨c, hinv⟩, hadvances⟩
  | turn turn =>
      obtain ⟨s', hturn, hinv, hadvances⟩ := h.first.writeStrm hallowed.1 hallowed.2 hundisturbed
      exact ⟨s', hturn, ⟨_, hinv⟩, hadvances⟩

theorem init_inv : Inv init 0 := by
  have hnone : ∀ x, ¬ init.pq.Holds x := fun x ⟨i, hi, _⟩ => Nat.not_lt_zero i hi
  refine ⟨by decide, ?_, fun x hx => absurd hx (hnone x), fun x hx => absurd hx (hnone x), fun _ _ _ => rfl, fun _ => ?_⟩
  · exact ⟨fun i _ hi => absurd hi (Nat.not_lt_zero i), fun i hi => absurd hi (Nat.not_lt_zero i), Nat.le_refl 0⟩
  · exact Nat.pow_pos Nat.two_pos

/-- How much further the stream `b` is than the stream `a`: none, one, or two cycles. -/
def lead (s : Strmq) (a b : Nat) : Nat :=
  sub64 (s.cycle b + 1) (s.cycle a)

theorem Inv.lead_le (h : Inv s c) {a b : Nat} (ha : s.pq.Holds a) (hb : s.pq.Holds b) : s.lead a b ≤ 2 := by
  have hlowest := h.lowest
  rw [lead, sub64]
  rcases h.window a ha with ha | ha <;> rcases h.window b hb with hb | hb <;> rw [ha, hb] <;> omega

/-- While `a` waits, each frame that `b` sends adds to its lead. -/
theorem Advances.lead (h : Advances s s') {a b : Nat} (hword : ∀ x, s.cycle x < 2 ^ 64) (ha : s.pq.Holds a)
    (hb : s.pq.Holds b) (ha' : s'.pq.Holds a) (hb' : s'.pq.Holds b) (hsent : s'.sent a = s.sent a) (hle : s.lead a b ≤ 2) :
    s'.sent b + s.lead a b = s.sent b + s'.lead a b := by
  have hwa := hword a
  have hwb := hword b
  have hcycle : s'.cycle a = s.cycle a := (h a ha ha').elim And.left fun hnext => by omega
  rw [Strmq.lead, sub64] at hle
  rw [Strmq.lead, Strmq.lead, sub64, sub64, hcycle]
  rcases h b hb hb' with ⟨hb, hsent⟩ | ⟨hb, hsent⟩ <;> rw [hb, hsent]
  omega

theorem run_inv (h : ∃ c, Inv s c) {evs : List Event}
    (hg : Guarded step (fun s ev => s.Allowed ev ∧ s.Undisturbed ev) s evs) :
    ∃ s', run step s evs = .ok s' ∧ ∃ c, Inv s' c := by
  have hstep : ∀ s ev, (∃ c, Inv s c) → s.Allowed ev ∧ s.Undisturbed ev → ∃ s', s.step ev = .ok s' ∧ ∃ c, Inv s' c := by
    intro s ev h hg
    obtain ⟨s', hstep, hinv, -⟩ := step_spec h hg.1 hg.2
    exact ⟨s', hstep, hinv⟩
  exact run_invariant hstep h hg

/-- While `a` waits, the number of frames sent by `b` follows its lead. -/
theorem run_waits (h : ∃ c, Inv s c) {evs : List Event} {a b : Nat}
    (hg : Guarded step (fun s ev => s.Allowed ev ∧ s.Undisturbed ev) s evs) (hwaits : Guarded step (Waits a b) s evs) :
    ∃ s', run step s evs = .ok s' ∧ s'.sent b ≤ s.sent b + 2 := by
  cases evs with
  | nil => exact ⟨s, rfl, Nat.le_add_right _ 2⟩
  | cons ev evs =>
      have hstep : ∀ s₁ ev, ((∃ c, Inv s₁ c) ∧ s₁.pq.Holds a ∧ s₁.pq.Holds b ∧
          s₁.sent b + s.lead a b = s.sent b + s₁.lead a b) → (s₁.Allowed ev ∧ s₁.Undisturbed ev) ∧ Waits a b s₁ ev →
          ∃ s₂, s₁.step ev = .ok s₂ ∧ (∃ c, Inv s₂ c) ∧ s₂.pq.Holds a ∧ s₂.pq.Holds b ∧
            s₂.sent b + s.lead a b = s.sent b + s₂.lead a b := by
        rintro s₁ ev ⟨hinv, ha, hb, hlead⟩ ⟨⟨hallowed, hundisturbed⟩, -, -, hlater⟩
        obtain ⟨s₂, hstep, hinv₂, hadvances⟩ := step_spec hinv hallowed hundisturbed
        obtain ⟨ha₂, hb₂, hsent⟩ := hlater s₂ hstep
        obtain ⟨c, hinv⟩ := hinv
        have hnext := hadvances.lead hinv.word ha hb ha₂ hb₂ hsent (hinv.lead_le ha hb)
        exact ⟨s₂, hstep, hinv₂, ha₂, hb₂, by omega⟩
      obtain ⟨s', hrun, ⟨c, hinv⟩, ha, hb, hlead⟩ :=
        run_invariant hstep ⟨h, hwaits.1.1, hwaits.1.2.1, rfl⟩ (hg.and hwaits)
      have hle := hinv.lead_le ha hb
      exact ⟨s', hrun, by omega⟩

theorem cycles_sound {evs : List Event} (hg : Guarded step (fun s ev => s.Allowed ev ∧ s.Undisturbed ev) init evs) :
    ∃ s, run step init evs = .ok s ∧ Sound s ∧
      ∀ (a b : Nat) (later : List Event), Guarded step (fun s ev => s.Allowed ev ∧ s.Undisturbed ev) s later →
        Guarded step (Waits a b) s later → ∃ s', run step s later = .ok s' ∧ s'.sent b ≤ s.sent b + 2 := by
  obtain ⟨s, hrun, hinv⟩ := run_inv ⟨0, init_inv⟩ hg
  exact ⟨s, hrun, hinv.choose_spec.sound, fun a b later hg hwaits => run_waits hinv hg hwaits⟩

/-- Stream 4 has sent a frame when stream 0 joins stream 8, which is still on the first cycle. -/
def joinRun : List Event :=
  [.call (.open 0), .call (.open 4), .call (.open 8), .call (.schedule 4 true), .call (.schedule 8 true),
    .turn ⟨[], .data true, true⟩, .call (.schedule 0 true)]

def moreRun : List Event :=
  [.turn ⟨[], .data true, true⟩, .turn ⟨[], .data true, true⟩, .turn ⟨[], .data true, true⟩]

instance decidableHolds (s : Strmq) (x : Nat) : Decidable (s.pq.Holds x) :=
  inferInstanceAs (Decidable (∃ i < s.pq.length, s.pq.q i = x))

instance decidableUndisturbed (s : Strmq) : (ev : Event) → Decidable (s.Undisturbed ev)
  | .turn _ => inferInstanceAs (Decidable (_ ∨ _))
  | .call _ | .close _ | .retry => .isTrue trivial

instance decidableWaits (a b : Nat) (s : Strmq) (ev : Event) : Decidable (Waits a b s ev) :=
  match hs : s.step ev with
  | .ok s' =>
      decidable_of_iff (s.pq.Holds a ∧ s.pq.Holds b ∧ s'.pq.Holds a ∧ s'.pq.Holds b ∧ s'.sent a = s.sent a)
        (by simp [Waits, hs])
  | .error _ => decidable_of_iff (s.pq.Holds a ∧ s.pq.Holds b) (by simp [Waits, hs])

/-- Stream 0 sends two frames while stream 4 waits. -/
theorem cycles_sound_twice :
    ∃ s, run step init joinRun = .ok s ∧ Sound s ∧
      ∃ s', run step s moreRun = .ok s' ∧ s'.sent 0 ≤ s.sent 0 + 2 ∧ s'.sent 0 = 2 ∧ s'.sent 4 = s.sent 4 := by
  have hmore : ∃ s ∈ (run step init joinRun).toOption,
      (Guarded step (fun s ev => s.Allowed ev ∧ s.Undisturbed ev) s moreRun ∧ Guarded step (Waits 4 0) s moreRun) ∧
        ∃ s' ∈ (run step s moreRun).toOption, s'.sent 0 = 2 ∧ s'.sent 4 = s.sent 4 := by
    decide +kernel
  obtain ⟨s, hs, ⟨hg, hwaits⟩, s', hs', hsent⟩ := hmore
  have hrun := ok_of_toOption hs
  have hrun' := ok_of_toOption hs'
  have hjoin : Guarded step (fun s ev => s.Allowed ev ∧ s.Undisturbed ev) init joinRun := by decide +kernel
  obtain ⟨s₁, hrun₁, hsound, hlater⟩ := cycles_sound hjoin
  rw [hrun] at hrun₁
  cases hrun₁
  obtain ⟨s₂, hrun₂, hle⟩ := hlater 4 0 moreRun hg hwaits
  rw [hrun'] at hrun₂
  cases hrun₂
  exact ⟨s, hrun, hsound, s', hrun', hle, hsent⟩

/-- Stream 4, which has more to send, asks stream 0 to be stopped while it is being written. -/
def disturbedRun : List Event :=
  [.call (.open 0), .call (.open 4), .call (.schedule 4 true), .turn ⟨[.schedule 0 true], .data true, true⟩]

theorem cycles_disturbed :
    ∃ s, Guarded step Allowed init disturbedRun ∧ run step init disturbedRun = .ok s ∧ ¬ Sound s := by
  have hrun : ∃ s ∈ (run step init disturbedRun).toOption,
      Guarded step Allowed init disturbedRun ∧ 1 < s.pq.length ∧ s.pq.q 0 = s.pq.q 1 := by
    decide +kernel
  obtain ⟨s, hs, hallowed, hlt, heq⟩ := hrun
  exact ⟨s, hallowed, ok_of_toOption hs, fun h => absurd (h.once 0 (by omega) 1 hlt heq) Nat.zero_ne_one⟩

end Strmq

end Zngtcp2
