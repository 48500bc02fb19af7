import Zngtcp2.Tx.CryptoRuns

namespace Zngtcp2.CryptoTx

open Strm TxStrm Lib.Segment Lib.Run

def chainBytes (chain : List BufChain) : List Cell :=
  chain.flatMap BufChain.content

theorem bufferCryptoData_bytes (addr : Nat) (data : List Cell) (chain : List BufChain) :
    chainBytes (bufferCryptoData addr data chain).2 = chainBytes chain ++ data := by
  induction chain with
  | nil => simp [bufferCryptoData, chainBytes, bufChainNew]
  | cons c cs ih =>
      cases cs with
      | nil =>
          rw [bufferCryptoData]
          split <;> simp [chainBytes, bufChainNew]
      | cons d ds =>
          rw [bufferCryptoData]
          · simp only [chainBytes, List.flatMap_cons] at ih ⊢
            rw [ih]
            simp only [List.append_assoc]
          · exact fun h => List.cons_ne_nil d ds h

/-- `conn_ack_crypto_data` takes `datalen` bytes off the front of the chain, if it has so many. -/
theorem ackCryptoData_spec {datalen : Nat} {chain : List BufChain} (h : datalen ≤ (chainBytes chain).length) :
    ∃ chain', ackCryptoData datalen chain = some chain' ∧ chainBytes chain' = (chainBytes chain).drop datalen := by
  induction chain generalizing datalen with
  | nil =>
      have h0 : datalen = 0 := Nat.le_zero.mp h
      subst h0
      exact ⟨[], rfl, rfl⟩
  | cons c cs ih =>
      have hcons : chainBytes (c :: cs) = c.content ++ chainBytes cs := by simp [chainBytes]
      rw [hcons] at h ⊢
      rw [List.length_append] at h
      rw [ackCryptoData]
      split
      · rename_i hlt
        refine ⟨_, rfl, ?_⟩
        rw [List.drop_append_of_le_length (Nat.le_of_lt hlt)]
        simp [chainBytes]
      · rename_i hge
        split
        · rename_i h0
          refine ⟨cs, rfl, ?_⟩
          rw [show datalen = c.content.length by omega, List.drop_left]
        · obtain ⟨chain', hack, hbytes⟩ := ih (show datalen - c.content.length ≤ _ by omega)
          refine ⟨chain', hack, ?_⟩
          rw [hbytes, List.drop_append, List.drop_of_length_le (l := c.content) (by omega), List.nil_append]

theorem mem_copiedFrom {offset : Nat} {subs : List Submission} {c : Cell} (h : c ∈ copiedFrom offset subs) :
    offset ≤ c.1 ∧ c.1 < offset + (allSubmitted subs).length := by
  induction subs generalizing offset with
  | nil => cases h
  | cons sub subs ih =>
      have hlen : (allSubmitted (sub :: subs)).length = sub.data.length + (allSubmitted subs).length := by
        simp [allSubmitted]
      rw [hlen]
      rw [copiedFrom] at h
      rcases List.mem_append.mp h with h | h
      · split at h
        · cases h
        · have := mem_cells h
          omega
      · have := ih h
        omega

theorem copiedFrom_ascending (offset : Nat) (subs : List Submission) : Ascending (copiedFrom offset subs) := by
  induction subs generalizing offset with
  | nil => exact List.Pairwise.nil
  | cons sub subs ih =>
      refine List.pairwise_append.mpr ⟨?_, ih _, ?_⟩
      · split
        · exact List.Pairwise.nil
        · exact cells_ascending _ _
      · intro a ha b hb
        split at ha
        · cases ha
        · exact Nat.lt_of_lt_of_le (mem_cells ha).2 (mem_copiedFrom hb).1

theorem copied_or_retained {offset : Nat} {subs : List Submission} {x : Nat} (hx : offset ≤ x)
    (hx' : x < offset + (allSubmitted subs).length) (hret : ¬RetainedAt offset subs x) :
    ∃ b, (x, b) ∈ copiedFrom offset subs := by
  induction subs generalizing offset with
  | nil => exact absurd hx' (Nat.not_lt.mpr hx)
  | cons sub subs ih =>
      have hlen : (allSubmitted (sub :: subs)).length = sub.data.length + (allSubmitted subs).length := by
        simp [allSubmitted]
      rw [hlen] at hx'
      rw [RetainedAt, not_or] at hret
      rw [copiedFrom]
      by_cases hin : x < offset + sub.data.length
      · obtain ⟨b, hb⟩ := exists_mem_cells hx hin
        refine ⟨b, List.mem_append_left _ ?_⟩
        rw [if_neg (fun hr => hret.1 ⟨hr, hx, hin⟩)]
        exact hb
      · obtain ⟨b, hb⟩ := ih (Nat.not_lt.mp hin) (by omega) hret.2
        exact ⟨b, List.mem_append_right _ hb⟩

theorem copiedFrom_snoc (offset : Nat) (subs : List Submission) (sub : Submission) :
    copiedFrom offset (subs ++ [sub]) = copiedFrom offset subs ++
      if sub.retained then [] else cells (offset + (allSubmitted subs).length) sub.data := by
  induction subs generalizing offset with
  | nil => simp [copiedFrom, allSubmitted]
  | cons s subs ih =>
      rw [List.cons_append, copiedFrom, ih, copiedFrom, List.append_assoc]
      simp [allSubmitted, Nat.add_assoc]

def copiedBytes (s : State) : List Cell :=
  copiedFrom 0 s.submitted

/-- The chain holds exactly the copied bytes from the contiguous acknowledged offset on. -/
def ChainExact (s : State) : Prop :=
  chainBytes s.data = cellsFrom s.strm.acked.ackedOffset (copiedBytes s)

theorem Submitted.chainExact {s s' : State} {sub : Submission} {addr : Nat} (h : Submitted s sub addr s') (hinv : Inv s)
    (hc : ChainExact s) : ChainExact s' := by
  rw [ChainExact, copiedBytes, h.submitted, copiedFrom_snoc, Nat.zero_add, h.acked, cellsFrom, List.filter_append, h.data]
  change _ = cellsFrom _ (copiedBytes s) ++ _
  rw [← hc]
  split
  · simp
  · rw [bufferCryptoData_bytes, hinv.offset]
    congr 1
    symm
    apply List.filter_eq_self.mpr
    intro c hcell
    have hle := hinv.wf.ackedOffset_le_bound
    have hge := (mem_cells hcell).1
    rw [decide_eq_true_eq]
    exact Nat.le_trans hle hge

theorem ackFrames_mono {bound : Nat} {frs : List TxFrame} {acked : Acked} (hwf : acked.Wf bound)
    (hle : ∀ fr ∈ frs, fr.endOff ≤ bound) : acked.ackedOffset ≤ (ackFrames frs acked).ackedOffset := by
  induction frs generalizing acked with
  | nil => exact Nat.le_refl _
  | cons fr frs ih =>
      have hfr := hle fr List.mem_cons_self
      exact Nat.le_trans (hwf.ackedOffset_mono hfr) (ih (hwf.ackData hfr) (fun g hg => hle g (List.mem_cons_of_mem fr hg)))

/-- Acknowledging the frames of an entry takes the right bytes off the chain, if none of the bytes
that get out of the way was retained. -/
theorem processAckedPkt_chain {subs : List Submission} {frs : List TxFrame} {acked : Acked} {chain : List BufChain}
    (hwf : acked.Wf (allSubmitted subs).length) (hle : ∀ fr ∈ frs, fr.endOff ≤ (allSubmitted subs).length)
    (hret : ∀ x < (ackFrames frs acked).ackedOffset, ¬RetainedAt 0 subs x)
    (hc : chainBytes chain = cellsFrom acked.ackedOffset (copiedFrom 0 subs)) :
    match processAckedPkt frs acked chain with
    | .ok (acked', chain') => chainBytes chain' = cellsFrom acked'.ackedOffset (copiedFrom 0 subs)
    | .error e => e ≠ .ackedTooMuch := by
  induction frs generalizing acked chain with
  | nil => exact hc
  | cons fr frs ih =>
      have hfr := hle fr List.mem_cons_self
      have hrest : ∀ g ∈ frs, g.endOff ≤ (allSubmitted subs).length := fun g hg => hle g (List.mem_cons_of_mem fr hg)
      have hwf₁ := hwf.ackData hfr
      have hmono := hwf.ackedOffset_mono hfr
      have hfinal := ackFrames_mono hwf₁ hrest
      have hret₁ : ∀ x < (ackFrames frs (acked.ackData fr.offset fr.datalen).2).ackedOffset, ¬RetainedAt 0 subs x := hret
      have hbound := hwf₁.ackedOffset_le_bound
      have hih := fun chain₁ => @ih (acked.ackData fr.offset fr.datalen).2 chain₁ hwf₁ hrest hret₁
      rw [processAckedPkt]
      generalize acked.ackData fr.offset fr.datalen = r at hmono hfinal hret₁ hbound hih
      obtain ⟨rv, acked₁⟩ := r
      cases rv with
      | ok =>
          simp only at hmono hfinal hret₁ hbound hih ⊢
          have hall : ∀ x, acked.ackedOffset ≤ x → x < acked₁.ackedOffset → ∃ y, (x, y) ∈ copiedFrom 0 subs := by
            intro x _ hx
            exact copied_or_retained (Nat.zero_le x) (by omega) (hret₁ x (by omega))
          obtain ⟨hlen, hdrop⟩ := cellsFrom_drop (copiedFrom_ascending 0 subs) hmono hall
          by_cases h0 : acked₁.ackedOffset - acked.ackedOffset = 0
          · rw [if_pos h0]
            refine hih chain ?_
            rw [hc]
            congr 1
            omega
          · rw [← hc] at hlen
            obtain ⟨chain', hack, hbytes⟩ := ackCryptoData_spec hlen
            rw [if_neg h0, hack]
            exact hih chain' (by rw [hbytes, hc, hdrop])
      | _ => simp

theorem acked_chainExact {s : State} {i : Nat} (hinv : Inv s) (hc : ChainExact s) (hret : AcksCopied s (.acked i)) :
    match s.acked i with
    | .ok s' => ChainExact s'
    | .error e => e ≠ .ackedTooMuch := by
  rw [State.acked]
  cases hent : s.rtb[i]? with
  | none => exact hc
  | some ent =>
      rw [AcksCopied, hent] at hret
      have hframes := hinv.rtb ent (List.mem_of_getElem? hent)
      have hack := processAckedPkt_chain hinv.wf (fun fr hfr => (hframes fr hfr).le) hret hc
      cases hr : processAckedPkt ent.frames s.strm.acked s.data with
      | ok r =>
          rw [hr] at hack
          simp only [hr, bind, Except.bind]
          exact hack
      | error e =>
          rw [hr] at hack
          simp only [hr, bind, Except.bind]
          exact hack

/-- The steps other than submissions and acknowledgements leave the chain as it is. -/
theorem step_data {s s' : State} {i : Input} (hsub : ∀ sub addr, i ≠ .submit sub addr) (hack : ∀ j, i ≠ .acked j)
    (h : step s i = .ok s') :
    s'.data = s.data ∧ s'.submitted = s.submitted ∧ s'.strm.acked = s.strm.acked := by
  cases i with
  | submit sub addr => exact absurd rfl (hsub sub addr)
  | acked j => exact absurd rfl (hack j)
  | round crumble left =>
      obtain ⟨r, _, h⟩ := bind_ok (halting_ok h)
      cases h
      exact ⟨rfl, rfl, rfl⟩
  | finish =>
      cases h
      rw [State.finish]
      split <;> exact ⟨rfl, rfl, rfl⟩
  | lost i =>
      have h := halting_ok h
      rw [State.lost] at h
      split at h
      · cases h
        exact ⟨rfl, rfl, rfl⟩
      · obtain ⟨r, _, h⟩ := bind_ok h
        cases h
        exact ⟨rfl, rfl, rfl⟩
  | pto n =>
      obtain ⟨r, _, h⟩ := bind_ok (halting_ok h)
      cases h
      exact ⟨rfl, rfl, rfl⟩
  | expired i =>
      cases h
      rw [State.expired]
      split
      · exact ⟨rfl, rfl, rfl⟩
      · split <;> exact ⟨rfl, rfl, rfl⟩

theorem step_chainExact {s s' : State} {i : Input} (hinv : Inv s) (hc : ChainExact s) (hret : AcksCopied s i)
    (h : step s i = .ok s') : ChainExact s' := by
  have hother : (∀ sub addr, i ≠ .submit sub addr) → (∀ j, i ≠ .acked j) → ChainExact s' := by
    intro hsub hack
    obtain ⟨hdata, hsubs, hacked⟩ := step_data hsub hack h
    rw [ChainExact, copiedBytes, hdata, hsubs, hacked]
    exact hc
  cases i with
  | submit sub addr =>
      rcases submit_cases (halting_ok h) with rfl | hsub
      · exact hc
      · exact hsub.chainExact hinv hc
  | acked j =>
      have hack := acked_chainExact hinv hc hret
      rw [show s.acked j = .ok s' from h] at hack
      exact hack
  | _ => exact hother (by simp) (by simp)

theorem halting_ne {α : Type} {x : Except Stop α} {e : Halt} (h : halting x = .error e) : e ≠ .ackedTooMuch := by
  cases x with
  | ok a => cases h
  | error e' =>
      cases h
      simp

theorem step_not_ackedTooMuch {s : State} {i : Input} {e : Halt} (hinv : Inv s) (hc : ChainExact s)
    (hret : AcksCopied s i) (h : step s i = .error e) : e ≠ .ackedTooMuch := by
  cases i with
  | acked j =>
      have hack := acked_chainExact hinv hc hret
      rw [show s.acked j = .error e from h] at hack
      exact hack
  | finish => cases h
  | expired j => cases h
  | submit sub addr => exact halting_ne h
  | round crumble left => exact halting_ne h
  | lost j => exact halting_ne h
  | pto n => exact halting_ne h

/-- In every run whose acknowledgements never move the contiguous acknowledged offset past a byte of
a retained submission, `conn_ack_crypto_data` finds as many bytes as it has to take off the chain,
and the chain always holds exactly the copied bytes from that offset on. -/
theorem run_chainExact (pcg : Crumble.Pcg32) (inputs : List Input) (hfits : Guarded step Fits (State.new pcg) inputs)
    (hacks : Guarded step AcksCopied (State.new pcg) inputs) :
    run step (State.new pcg) inputs ≠ .error .ackedTooMuch ∧
      ∀ s, run step (State.new pcg) inputs = .ok s → ChainExact s := by
  have hok : ∀ s i s', (Inv s ∧ ChainExact s) → Fits s i ∧ AcksCopied s i → step s i = .ok s' → Inv s' ∧ ChainExact s' :=
    fun s i s' hs hg h => ⟨step_inv hs.1 hg.1 h, step_chainExact hs.1 hs.2 hg.2 h⟩
  have herr : ∀ s i e, (Inv s ∧ ChainExact s) → Fits s i ∧ AcksCopied s i → step s i = .error e → e ≠ Halt.ackedTooMuch :=
    fun s i e hs hg h => step_not_ackedTooMuch hs.1 hs.2 hg.2 h
  rcases run_tolerates hok herr ⟨new_inv pcg, rfl⟩ (hfits.and hacks) with ⟨s, hrun, hs⟩ | ⟨e, hrun, he⟩
  · rw [hrun]
    refine ⟨by simp, ?_⟩
    intro s' hs'
    cases hs'
    exact hs.2
  · rw [hrun]
    refine ⟨?_, by simp⟩
    intro h
    cases h
    exact he rfl

/-- The two submissions of `mixed`, with the copied bytes acknowledged in the other order. -/
def outOfOrder : List Input :=
  [.submit ⟨false, [1, 2, 3]⟩ 4096, .submit ⟨true, [4, 5]⟩ 0, .round false 5, .finish, .round false 60, .finish,
    .round true 300, .finish, .acked 1, .acked 1]

theorem run_chainExact_outOfOrder :
    run step (State.new seed) outOfOrder ≠ .error .ackedTooMuch ∧
      ∀ s, run step (State.new seed) outOfOrder = .ok s → ChainExact s :=
  run_chainExact seed outOfOrder (by decide +kernel) (by decide +kernel)

/-- The acknowledgement of a retained submission frees the copied bytes behind it, which are still
in flight. -/
theorem retained_ack_frees_copied :
    ¬ ∀ pcg inputs, Guarded step Fits (State.new pcg) inputs →
      run step (State.new pcg) inputs ≠ .error .ackedTooMuch ∧
        ∀ s, run step (State.new pcg) inputs = .ok s → ChainExact s := by
  intro h
  obtain ⟨_, hchain⟩ := h seed [.submit ⟨true, [4, 5]⟩ 0, .submit ⟨false, [1, 2]⟩ 4096, .round true 300, .finish,
    .round true 300, .finish, .acked 0] (by decide +kernel)
  have hdata : (run step (State.new seed) [.submit ⟨true, [4, 5]⟩ 0, .submit ⟨false, [1, 2]⟩ 4096, .round true 300, .finish,
      .round true 300, .finish, .acked 0]).toOption.map (fun s => (s.data, s.strm.acked, s.submitted)) =
      some ([], ⟨2, none⟩, [⟨true, [4, 5]⟩, ⟨false, [1, 2]⟩]) := by decide +kernel
  cases hrun : run step (State.new seed) [.submit ⟨true, [4, 5]⟩ 0, .submit ⟨false, [1, 2]⟩ 4096, .round true 300, .finish,
      .round true 300, .finish, .acked 0] with
  | error e =>
      rw [hrun] at hdata
      cases hdata
  | ok s =>
      have hexact := hchain s hrun
      rw [hrun] at hdata
      simp only [Except.toOption, Option.map_some, Option.some.injEq, Prod.mk.injEq] at hdata
      rw [ChainExact, copiedBytes, hdata.1, hdata.2.1, hdata.2.2] at hexact
      revert hexact
      decide

end Zngtcp2.CryptoTx
