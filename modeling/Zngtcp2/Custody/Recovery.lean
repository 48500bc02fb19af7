import Zngtcp2.Custody.Calls

namespace Zngtcp2.Custody

open Lib.Ledger Env

theorem entries_eraseIdx {rtb : List Entry} {i : Nat} {ent : Entry} (h : rtb[i]? = some ent) :
    (rtb.flatMap Entry.frames).Perm (ent.frames ++ (rtb.eraseIdx i).flatMap Entry.frames) := by
  obtain ⟨hi, rfl⟩ := List.getElem?_eq_some_iff.mp h
  exact (List.getElem_cons_eraseIdx_perm hi).symm.flatMap_right Entry.frames

theorem entries_modify {f : Entry → Entry} (hf : ∀ ent, (f ent).frames = ent.frames) (rtb : List Entry) (i : Nat) :
    (rtb.modify i f).flatMap Entry.frames = rtb.flatMap Entry.frames := by
  induction rtb generalizing i with
  | nil => rw [List.modify_nil]
  | cons ent rtb ih =>
      cases i with
      | zero => rw [List.modify_zero_cons, List.flatMap_cons, List.flatMap_cons, hf]
      | succ i => rw [List.modify_succ_cons, List.flatMap_cons, List.flatMap_cons, ih]

theorem Space.live_eraseIdx {sp : Space} {i : Nat} {ent : Entry} (h : sp.rtb[i]? = some ent) :
    sp.live.Perm (ent.frames ++ { sp with rtb := sp.rtb.eraseIdx i }.live) := by
  have hperm := ((entries_eraseIdx h).append_left sp.frq).append_right sp.crypto.queue
  refine hperm.trans ?_
  rw [Space.live, ← List.append_assoc ent.frames]
  exact (List.perm_append_comm_assoc _ _ _).append_right _

namespace Conn

variable {P : Slice → Prop} {c : Conn}

theorem closeStream_carries (sid : Nat) : Carries P c [] (c.closeStream sid) [] := by
  rw [closeStream]
  cases hs : c.findStrm sid with
  | none => exact .refl P c []
  | some s =>
      obtain ⟨-, rest, hlive, -, herase⟩ := live_findStrm hs
      exact ⟨.refl _, (delList_keeps P c.env s.queue rest).perm hlive.symm herase.symm⟩

theorem ackFrame_carries (level : Level) (closing : List Nat) (fr : Frame) :
    Carries P c [] (c.ackFrame level closing fr).2 [] := by
  rw [ackFrame]
  cases fr.type with
  | stream =>
      cases hs : c.findStrm fr.sid with
      | none => exact .refl P c []
      | some s =>
          have hstrm := @setStrm_carries P c [] [] fr.sid s
            { s with anyAcked := true, finAcked := s.finAcked || fr.fin, acked := (s.acked.ackData fr.offset fr.datalen).2 }
            c.env.draw.2 hs rfl (draw_keeps P c.env s.queue)
          simp only
          split
          · exact hstrm
          · split
            · exact hstrm.trans (closeStream_carries fr.sid)
            · exact hstrm
  | crypto =>
      cases hsp : c.space level with
      | none => exact .refl P c []
      | some sp => exact moveSpace_carries hsp (.refl _)

theorem ackFrames_carries (level : Level) (closing : List Nat) (frs : List Frame) (c : Conn) :
    Carries P c [] (ackFrames level closing frs c) [] := by
  induction frs generalizing c with
  | nil => exact .refl P c []
  | cons fr frs ih =>
      have hframe := @ackFrame_carries P c level closing fr
      rw [ackFrames]
      generalize c.ackFrame level closing fr = r at hframe
      obtain ⟨ok, c'⟩ := r
      cases ok with
      | false => exact hframe
      | true => exact hframe.trans (ih c')

theorem acked_carries (level : Level) (i : Nat) (closing : List Nat) : Carries P c [] (c.acked level i closing) [] := by
  rw [acked]
  cases hsp : c.space level with
  | none => exact .refl P c []
  | some sp =>
      simp only
      cases hent : sp.rtb[i]? with
      | none => exact .refl P c []
      | some ent =>
          have hremove := @moveSpace_carries P c [] ent.frames level sp (some { sp with rtb := sp.rtb.eraseIdx i }) hsp
            (Space.live_eraseIdx hent)
          have hack := (@ackFrames_carries P level closing ent.frames
            (c.setSpace level (some { sp with rtb := sp.rtb.eraseIdx i }))).frame ent.frames
          have hdel := delList_keeps P (ackFrames level closing ent.frames
            (c.setSpace level (some { sp with rtb := sp.rtb.eraseIdx i }))).env ent.frames []
          rw [List.append_nil] at hdel
          exact (hremove.trans hack).trans (.setEnv hdel)

/-- A frame is sent again in a frame of its own; its buffer has the property already. -/
theorem reclaimFrame_carries (level : Level) {fr : Frame} (hfr : ∀ b ∈ fr.txbuf, P b) :
    Carries P c [] (c.reclaimFrame level fr).2 [] := by
  rw [reclaimFrame]
  cases fr.type with
  | stream =>
      cases hs : c.findStrm fr.sid with
      | none => exact .refl P c []
      | some s =>
          simp only
          split
          · exact .refl P c []
          · have hmake := @newFrame_makes P ⟨.stream, fr.sid, fr.offset, fr.fin,
              if fr.txbuf.isSome then [] else fr.data, none⟩ rfl fr.txbuf c.env []
            generalize c.env.newFrame _ fr.txbuf = r at hmake
            obtain ⟨made, env⟩ := r
            cases made with
            | none => exact .setEnv hmake
            | some nfr =>
                have hmade : Carries P c [] (c.setEnv env) [nfr] := .setEnv (hmake hfr)
                exact hmade.trans (@pushStrm_carries P (c.setEnv env) fr.sid s s hs rfl rfl nfr)
  | crypto =>
      cases hsp : c.space level with
      | none => exact .refl P c []
      | some sp =>
          simp only
          split
          · exact .refl P c []
          · have hmake := @newFrame_makes P ⟨.crypto, 0, fr.offset, false,
              if fr.txbuf.isSome then [] else fr.data, none⟩ rfl fr.txbuf c.env []
            generalize c.env.newFrame _ fr.txbuf = r at hmake
            obtain ⟨made, env⟩ := r
            have hsp' : (c.setEnv env).space level = some sp := by
              rw [← hsp]
              cases level <;> rfl
            cases made with
            | none => exact .setEnv hmake
            | some nfr =>
                have hmade : Carries P c [] (c.setEnv env) [nfr] := .setEnv (hmake hfr)
                exact hmade.trans (pushCrypto_carries hsp' rfl nfr)

theorem reclaimFrames_carries (level : Level) {frs : List Frame} (hfrs : Within P frs) (c : Conn) :
    Carries P c [] (reclaimFrames level frs c).2 [] := by
  induction frs generalizing c with
  | nil => exact .refl P c []
  | cons fr frs ih =>
      have hframe := @reclaimFrame_carries P c level fr (hfrs fr List.mem_cons_self)
      rw [reclaimFrames]
      generalize c.reclaimFrame level fr = r at hframe
      obtain ⟨ok, c'⟩ := r
      cases ok with
      | false => exact hframe
      | true => exact hframe.trans (ih (fun g hg => hfrs g (List.mem_cons_of_mem fr hg)) c')

/-- The frames of an entry are among those of the connection. -/
theorem within_entry {level : Level} {i : Nat} {ent : Entry} (h : (c.space level).bind (·.rtb[i]?) = some ent)
    (hlive : Within P c.live) : Within P ent.frames := by
  obtain ⟨sp, hsp, hent⟩ := Option.bind_eq_some_iff.mp h
  obtain ⟨rest, hperm, -⟩ := live_space hsp
  intro fr hfr
  refine hlive fr (hperm.mem_iff.mpr (List.mem_append_left rest ?_))
  exact (Space.live_eraseIdx hent).mem_iff.mpr (List.mem_append_left _ hfr)

theorem markEntry_carries (level : Level) (i : Nat) {f : Entry → Entry} (hf : ∀ ent, (f ent).frames = ent.frames) :
    Carries P c [] (c.markEntry level i f) [] := by
  refine onSpace_carries fun sp => ?_
  simp only [Space.live, entries_modify hf]
  exact .refl P c.env _

theorem lost_carries (level : Level) (i : Nat) (hlive : Within P c.live) : Carries P c [] (c.lost level i) [] := by
  rw [lost]
  cases hent : (c.space level).bind (·.rtb[i]?) with
  | none => exact .refl P c []
  | some ent =>
      simp only
      split
      · exact .refl P c []
      · split
        · exact markEntry_carries level i fun _ => rfl
        · have hreclaim := reclaimFrames_carries level (within_entry hent hlive) c
          generalize reclaimFrames level ent.frames c = r at hreclaim
          obtain ⟨ok, c'⟩ := r
          cases ok with
          | false => exact hreclaim
          | true => exact hreclaim.trans (markEntry_carries level i fun _ => rfl)

theorem pto_carries (level : Level) (i : Nat) (hlive : Within P c.live) : Carries P c [] (c.pto level i) [] := by
  rw [pto]
  cases hent : (c.space level).bind (·.rtb[i]?) with
  | none => exact .refl P c []
  | some ent =>
      simp only
      split
      · exact .refl P c []
      · have hreclaim := reclaimFrames_carries level (within_entry hent hlive) c
        generalize reclaimFrames level ent.frames c = r at hreclaim
        obtain ⟨ok, c'⟩ := r
        cases ok with
        | false => exact hreclaim.trans (onSpace_carries fun sp => sp.giveUp_keeps level c'.env)
        | true => exact hreclaim.trans (markEntry_carries level i fun _ => rfl)

theorem removeLost_carries (level : Level) (i : Nat) : Carries P c [] (c.removeLost level i) [] := by
  refine onSpace_carries fun sp => ?_
  cases hent : sp.rtb[i]? with
  | none => exact .refl P c.env _
  | some ent =>
      simp only
      split
      · exact (delList_keeps P c.env ent.frames _).perm (Space.live_eraseIdx hent).symm (.refl _)
      · exact .refl P c.env _

theorem retryFrame_carries (level : Level) (fr : Frame) : Carries P c [fr] (c.retryFrame level fr).2 [] := by
  have hdel : Carries P c [fr] (c.setEnv (c.env.del fr)) [] := .setEnv (del_keeps P c.env fr [])
  rw [retryFrame]
  cases fr.type with
  | stream =>
      cases hs : c.findStrm fr.sid with
      | none => exact hdel
      | some s => exact pushStrm_carries hs rfl rfl fr
  | crypto =>
      cases hsp : c.space level with
      | none => exact hdel
      | some sp => exact pushCrypto_carries hsp rfl fr

theorem retryFrames_carries (level : Level) (frs : List Frame) (c : Conn) :
    Carries P c frs (retryFrames level frs c) [] := by
  induction frs generalizing c with
  | nil => exact .refl P c []
  | cons fr frs ih =>
      have hframe := (@retryFrame_carries P c level fr).frame frs
      rw [retryFrames]
      generalize c.retryFrame level fr = r at hframe
      obtain ⟨ok, c'⟩ := r
      cases ok with
      | true => exact hframe.trans (ih c')
      | false =>
          have hdel := delList_keeps P c'.env frs []
          rw [List.append_nil] at hdel
          exact hframe.trans (.setEnv hdel)

theorem retryEntry_carries (level : Level) : Carries P c [] (c.retryEntry level) [] := by
  rw [retryEntry]
  cases hsp : c.space level with
  | none => exact .refl P c []
  | some sp =>
      simp only
      cases hrtb : sp.rtb with
      | nil => exact .refl P c []
      | cons ent rtb =>
          have hent : sp.rtb[0]? = some ent := by rw [hrtb]; rfl
          have hperm := Space.live_eraseIdx hent
          rw [hrtb, List.eraseIdx_cons_zero] at hperm
          have hremove := @moveSpace_carries P c [] ent.frames level sp (some { sp with rtb := rtb }) hsp hperm
          simp only
          split
          · have hdel := delList_keeps P (c.setSpace level (some { sp with rtb := rtb })).env ent.frames []
            rw [List.append_nil] at hdel
            exact hremove.trans (.setEnv hdel)
          · exact hremove.trans (retryFrames_carries level ent.frames _)

end Conn

end Zngtcp2.Custody
