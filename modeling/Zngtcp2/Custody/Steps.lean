import Zngtcp2.Custody.Conn
import Zngtcp2.Custody.Pop

namespace Zngtcp2.Custody

open Lib.Ledger
open Strm (Stop Vec)

namespace Env

variable {P : Slice → Prop}

theorem pushOrDel_returns (P : Slice → Prop) (env : Env) (fr : Frame) (queue : List Frame) :
    Returns P env (fr :: queue) queue (env.pushOrDel fr queue) := by
  have hpush := streamfrqPush_returns P env fr queue
  rw [pushOrDel]
  generalize env.streamfrqPush queue fr = r at hpush
  obtain ⟨rv, env'⟩ := r
  cases rv with
  | ok queue' => exact hpush
  | error rv => exact hpush.trans (del_keeps P env' fr queue)

/-- A frame is made with the buffer `b`, or nothing has changed. -/
def Makes (P : Slice → Prop) (b : Option Slice) (env : Env) (frs : List Frame) : Option Frame × Env → Prop
  | (some fr, env') => (∀ s ∈ b, P s) → Keeps P env frs env' (fr :: frs)
  | (none, env') => Keeps P env frs env' frs

theorem newFrame_makes {fr : Frame} (hfr : fr.txbuf = none) (b : Option Slice) (env : Env) (frs : List Frame) :
    Makes P b env frs (env.newFrame fr b) := by
  have hdraw := draw_keeps P env frs
  rw [newFrame]
  generalize env.draw = d at hdraw
  obtain ⟨ok, env₁⟩ := d
  cases ok with
  | false => exact hdraw
  | true =>
      cases b with
      | none => exact fun _ => hdraw.trans (.add env₁ frs hfr)
      | some s =>
          simp only
          cases hset : env₁.setTxbuf fr s with
          | mk made env₂ =>
              cases made with
              | some fr' => exact fun hb => hdraw.trans (setTxbuf_keeps (hb s rfl) hset frs)
              | none =>
                  have hfail : Keeps P env frs env₂ (fr :: frs) := (hdraw.trans (setTxbuf_fails hset frs)).trans (.add env₂ frs hfr)
                  exact hfail.trans (del_keeps P env₂ fr frs)

/-- The parts that are cut from a frame have no buffers. -/
theorem cutCryptoFrame_keeps (P : Slice → Prop) (fr : Frame) (offset len : Nat) (queue : List Frame) (env : Env) :
    Keeps P env (fr :: queue) (env.cutCryptoFrame fr offset len queue).2.2
      ((env.cutCryptoFrame fr offset len queue).1.getD [fr] ++ (env.cutCryptoFrame fr offset len queue).2.1) := by
  have hdraw := draw_keeps P env (fr :: queue)
  rw [cutCryptoFrame]
  generalize env.draw = d at hdraw
  obtain ⟨ok, env₁⟩ := d
  cases ok with
  | false => exact hdraw
  | true =>
      simp only
      generalize hremoved : (⟨.crypto, 0, fr.offset + offset, false,
        (fr.data.take 1).map fun v => (v.drop offset).take len, none⟩ : Frame) = removed
      have hpush := pushOrDel_returns P env₁ removed queue
      have hadd : Keeps P env₁ queue env₁ (removed :: queue) := .add env₁ queue (by rw [← hremoved])
      generalize env₁.pushOrDel removed queue = r at hpush
      obtain ⟨rv, env₂⟩ := r
      cases rv with
      | error rv => exact hdraw.trans ((hadd.trans hpush).cons fr)
      | ok queue' =>
          have hqueue : Keeps P env (fr :: queue) env₂ (fr :: queue') := hdraw.trans ((hadd.trans hpush).cons fr)
          have hleft : ∀ env' : Env, Keeps P env' (fr :: queue') env'
              ({ fr with data := (fr.data.take 1).map (·.take offset) } :: queue') := fun env' => .same env' queue' rfl
          simp only
          split
          · exact hqueue.trans (hleft env₂)
          · have hdraw' := draw_keeps P env₂ (fr :: queue')
            generalize env₂.draw = d' at hdraw'
            obtain ⟨ok', env₃⟩ := d'
            cases ok' with
            | false => exact hqueue.trans hdraw'
            | true => exact (hqueue.trans (hdraw'.trans (hleft env₃))).trans (Keeps.cons (.add env₃ queue' rfl) _)

end Env

namespace Space

open Env

variable {P : Slice → Prop} (sp : Space)

/-- A change of the queue and of the frames of the packet. -/
theorem keeps_of {env env' : Env} {sp' : Space} (hrtb : sp'.rtb = sp.rtb)
    (h : Keeps P env (sp.frq ++ sp.crypto.queue) env' (sp'.frq ++ sp'.crypto.queue)) : Keeps P env sp.live env' sp'.live := by
  have hperm : ∀ s : Space, (s.frq ++ s.crypto.queue ++ s.rtb.flatMap Entry.frames).Perm s.live := by
    intro s
    rw [live, List.append_assoc, List.append_assoc]
    exact List.perm_append_comm.append_left s.frq
  refine (h.frame (sp.rtb.flatMap Entry.frames)).perm (hperm sp) ?_
  rw [← hrtb]
  exact hperm sp'

theorem setQueue_keeps {env env' : Env} {queue : List Frame} (h : Keeps P env sp.crypto.queue env' queue) :
    Keeps P env sp.live env' (sp.setQueue queue).live := by
  refine sp.keeps_of rfl ?_
  exact (h.frame sp.frq).perm List.perm_append_comm List.perm_append_comm

theorem giveUp_keeps (level : Level) (env : Env) : Keeps P env sp.live (sp.giveUp level env).2 (sp.giveUp level env).1.live := by
  rw [giveUp]
  split
  · exact .refl P env _
  · exact sp.keeps_of rfl (delList_keeps P env sp.frq sp.crypto.queue)

theorem writeCrypto_keeps (hP : Hereditary P) (level : Level) (left : Nat) (cut : Option (Nat × Nat)) (env : Env) :
    Keeps P env sp.live (sp.writeCrypto level left cut env).2 (sp.writeCrypto level left cut env).1.live := by
  rw [writeCrypto]
  split
  · exact .refl P env _
  · have hdel := delList_keeps P env sp.crypto.queue []
    rw [List.append_nil] at hdel
    exact sp.setQueue_keeps hdel
  · have hpop := sp.crypto.streamfrqPop_keeps hP left env
    generalize sp.crypto.streamfrqPop left env = p at hpop
    obtain ⟨rv, queue, env'⟩ := p
    cases rv with
    | error e => exact (sp.setQueue_keeps hpop).trans (giveUp_keeps _ level env')
    | ok res =>
        cases res with
        | none => exact sp.setQueue_keeps hpop
        | some fr =>
            have hpop : Keeps P env sp.crypto.queue env' (fr :: queue) := hpop
            have hkept : ∀ {env'' : Env} {frs queue' : List Frame}, Keeps P env' (fr :: queue) env'' (frs ++ queue') →
                Keeps P env sp.live env'' { sp.setQueue queue' with frq := sp.frq ++ frs }.live := by
              intro env'' frs queue' h
              refine sp.keeps_of rfl (((hpop.trans h).frame sp.frq).perm List.perm_append_comm ?_)
              change (frs ++ queue' ++ sp.frq).Perm (sp.frq ++ frs ++ queue')
              rw [List.append_assoc sp.frq]
              exact List.perm_append_comm
            simp only
            split
            · rename_i offset len _
              have hcut := cutCryptoFrame_keeps P fr offset len queue env'
              generalize env'.cutCryptoFrame fr offset len queue = r at hcut
              obtain ⟨made, queue', env''⟩ := r
              cases made with
              | some frs => exact hkept hcut
              | none =>
                  have hdel := (hpop.trans hcut).trans (del_keeps P env'' fr queue')
                  exact (sp.setQueue_keeps hdel).trans (giveUp_keeps _ level _)
            · exact hkept (.refl P env' (fr :: queue))

theorem pktSent_keeps (level : Level) (early : Bool) (env : Env) :
    Keeps P env sp.live (sp.pktSent level early env).2 (sp.pktSent level early env).1.live := by
  have hdraw := draw_keeps P env sp.live
  rw [pktSent]
  generalize env.draw = d at hdraw
  obtain ⟨ok, env₁⟩ := d
  cases ok with
  | false => exact hdraw.trans (sp.giveUp_keeps level env₁)
  | true =>
      have hdraw₁ := hdraw.trans (draw_keeps P env₁ sp.live)
      simp only
      generalize env₁.draw = d at hdraw₁
      obtain ⟨ok, env₂⟩ := d
      cases ok with
      | false => exact hdraw₁.trans (sp.giveUp_keeps level env₂)
      | true =>
          have hdraw₂ := hdraw₁.trans (draw_keeps P env₂ sp.live)
          simp only
          generalize env₂.draw = d at hdraw₂
          obtain ⟨ok, env₃⟩ := d
          cases ok with
          | false => exact hdraw₂.trans (sp.keeps_of rfl (delList_keeps P env₃ sp.frq sp.crypto.queue))
          | true => exact hdraw₂

end Space

/-- What was submitted stays so, and the ranges are no worse than they were. -/
structure Submits (bs bs' : List Slice) : Prop where
  subset : bs ⊆ bs'
  valid : (∀ b ∈ bs, b.pos ≤ b.last) → ∀ b ∈ bs', b.pos ≤ b.last

namespace Submits

variable {bs bs' bs'' : List Slice}

theorem refl (bs : List Slice) : Submits bs bs :=
  ⟨List.Subset.refl bs, id⟩

theorem trans (h : Submits bs bs') (h' : Submits bs' bs'') : Submits bs bs'' :=
  ⟨List.Subset.trans h.subset h'.subset, h'.valid ∘ h.valid⟩

theorem append {news : List Slice} (bs : List Slice) (h : ∀ b ∈ news, b.pos ≤ b.last) : Submits bs (news ++ bs) := by
  refine ⟨List.subset_append_right news bs, fun hbs b hb => ?_⟩
  rcases List.mem_append.mp hb with hb | hb
  · exact h b hb
  · exact hbs b hb

end Submits

/-- The calls go from the connection `c` with the frames `ins` in their hands to `c'` with the frames
`outs`. -/
structure Conn.Carries (P : Slice → Prop) (c : Conn) (ins : List Frame) (c' : Conn) (outs : List Frame) : Prop where
  submits : Submits c.submitted c'.submitted
  keeps : Keeps P c.env (ins ++ c.live) c'.env (outs ++ c'.live)

theorem replaceStrm_split {sid : Nat} {strms : List SendStrm} {s : SendStrm} (h : strms.find? (·.id = sid) = some s) :
    s.id = sid ∧ ∃ ts us, strms = ts ++ s :: us ∧ strms.eraseP (·.id = sid) = ts ++ us ∧
      ∀ s', s'.id = sid → replaceStrm s' strms = ts ++ s' :: us := by
  induction strms with
  | nil => cases h
  | cons t strms ih =>
      by_cases ht : t.id = sid
      · rw [List.find?_cons_of_pos (by simpa using ht)] at h
        cases h
        refine ⟨ht, [], strms, rfl, by simp [ht], fun s' hs' => ?_⟩
        rw [replaceStrm, if_pos (ht.trans hs'.symm)]
        rfl
      · rw [List.find?_cons_of_neg (by simpa using ht)] at h
        obtain ⟨hid, ts, us, rfl, herase, hreplace⟩ := ih h
        refine ⟨hid, t :: ts, us, rfl, by simp [ht, herase], fun s' hs' => ?_⟩
        rw [replaceStrm, if_neg fun h' => ht (h'.trans hs'), hreplace s' hs']
        rfl

namespace Conn

variable {P : Slice → Prop} {c c' c'' : Conn} {ins mid outs held : List Frame}

namespace Carries

theorem refl (P : Slice → Prop) (c : Conn) (ins : List Frame) : Carries P c ins c ins :=
  ⟨.refl _, .refl P c.env _⟩

theorem trans (h : Carries P c ins c' mid) (h' : Carries P c' mid c'' outs) : Carries P c ins c'' outs :=
  ⟨h.submits.trans h'.submits, h.keeps.trans h'.keeps⟩

/-- The other frames in the hands of the call stay there. -/
theorem frame (h : Carries P c ins c' outs) (rest : List Frame) : Carries P c (ins ++ rest) c' (outs ++ rest) := by
  have hperm : ∀ frs live : List Frame, (frs ++ live ++ rest).Perm (frs ++ rest ++ live) := by
    intro frs live
    rw [List.append_assoc, List.append_assoc]
    exact List.perm_append_comm.append_left frs
  exact ⟨h.submits, (h.keeps.frame rest).perm (hperm ins c.live) (hperm outs c'.live)⟩

/-- Nothing happens but to the frames in the hands of the call. -/
theorem setEnv {env : Env} (h : Keeps P c.env ins env outs) : Carries P c ins (c.setEnv env) outs :=
  ⟨.refl _, h.frame c.live⟩

end Carries

theorem live_findStrm {sid : Nat} {s : SendStrm} (hs : c.findStrm sid = some s) :
    s.id = sid ∧ ∃ rest, c.live.Perm (s.queue ++ rest) ∧
      (∀ s', s'.id = sid → (c.setStrm s').live.Perm (s'.queue ++ rest)) ∧
      ({ c with strms := c.strms.eraseP (·.id = sid) } : Conn).live.Perm rest := by
  obtain ⟨hid, ts, us, hstrms, herase, hreplace⟩ := replaceStrm_split hs
  have hperm : ∀ frs rest before after : List Frame, (rest ++ (before ++ (frs ++ after))).Perm (frs ++ (rest ++ (before ++ after))) := by
    intro frs rest before after
    rw [← List.append_assoc, ← List.append_assoc rest before after]
    exact List.perm_append_comm_assoc _ _ _
  refine ⟨hid, c.application.elim [] Space.live ++ c.handshake.elim [] Space.live ++ c.initial.elim [] Space.live ++
    (ts.flatMap SendStrm.queue ++ us.flatMap SendStrm.queue), ?_, fun s' hs' => ?_, ?_⟩
  · rw [live, hstrms, List.flatMap_append, List.flatMap_cons]
    exact hperm _ _ _ _
  · rw [live, setStrm, hreplace s' hs', List.flatMap_append, List.flatMap_cons]
    exact hperm _ _ _ _
  · rw [live, herase, List.flatMap_append]

theorem live_space {level : Level} {sp : Space} (hsp : c.space level = some sp) :
    ∃ rest, c.live.Perm (sp.live ++ rest) ∧ ∀ o, (c.setSpace level o).live.Perm (o.elim [] Space.live ++ rest) := by
  cases level with
  | application =>
      have hsp : c.application = some sp := hsp
      refine ⟨c.handshake.elim [] Space.live ++ (c.initial.elim [] Space.live ++ c.strms.flatMap SendStrm.queue), ?_, fun o => ?_⟩
      · rw [live, hsp, List.append_assoc, List.append_assoc]
        rfl
      · rw [live, List.append_assoc, List.append_assoc]
        rfl
  | handshake =>
      have hsp : c.handshake = some sp := hsp
      refine ⟨c.application.elim [] Space.live ++ (c.initial.elim [] Space.live ++ c.strms.flatMap SendStrm.queue), ?_, fun o => ?_⟩
      · rw [live, hsp, List.append_assoc, List.append_assoc]
        exact List.perm_append_comm_assoc _ _ _
      · rw [live, List.append_assoc, List.append_assoc]
        exact List.perm_append_comm_assoc _ _ _
  | initial =>
      have hsp : c.initial = some sp := hsp
      refine ⟨c.application.elim [] Space.live ++ c.handshake.elim [] Space.live ++ c.strms.flatMap SendStrm.queue, ?_, fun o => ?_⟩
      · rw [live, hsp, List.append_assoc]
        exact List.perm_append_comm_assoc _ _ _
      · rw [live, List.append_assoc]
        exact List.perm_append_comm_assoc _ _ _

/-- A stream is changed. -/
theorem setStrm_carries {sid : Nat} {s s' : SendStrm} {env : Env} (hs : c.findStrm sid = some s) (hid : s'.id = s.id)
    (h : Keeps P c.env (ins ++ s.queue) env (outs ++ s'.queue)) : Carries P c ins ((c.setStrm s').setEnv env) outs := by
  obtain ⟨hsid, rest, hlive, hset, -⟩ := live_findStrm hs
  refine ⟨.refl _, (h.frame rest).perm ?_ ?_⟩
  · rw [List.append_assoc]
    exact hlive.symm.append_left ins
  · rw [List.append_assoc]
    exact (hset s' (hid.trans hsid)).symm.append_left outs

theorem setSpace_env (c : Conn) (level : Level) (o : Option Space) : (c.setSpace level o).env = c.env := by
  cases level <;> rfl

/-- A packet number space is changed, or deleted. -/
theorem setSpace_carries {level : Level} {sp : Space} {o : Option Space} {env : Env} (hsp : c.space level = some sp)
    (h : Keeps P c.env (ins ++ sp.live) env (outs ++ o.elim [] Space.live)) :
    Carries P c ins ((c.setSpace level o).setEnv env) outs := by
  obtain ⟨rest, hlive, hset⟩ := live_space hsp
  have hsub : ((c.setSpace level o).setEnv env).submitted = c.submitted := by cases level <;> rfl
  refine ⟨hsub ▸ .refl _, (h.frame rest).perm ?_ ?_⟩
  · rw [List.append_assoc]
    exact hlive.symm.append_left ins
  · rw [List.append_assoc]
    exact (hset o).symm.append_left outs

theorem moveSpace_carries {level : Level} {sp : Space} {o : Option Space} (hsp : c.space level = some sp)
    (h : (ins ++ sp.live).Perm (outs ++ o.elim [] Space.live)) : Carries P c ins (c.setSpace level o) outs := by
  have hset := @setSpace_carries P c ins outs level sp o c.env hsp ((Keeps.refl P c.env _).perm (.refl _) h)
  rwa [← setSpace_env c level o] at hset

end Conn

end Zngtcp2.Custody
