import Zngtcp2.Custody.Steps

namespace Zngtcp2.Custody

open Lib.Ledger Env

theorem Popped.frames_append (p : Popped) : p.frames ++ p.queue = p.live := by
  rw [frames, live]
  cases p.rv with
  | error e => rfl
  | ok res => cases res <;> rfl

theorem Space.live_append (sp : Space) (frs : List Frame) :
    (frs ++ sp.live).Perm { sp with frq := sp.frq ++ frs }.live := by
  rw [Space.live, Space.live, List.append_assoc, List.append_assoc, List.append_assoc]
  exact List.perm_append_comm_assoc _ _ _

theorem CryptoData.buf_valid {data : CryptoData} (h : ¬data.len = 0) : ∀ b ∈ data.buf, b.pos ≤ b.last := by
  intro b hb
  cases data with
  | copied v => cases hb
  | retained b' =>
      cases hb
      rw [CryptoData.len, Slice.len] at h
      omega

namespace Conn

variable {P : Slice → Prop} {c : Conn}

/-- A call that is good for the frames if what it submits is. -/
def Serves (P : Slice → Prop) (c c' : Conn) : Prop :=
  (∀ b ∈ c'.submitted, P b) → Carries P c [] c' []

theorem Carries.serves {c' : Conn} (h : Carries P c [] c' []) : Serves P c c' :=
  fun _ => h

theorem onSpace_carries {level : Level} {f : Space → Env → Space × Env}
    (h : ∀ sp, Keeps P c.env sp.live (f sp c.env).2 (f sp c.env).1.live) : Carries P c [] (c.onSpace level f) [] := by
  rw [onSpace]
  cases hsp : c.space level with
  | none => exact .refl P c []
  | some sp => exact setSpace_carries hsp (h sp)

theorem onStrm_carries {sid : Nat} {f : SendStrm → Env → SendStrm × Env}
    (h : ∀ s, Keeps P c.env s.queue (f s c.env).2 (f s c.env).1.queue) : Carries P c [] (c.onStrm sid f) [] := by
  rw [onStrm]
  cases hs : c.findStrm sid with
  | none => exact .refl P c []
  | some s => exact setStrm_carries hs rfl (h s)

theorem pushStrm_carries {sid : Nat} {s s' : SendStrm} (hs : c.findStrm sid = some s) (hid : s'.id = s.id)
    (hqueue : s'.queue = s.queue) (fr : Frame) : Carries P c [fr] (c.pushStrm s' fr).2 [] := by
  have hpush := pushOrDel_returns P c.env fr s'.queue
  rw [pushStrm]
  generalize c.env.pushOrDel fr s'.queue = r at hpush
  obtain ⟨rv, env⟩ := r
  rw [hqueue] at hpush
  cases rv with
  | error rv => exact .setEnv (Keeps.gone hpush)
  | ok queue => exact setStrm_carries hs hid (Keeps.trans hpush (draw_keeps P env queue))

theorem pushCrypto_carries {level : Level} {sp sp' : Space} (hsp : c.space level = some sp) (hlive : sp'.live = sp.live)
    (fr : Frame) : Carries P c [fr] (c.pushCrypto level sp' fr).2 [] := by
  have hpush := pushOrDel_returns P c.env fr sp'.crypto.queue
  rw [pushCrypto]
  generalize c.env.pushOrDel fr sp'.crypto.queue = r at hpush
  obtain ⟨rv, env⟩ := r
  cases rv with
  | error rv => exact .setEnv (Keeps.gone hpush)
  | ok queue =>
      have hspace := (Keeps.frame hpush (sp'.frq ++ sp'.rtb.flatMap Entry.frames)).perm
        (List.perm_append_comm.cons fr) List.perm_append_comm
      refine setSpace_carries hsp ?_
      rw [← hlive]
      exact hspace

theorem setBufs_carries (P : Slice → Prop) (c : Conn) (bufs : List StreamBuf) : Carries P c [] { c with bufs := bufs } [] :=
  ⟨.refl _, .refl P c.env _⟩

theorem releaseBuf_carries (P : Slice → Prop) (c : Conn) (i : Nat) (b : StreamBuf) : Carries P c [] (c.releaseBuf i b) [] := by
  refine ⟨.refl _, ⟨?_, fun h => ⟨h.retain, ?_⟩, id⟩⟩
  · have hpass := Moves.pass c.env.account (b.owner.toList : Multiset Nat) (owners ([] ++ c.live))
    have hacc : (c.releaseBuf i b).env.account =
        ⟨c.env.account.taken + (b.owner.toList : Multiset Nat), c.env.account.given + (b.owner.toList : Multiset Nat)⟩ := by
      simp only [releaseBuf, Env.account, ← Multiset.coe_add]
      rw [add_comm (b.owner.toList : Multiset Nat), add_comm (b.owner.toList : Multiset Nat), add_assoc]
    rw [hacc]
    exact hpass
  · have hrel := h.release
    simp only [releaseBuf, List.length_append]
    omega

/-- What is submitted is in the new frame, which `k` has in its hands. -/
theorem withNewFrame_serves {fr : Frame} (hfr : fr.txbuf = none) {b : Option Slice} {k : Conn → Frame → Conn}
    (hvalid : ∀ s ∈ b, s.pos ≤ s.last)
    (hk : ∀ env subs fr', Carries P { c with env := env, submitted := subs } [fr']
      (k { c with env := env, submitted := subs } fr') []) : Serves P c (c.withNewFrame fr b k) := by
  have hmake := @newFrame_makes P fr hfr b c.env []
  rw [withNewFrame]
  generalize c.env.newFrame fr b = r at hmake
  obtain ⟨made, env⟩ := r
  cases made with
  | none => exact (Carries.setEnv hmake).serves
  | some fr' =>
      intro hnew
      have hrest := hk env (b.toList ++ c.submitted) fr'
      have hb : ∀ s ∈ b, P s := fun s hs =>
        hnew s (hrest.submits.subset (List.mem_append_left c.submitted (Option.mem_toList.mpr hs)))
      have hmade : Carries P c [] { c with env := env, submitted := b.toList ++ c.submitted } [fr'] :=
        ⟨.append c.submitted fun s hs => hvalid s (Option.mem_toList.mp hs), Keeps.frame (hmake hb) c.live⟩
      exact hmade.trans hrest

theorem submitStreamBuf_serves (i datalen : Nat) (fin : Bool) (window : Nat) :
    Serves P c (c.submitStreamBuf i datalen fin window) := by
  rw [submitStreamBuf]
  cases c.bufs[i]? with
  | none => exact (Carries.refl P c []).serves
  | some b =>
      simp only
      cases howner : b.owner with
      | none => exact (Carries.refl P c []).serves
      | some owner =>
          cases hs : c.findStrm b.sid with
          | none => exact (Carries.refl P c []).serves
          | some s =>
              simp only
              split
              · exact (Carries.refl P c []).serves
              · refine withNewFrame_serves rfl (fun b' hb' => ?_) fun env subs fr' => ?_
                · split at hb'
                  · cases hb'
                  · cases hb'
                    exact Nat.le_add_right _ _
                have hpush := @pushStrm_carries P { c with env := env, submitted := subs } b.sid s
                  (s.sent (min datalen window) (fin && min datalen window == datalen)) hs rfl rfl fr'
                generalize pushStrm _ _ fr' = r at hpush
                obtain ⟨ok, c'⟩ := r
                cases ok with
                | false => exact hpush
                | true =>
                    simp only
                    split
                    · exact hpush.trans (releaseBuf_carries P c' i b)
                    · exact hpush.trans (setBufs_carries P c' _)

theorem cancelStreamBuf_carries (i : Nat) : Carries P c [] (c.cancelStreamBuf i) [] := by
  rw [cancelStreamBuf]
  cases c.bufs[i]? with
  | none => exact .refl P c []
  | some b =>
      simp only
      split
      · exact .refl P c []
      · exact releaseBuf_carries P c i b

theorem submitCryptoData_serves (level : Level) (data : CryptoData) : Serves P c (c.submitCryptoData level data) := by
  rw [submitCryptoData]
  cases hsp : c.space level with
  | none => exact (Carries.refl P c []).serves
  | some sp =>
      simp only
      split
      · exact (Carries.refl P c []).serves
      · rename_i hlen
        have hbuffer : Keeps P c.env [] (c.env.bufferCryptoData data).2 [] := by
          cases data with
          | retained b => exact .refl P c.env []
          | copied v => exact draw_keeps P c.env []
        generalize c.env.bufferCryptoData data = r at hbuffer
        obtain ⟨ok, env⟩ := r
        have hcarries : Carries P c [] (c.setEnv env) [] := .setEnv hbuffer
        cases ok with
        | false => exact hcarries.serves
        | true =>
            have hserves : Serves P (c.setEnv env) ((c.setEnv env).withNewFrame ⟨.crypto, 0, sp.crypto.offset, false, data.vecs, none⟩
                data.buf fun c fr =>
                  (c.pushCrypto level { sp with crypto := { sp.crypto with offset := sp.crypto.offset + data.len } } fr).2) := by
              refine withNewFrame_serves rfl (CryptoData.buf_valid hlen) fun env' subs fr' => ?_
              have hsp' : ({ c with env := env', submitted := subs } : Conn).space level = some sp := by
                rw [← hsp]
                cases level <;> rfl
              refine @pushCrypto_carries P _ level sp _ hsp' ?_ fr'
              rfl
            exact fun hnew => hcarries.trans (hserves hnew)

theorem writeQueued_carries (hP : Hereditary P) (sid left : Nat) : Carries P c [] (c.writeQueued sid left) [] := by
  rw [writeQueued]
  cases hs : c.findStrm sid with
  | none => exact .refl P c []
  | some s =>
      cases hsp : c.application with
      | none => exact .refl P c []
      | some sp =>
          simp only
          split
          · exact .refl P c []
          · have hdel := delList_keeps P c.env s.queue []
            rw [List.append_nil] at hdel
            exact setStrm_carries hs rfl hdel
          · have hpop : Keeps P c.env s.queue (s.streamfrqPop left c.env).env
                ((s.streamfrqPop left c.env).frames ++ (s.streamfrqPop left c.env).queue) := by
              rw [Popped.frames_append]
              exact s.streamfrqPop_keeps hP left c.env
            generalize s.streamfrqPop left c.env = p at hpop
            have hdraw : Keeps P p.env (p.frames ++ p.queue) (if p.frames = [] then p.env else p.env.draw.2) (p.frames ++ p.queue) := by
              split
              · exact .refl P p.env _
              · exact draw_keeps P p.env _
            generalize (if p.frames = [] then p.env else p.env.draw.2) = env at hdraw
            have hstrm := @setStrm_carries P c [] p.frames sid s { s with queue := p.queue } env hs rfl (hpop.trans hdraw)
            refine hstrm.trans (@setSpace_carries P _ p.frames [] .application sp
              (some { sp with frq := sp.frq ++ p.frames }) env hsp ?_)
            refine (Keeps.refl P env (p.frames ++ sp.live)).perm (.refl _) ?_
            exact sp.live_append p.frames

theorem writeNew_serves (sid : Nat) (data : Option Slice) (fin : Bool) (room : Nat) :
    Serves P c (c.writeNew sid data fin room) := by
  rw [writeNew]
  cases hs : c.findStrm sid with
  | none => exact (Carries.refl P c []).serves
  | some s =>
      cases hsp : c.application with
      | none => exact (Carries.refl P c []).serves
      | some sp =>
          simp only
          split
          · exact (Carries.refl P c []).serves
          · refine withNewFrame_serves rfl (fun b' hb' => ?_) fun env subs fr' => ?_
            · split at hb'
              · cases hb'
              · obtain ⟨b, -, rfl⟩ := Option.mem_map.mp hb'
                exact Nat.le_add_right _ _
            have hstrm := @setStrm_carries P { c with env := env, submitted := subs } [fr'] [fr'] sid s
              (s.sent (min (data.elim 0 Slice.len) room) (fin && min (data.elim 0 Slice.len) room == data.elim 0 Slice.len))
              env hs rfl (.refl P env _)
            refine hstrm.trans (@setSpace_carries P _ [fr'] [] .application sp (some { sp with frq := sp.frq ++ [fr'] })
              env hsp ?_)
            refine (Keeps.refl P env ([fr'] ++ sp.live)).perm (.refl _) ?_
            exact sp.live_append [fr']

end Conn

end Zngtcp2.Custody
