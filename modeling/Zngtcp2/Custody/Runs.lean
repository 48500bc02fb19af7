import Zngtcp2.Custody.Recovery

namespace Zngtcp2.Custody

open Lib.Ledger Env

namespace Conn

variable {P : Slice → Prop} {c : Conn}

theorem openStream_carries (sid : Nat) : Carries P c [] (c.openStream sid) [] := by
  rw [openStream]
  split
  · exact .refl P c []
  · exact ⟨.refl _, .refl P c.env _⟩

theorem shutdownStreamWrite_carries (sid : Nat) : Carries P c [] (c.shutdownStreamWrite sid) [] := by
  refine onStrm_carries fun s => ?_
  have hdel := delList_keeps P c.env s.queue []
  rw [List.append_nil] at hdel
  split
  · exact .refl P c.env _
  · exact hdel

theorem recvStopSending_carries (sid : Nat) : Carries P c [] (c.recvStopSending sid) [] := by
  refine onStrm_carries fun s => ?_
  have hdel : ∀ env : Env, Keeps P env s.queue (env.delList s.queue) [] := by
    intro env
    have hdel := delList_keeps P env s.queue []
    rwa [List.append_nil] at hdel
  split
  · exact hdel c.env
  · have hdraw := draw_keeps P c.env s.queue
    generalize c.env.draw = d at hdraw
    obtain ⟨ok, env⟩ := d
    cases ok with
    | false => exact hdraw
    | true => exact hdraw.trans (hdel env)

theorem discard_carries (level : Level) : Carries P c [] (c.discard level) [] := by
  rw [discard]
  cases hsp : c.space level with
  | none => exact .refl P c []
  | some sp =>
      have hdel := delList_keeps P c.env sp.live []
      rw [List.append_nil] at hdel
      exact setSpace_carries hsp hdel

theorem discardEarlyData_carries : Carries P c [] c.discardEarlyData [] := by
  rw [discardEarlyData]
  cases hsp : c.application with
  | none => exact .refl P c []
  | some sp =>
      simp only
      generalize hgone : (sp.rtb.filter (·.early)).flatMap Entry.frames ++ c.strms.flatMap SendStrm.queue ++ sp.frq = gone
      generalize hleft : ({ c with
        strms := []
        application := some { sp with frq := [], rtb := sp.rtb.filter (!·.early) }
        env := c.env.delList gone } : Conn) = c'
      have hrtb : (sp.rtb.flatMap Entry.frames).Perm ((sp.rtb.filter (·.early)).flatMap Entry.frames ++
          (sp.rtb.filter (!·.early)).flatMap Entry.frames) := by
        rw [← List.flatMap_append]
        exact (List.filter_append_perm (·.early) sp.rtb).symm.flatMap_right Entry.frames
      have hperm : c.live.Perm (gone ++ c'.live) := by
        rw [← hgone, ← hleft]
        refine List.perm_iff_count.mpr fun fr => ?_
        have hcount := hrtb.count_eq fr
        simp only [live, Space.live, hsp, Option.elim_some, List.flatMap_nil, List.count_append, List.count_nil] at hcount ⊢
        omega
      have henv : c'.env = c.env.delList gone := by rw [← hleft]
      have hsub : c'.submitted = c.submitted := by rw [← hleft]
      exact ⟨hsub ▸ .refl _, henv ▸ (delList_keeps P c.env gone c'.live).perm hperm.symm (.refl _)⟩

theorem retainRx_carries : Carries P c [] c.retainRx [] := by
  rw [retainRx]
  split
  · refine .setEnv (.of_eq rfl fun h => ⟨?_, h.release⟩)
    have hret := h.retain
    change c.env.appRetain + 1 = c.env.retained.length + (c.env.rxRetained + 1)
    omega
  · exact .setEnv (draw_keeps P c.env [])

theorem releaseRx_carries : Carries P c [] c.releaseRx [] := by
  rw [releaseRx]
  split
  · refine .setEnv (.of_eq rfl fun h => ⟨h.retain, ?_⟩)
    have hrel := h.release
    change c.env.appRelease + 1 + c.env.handed.length = c.env.released.length + (c.env.rxReleased + 1)
    omega
  · exact .refl P c []

theorem del_live (c : Conn) : c.del.live = [] :=
  rfl

theorem del_carries : Carries P c [] c.del [] := by
  have hdel := delList_keeps P c.env c.live []
  rw [List.append_nil] at hdel
  exact ⟨.refl _, hdel⟩

/-- No call loses a reference or releases one twice, whatever it returns. -/
theorem step_serves (hP : Hereditary P) (hlive : Within P c.live) (call : Call) : Serves P c (c.step call) := by
  cases call with
  | openStream sid => exact (openStream_carries sid).serves
  | addBuf b => exact (setBufs_carries P c _).serves
  | submitStreamBuf i datalen fin window => exact submitStreamBuf_serves i datalen fin window
  | cancelStreamBuf i => exact (cancelStreamBuf_carries i).serves
  | submitCryptoData level data => exact submitCryptoData_serves level data
  | writeCrypto level left cut => exact (onSpace_carries fun sp => sp.writeCrypto_keeps hP level left _ c.env).serves
  | writeQueued sid left => exact (writeQueued_carries hP sid left).serves
  | writeNew sid data fin room => exact writeNew_serves sid data fin room
  | pktSent level early => exact (onSpace_carries fun sp => sp.pktSent_keeps level early c.env).serves
  | acked level i closing => exact (acked_carries level i closing).serves
  | lost level i => exact (lost_carries level i hlive).serves
  | pto level i => exact (pto_carries level i hlive).serves
  | removeLost level i => exact (removeLost_carries level i).serves
  | retryEntry level => exact (retryEntry_carries level).serves
  | shutdownStreamWrite sid => exact (shutdownStreamWrite_carries sid).serves
  | recvStopSending sid => exact (recvStopSending_carries sid).serves
  | closeStream sid => exact (closeStream_carries sid).serves
  | discard level => exact (discard_carries level).serves
  | discardEarlyData => exact discardEarlyData_carries.serves
  | retainRx => exact retainRx_carries.serves
  | releaseRx => exact releaseRx_carries.serves
  | del => exact del_carries.serves

theorem step_submits (c : Conn) (call : Call) : Submits c.submitted (c.step call).submitted := by
  have hserves := @step_serves (fun _ => True) c (fun _ _ _ _ => trivial) (fun _ _ _ _ => trivial) call
  exact (hserves fun _ _ => trivial).submits

theorem run_submits (c : Conn) (calls : List Call) : Submits c.submitted (c.run calls).submitted := by
  induction calls generalizing c with
  | nil => exact .refl _
  | cons call calls ih => exact (step_submits c call).trans (ih (c.step call))

theorem run_carries (hP : Hereditary P) (calls : List Call) (hlive : Within P c.live)
    (hnew : ∀ b ∈ (c.run calls).submitted, P b) : Carries P c [] (c.run calls) [] := by
  induction calls generalizing c with
  | nil => exact .refl P c []
  | cons call calls ih =>
      have hstep : Carries P c [] (c.step call) [] :=
        step_serves hP hlive call fun b hb => hnew b ((run_submits (c.step call) calls).subset hb)
      exact hstep.trans (ih (hstep.keeps.within hlive) hnew)

/-- The frames with `txbuf_present` that refer to the owner. -/
def references (c : Conn) (owner : Nat) : Nat :=
  c.live.countP fun fr => fr.txbuf.any (·.owner == owner)

end Conn

/-- `b` has not left the range `s`. -/
structure Slice.Inside (s b : Slice) : Prop where
  owner : b.owner = s.owner
  pos : s.pos ≤ b.pos
  le : b.pos ≤ b.last
  last : b.last ≤ s.last

theorem owners_count (frs : List Frame) (owner : Nat) :
    (owners frs).count owner = frs.countP fun fr => fr.txbuf.any (·.owner == owner) := by
  induction frs with
  | nil => rfl
  | cons fr frs ih =>
      rw [owners_cons, Multiset.count_add, ih, List.countP_cons, Frame.owners, add_comm]
      cases fr.txbuf with
      | none => simp
      | some b =>
          by_cases h : b.owner = owner
          · simp [h]
          · simp [h, Ne.symm h]

theorem owners_card (frs : List Frame) : (owners frs).card = frs.countP (·.txbuf.isSome) := by
  induction frs with
  | nil => rfl
  | cons fr frs ih =>
      rw [owners_cons, Multiset.card_add, ih, List.countP_cons, Frame.owners, add_comm]
      cases fr.txbuf with
      | none => simp
      | some b => simp

namespace Conn

theorem new_live (luck : List Bool) : (Conn.new luck).live = [] :=
  rfl

/-- In every run each reference to a buffer that was taken is held by a frame or was given back. -/
theorem run_balance (luck : List Bool) (calls : List Call) :
    ((Conn.new luck).run calls).env.account.taken =
        ((Conn.new luck).run calls).env.account.given + owners ((Conn.new luck).run calls).live ∧
      ((Conn.new luck).run calls).env.Counted := by
  have hrun := @run_carries (fun _ => True) (Conn.new luck) (fun _ _ _ _ => trivial) calls
    (fun _ _ _ _ => trivial) (fun _ _ => trivial)
  exact ⟨Moves.balance hrun.keeps.moves, hrun.keeps.counted ⟨rfl, rfl⟩⟩

theorem run_inside (luck : List Bool) (calls : List Call) :
    ∀ fr ∈ ((Conn.new luck).run calls).live, ∀ b ∈ fr.txbuf, ∃ s ∈ ((Conn.new luck).run calls).submitted, s.Inside b := by
  have hvalid := (run_submits (Conn.new luck) calls).valid fun _ hb => absurd hb List.not_mem_nil
  generalize hsub : ((Conn.new luck).run calls).submitted = submitted at hvalid
  have hP : Hereditary fun b => ∃ s ∈ submitted, s.Inside b := by
    rintro b b' hpart ⟨s, hs, hin⟩
    exact ⟨s, hs, hpart.owner.trans hin.owner, hin.pos.trans hpart.pos, hpart.le, hpart.last.trans hin.last⟩
  have hrun := run_carries hP calls (fun _ hfr => absurd hfr List.not_mem_nil)
    (fun b hb => ⟨b, hsub ▸ hb, rfl, le_rfl, hvalid b (hsub ▸ hb), le_rfl⟩)
  exact hrun.keeps.within fun _ hfr => absurd hfr List.not_mem_nil

/-- What holds between any two calls. A reference that the application hands over counts as taken
then; the slices of received packets are in the statistics too. -/
structure Balanced (c : Conn) : Prop where
  owner : ∀ owner,
    c.env.retained.count owner + c.env.handed.count owner = c.env.released.count owner + c.references owner
  stats : c.env.appRetain + c.env.rxReleased = c.env.appRelease + c.live.countP (·.txbuf.isSome) + c.env.rxRetained
  inside : ∀ fr ∈ c.live, ∀ b ∈ fr.txbuf, ∃ s ∈ c.submitted, s.Inside b

theorem run_balanced (luck : List Bool) (calls : List Call) : ((Conn.new luck).run calls).Balanced := by
  obtain ⟨hbalance, hcounted⟩ := run_balance luck calls
  have hinside := run_inside luck calls
  generalize (Conn.new luck).run calls = c at hbalance hcounted hinside
  refine ⟨fun owner => ?_, ?_, hinside⟩
  · have hcount := congrArg (Multiset.count owner) hbalance
    rw [Multiset.count_add, owners_count] at hcount
    simpa [Env.account, references] using hcount
  · have hcard := congrArg Multiset.card hbalance
    rw [Multiset.card_add, owners_card] at hcard
    simp only [Env.account, Multiset.card_add, Multiset.coe_card] at hcard
    have hret := hcounted.retain
    have hrel := hcounted.release
    omega

/-- Whatever the calls return, the references are balanced after each of them, and when the
connection is deleted all of them have been given back. -/
theorem run_custody (luck : List Bool) (calls : List Call) :
    ((Conn.new luck).run calls).Balanced ∧ ((Conn.new luck).run calls).del.live = [] ∧
      ∀ owner, ((Conn.new luck).run calls).del.env.retained.count owner +
          ((Conn.new luck).run calls).del.env.handed.count owner =
        ((Conn.new luck).run calls).del.env.released.count owner := by
  refine ⟨run_balanced luck calls, rfl, fun owner => ?_⟩
  have hdel : (Conn.new luck).run (calls ++ [.del]) = ((Conn.new luck).run calls).del := by
    rw [run, List.foldl_append]
    rfl
  have hbalanced := (run_balanced luck (calls ++ [.del])).owner owner
  rw [hdel, references, del_live, List.countP_nil] at hbalanced
  exact hbalanced

end Conn

end Zngtcp2.Custody
