import Zngtcp2.Custody.Model
import Zngtcp2.Lib.Ledger

namespace Zngtcp2.Custody

open Lib.Ledger
open Strm (Stop Vec vecSplit vecMerge maxStreamDatacnt)

/-- The references that a frame holds. -/
def Frame.owners (fr : Frame) : Multiset Nat :=
  fr.txbuf.elim 0 fun b => {b.owner}

/-- The references that the frames hold. -/
def owners (frs : List Frame) : Multiset Nat :=
  (frs.map Frame.owners).sum

@[simp]
theorem owners_nil : owners [] = 0 :=
  rfl

@[simp]
theorem owners_cons (fr : Frame) (frs : List Frame) : owners (fr :: frs) = fr.owners + owners frs := by
  simp [owners]

@[simp]
theorem owners_append (frs frs' : List Frame) : owners (frs ++ frs') = owners frs + owners frs' := by
  simp [owners]

theorem owners_perm {frs frs' : List Frame} (h : frs.Perm frs') : owners frs = owners frs' :=
  (h.map _).sum_eq

/-- A reference that the application hands over is one that the library has taken. -/
def Env.account (env : Env) : Account (Multiset Nat) :=
  ⟨(env.retained : Multiset Nat) + (env.handed : Multiset Nat), (env.released : Multiset Nat)⟩

/-- The statistics are those of the calls. -/
structure Env.Counted (env : Env) : Prop where
  retain : env.appRetain = env.retained.length + env.rxRetained
  release : env.appRelease + env.handed.length = env.released.length + env.rxReleased

/-- The buffer `b'` is a part of `b`. -/
structure Slice.Part (b b' : Slice) : Prop where
  owner : b'.owner = b.owner
  pos : b.pos ≤ b'.pos
  le : b'.pos ≤ b'.last
  last : b'.last ≤ b.last

/-- Of the buffers that have it, all parts have the property. -/
def Hereditary (P : Slice → Prop) : Prop :=
  ∀ b b', Slice.Part b b' → P b → P b'

def Within (P : Slice → Prop) (frs : List Frame) : Prop :=
  ∀ fr ∈ frs, ∀ b ∈ fr.txbuf, P b

/-- From the frames `ins` to the frames `outs` every reference is accounted for, and no buffer
becomes larger. -/
structure Keeps (P : Slice → Prop) (env : Env) (ins : List Frame) (env' : Env) (outs : List Frame) : Prop where
  moves : Moves env.account (owners ins) env'.account (owners outs)
  counted : env.Counted → env'.Counted
  within : Within P ins → Within P outs

namespace Keeps

variable {P : Slice → Prop} {env env' env'' : Env} {ins mid outs : List Frame}

theorem refl (P : Slice → Prop) (env : Env) (frs : List Frame) : Keeps P env frs env frs :=
  ⟨.refl _ _, id, id⟩

theorem trans (h : Keeps P env ins env' mid) (h' : Keeps P env' mid env'' outs) : Keeps P env ins env'' outs :=
  ⟨h.moves.trans h'.moves, h'.counted ∘ h.counted, h'.within ∘ h.within⟩

theorem frame (h : Keeps P env ins env' outs) (rest : List Frame) : Keeps P env (ins ++ rest) env' (outs ++ rest) := by
  refine ⟨?_, h.counted, fun hw fr hfr => ?_⟩
  · rw [owners_append, owners_append]
    exact h.moves.frame (owners rest)
  · rcases List.mem_append.mp hfr with hfr | hfr
    · exact h.within (fun g hg => hw g (List.mem_append_left rest hg)) fr hfr
    · exact hw fr (List.mem_append_right ins hfr)

theorem perm {ins' outs' : List Frame} (h : Keeps P env ins env' outs) (hins : ins.Perm ins') (houts : outs.Perm outs') :
    Keeps P env ins' env' outs' := by
  refine ⟨?_, h.counted, fun hw fr hfr => ?_⟩
  · rw [← owners_perm hins, ← owners_perm houts]
    exact h.moves
  · exact h.within (fun g hg => hw g (hins.mem_iff.mp hg)) fr (houts.mem_iff.mpr hfr)

theorem cons (h : Keeps P env ins env' outs) (fr : Frame) : Keeps P env (fr :: ins) env' (fr :: outs) :=
  (h.frame [fr]).perm (List.perm_append_singleton fr ins) (List.perm_append_singleton fr outs)

/-- What is there before and afterwards is not needed. -/
theorem gone {rest : List Frame} (h : Keeps P env (ins ++ rest) env' rest) : Keeps P env ins env' [] := by
  refine ⟨?_, h.counted, fun _ fr hfr => absurd hfr List.not_mem_nil⟩
  have hmoves := h.moves
  rw [owners_append] at hmoves
  refine Moves.cancel (c := owners rest) ?_
  rwa [owners_nil, zero_add]

/-- The environments agree in what is accounted for. -/
theorem of_eq {frs : List Frame} (hacc : env'.account = env.account) (hcount : env.Counted → env'.Counted) :
    Keeps P env frs env' frs := by
  refine ⟨?_, hcount, id⟩
  rw [hacc]
  exact .refl _ _

/-- A frame is changed, and holds the same reference. -/
theorem change {fr fr' : Frame} (env : Env) (rest : List Frame) (howners : fr'.owners = fr.owners)
    (hwithin : ∀ b' ∈ fr'.txbuf, (∀ b ∈ fr.txbuf, P b) → P b') : Keeps P env (fr :: rest) env (fr' :: rest) := by
  refine ⟨?_, id, fun hw g hg => ?_⟩
  · rw [owners_cons, owners_cons, howners]
    exact .refl _ _
  · rcases List.mem_cons.mp hg with rfl | hg
    · exact fun b' hb' => hwithin b' hb' (hw fr List.mem_cons_self)
    · exact hw g (List.mem_cons_of_mem fr hg)

/-- A change of a frame that leaves its buffer alone. -/
theorem same {fr fr' : Frame} (env : Env) (rest : List Frame) (h : fr'.txbuf = fr.txbuf) :
    Keeps P env (fr :: rest) env (fr' :: rest) := by
  refine change env rest ?_ fun b' hb' hw => hw b' (h ▸ hb')
  rw [Frame.owners, h, Frame.owners]

/-- A frame without a buffer holds nothing. -/
theorem add {fr : Frame} (env : Env) (frs : List Frame) (h : fr.txbuf = none) : Keeps P env frs env (fr :: frs) := by
  refine ⟨?_, id, fun hw g hg => ?_⟩
  · rw [owners_cons, Frame.owners, h, Option.elim_none, zero_add]
    exact .refl _ _
  · rcases List.mem_cons.mp hg with rfl | hg
    · simp [h]
    · exact hw g hg

theorem drop {fr : Frame} (env : Env) (frs : List Frame) (h : fr.txbuf = none) : Keeps P env (fr :: frs) env frs := by
  refine ⟨?_, id, fun hw g hg => hw g (List.mem_cons_of_mem fr hg)⟩
  rw [owners_cons, Frame.owners, h, Option.elim_none, zero_add]
  exact .refl _ _

end Keeps

/-- The call ends with the frames that it returns, or with `left` if it fails. -/
def Returns {ε : Type} (P : Slice → Prop) (env : Env) (ins left : List Frame) : Except ε (List Frame) × Env → Prop
  | (.ok outs, env') => Keeps P env ins env' outs
  | (.error _, env') => Keeps P env ins env' left

/-- All frames in the queue and the one that was popped. -/
def Popped.live (p : Popped) : List Frame :=
  match p.rv with
  | .ok (some fr) => fr :: p.queue
  | _ => p.queue

def Visit.Keeps (P : Slice → Prop) (env : Env) (fr : Frame) (rest : List Frame) : Visit → Prop
  | .deleted env' => Custody.Keeps P env (fr :: rest) env' rest
  | .done p => Custody.Keeps P env (fr :: rest) p.env p.live

namespace Env

variable {P : Slice → Prop} {env env' : Env} {fr nfr : Frame} {queue queue' : List Frame}

theorem draw_keeps (P : Slice → Prop) (env : Env) (frs : List Frame) : Keeps P env frs env.draw.2 frs :=
  .of_eq rfl fun h => ⟨h.retain, h.release⟩

theorem del_keeps (P : Slice → Prop) (env : Env) (fr : Frame) (frs : List Frame) :
    Keeps P env (fr :: frs) (env.del fr) frs := by
  refine ⟨?_, fun h => ?_, fun hw g hg => hw g (List.mem_cons_of_mem fr hg)⟩
  · rw [owners_cons, del, releaseTxbuf, Frame.owners]
    cases fr.txbuf with
    | none =>
        rw [Option.elim_none, zero_add]
        exact .refl _ _
    | some b =>
        have hgive := (Moves.give env.account {b.owner}).frame (owners frs)
        rw [zero_add] at hgive
        have hacc : Env.account { env with released := b.owner :: env.released, appRelease := env.appRelease + 1 } =
            ⟨env.account.taken, env.account.given + {b.owner}⟩ := by
          simp only [account, ← Multiset.cons_coe, Multiset.singleton_add, add_comm _ {b.owner}]
        rw [Option.elim_some]
        exact hacc ▸ hgive
  · rw [del, releaseTxbuf]
    cases fr.txbuf with
    | none => exact h
    | some b =>
        have hrel := h.release
        refine ⟨h.retain, ?_⟩
        simp only [List.length_cons]
        omega

theorem delList_keeps (P : Slice → Prop) (env : Env) (frs rest : List Frame) :
    Keeps P env (frs ++ rest) (env.delList frs) rest := by
  induction frs generalizing env with
  | nil => exact .refl P env rest
  | cons fr frs ih => exact (del_keeps P env fr (frs ++ rest)).trans (ih (env.del fr))

theorem setTxbuf_some {b : Slice} (h : env.setTxbuf fr b = (some nfr, env')) :
    nfr = { fr with txbuf := some b } ∧ env'.account = ⟨env.account.taken + {b.owner}, env.account.given⟩ ∧
      (env.Counted → env'.Counted) := by
  rw [setTxbuf] at h
  cases hdraw : env.draw with
  | mk ok env₁ =>
      cases ok with
      | false =>
          rw [hdraw] at h
          cases h
      | true =>
          rw [hdraw] at h
          cases h
          have henv : env₁ = { env with luck := env.luck.tail } := (congrArg Prod.snd hdraw).symm
          subst henv
          refine ⟨rfl, ?_, fun hc => ⟨?_, hc.release⟩⟩
          · simp only [account, ← Multiset.cons_coe, ← Multiset.singleton_add, add_comm {b.owner}, add_right_comm]
          · have hret := hc.retain
            simp only [List.length_cons]
            omega

theorem setTxbuf_none {b : Slice} (h : env.setTxbuf fr b = (none, env')) : env' = env.draw.2 := by
  rw [setTxbuf] at h
  cases hdraw : env.draw with
  | mk ok env₁ =>
      cases ok with
      | false =>
          rw [hdraw] at h
          cases h
          rfl
      | true =>
          rw [hdraw] at h
          cases h

/-- A frame that gets a buffer takes a reference. -/
theorem setTxbuf_keeps {b : Slice} (hb : P b) (h : env.setTxbuf fr b = (some nfr, env'))
    (frs : List Frame) : Keeps P env frs env' (nfr :: frs) := by
  obtain ⟨rfl, hacc, hcount⟩ := setTxbuf_some h
  refine ⟨?_, hcount, fun hw g hg => ?_⟩
  · have htake := (Moves.take env.account {b.owner}).frame (owners frs)
    rw [zero_add] at htake
    rw [hacc, owners_cons]
    exact htake
  · rcases List.mem_cons.mp hg with rfl | hg
    · intro b' hb'
      cases hb'
      exact hb
    · exact hw g hg

theorem setTxbuf_fails {b : Slice} (h : env.setTxbuf fr b = (none, env')) (frs : List Frame) : Keeps P env frs env' frs := by
  rw [setTxbuf_none h]
  exact draw_keeps P env frs

/-- The copy of a frame holds a reference of its own. -/
theorem copyTxbuf_keeps {src : Frame} (hfr : fr.txbuf = none) (h : env.copyTxbuf fr src = (some nfr, env')) :
    nfr = { fr with txbuf := src.txbuf } ∧ ∀ frs, Keeps P env (src :: frs) env' (nfr :: src :: frs) := by
  rw [copyTxbuf] at h
  cases hsrc : src.txbuf with
  | none =>
      rw [hsrc] at h
      cases h
      refine ⟨by rw [← hfr], fun frs => .add env (src :: frs) hfr⟩
  | some b =>
      rw [hsrc] at h
      obtain ⟨rfl, -, -⟩ := setTxbuf_some h
      refine ⟨rfl, fun frs => ⟨?_, (setTxbuf_some h).2.2, fun hw g hg => ?_⟩⟩
      · exact (@setTxbuf_keeps (fun _ => True) env env' fr _ b trivial h (src :: frs)).moves
      · rcases List.mem_cons.mp hg with rfl | hg
        · intro b' hb'
          cases hb'
          exact hw src List.mem_cons_self b hsrc
        · exact hw g hg

theorem copyTxbuf_fails {src : Frame} (h : env.copyTxbuf fr src = (none, env')) (frs : List Frame) :
    Keeps P env frs env' frs := by
  rw [copyTxbuf] at h
  cases hsrc : src.txbuf with
  | none =>
      rw [hsrc] at h
      cases h
  | some b =>
      rw [hsrc] at h
      exact setTxbuf_fails h frs

theorem insertFrame_perm (h : insertFrame fr queue = some queue') : queue'.Perm (fr :: queue) := by
  induction queue generalizing queue' with
  | nil =>
      cases h
      exact List.Perm.refl _
  | cons f fs ih =>
      rw [insertFrame] at h
      split at h
      · obtain ⟨q, hq, rfl⟩ := Option.map_eq_some_iff.mp h
        exact ((ih hq).cons f).trans (List.Perm.swap fr f fs)
      · split at h
        · cases h
        · cases h
          exact List.Perm.refl _

/-- The frame is in the queue afterwards, or still with the caller. -/
theorem kslInsert_returns (P : Slice → Prop) (env : Env) (fr : Frame) (queue : List Frame) :
    Returns P env (fr :: queue) (fr :: queue) (env.kslInsert fr queue) := by
  have hdraw := draw_keeps P env (fr :: queue)
  rw [kslInsert]
  generalize env.draw = d at hdraw
  obtain ⟨ok, env₁⟩ := d
  cases ok with
  | false => exact hdraw
  | true =>
      cases hins : insertFrame fr queue with
      | none => exact hdraw
      | some queue' => exact hdraw.perm (.refl _) (insertFrame_perm hins).symm

theorem streamfrqPush_returns (P : Slice → Prop) (env : Env) (fr : Frame) (queue : List Frame) :
    Returns P env (fr :: queue) (fr :: queue) (env.streamfrqPush queue fr) := by
  rw [streamfrqPush]
  split
  · exact .refl P env _
  · exact kslInsert_returns P env fr queue

theorem putBack_returns (P : Slice → Prop) (env : Env) (fr : Frame) (queue : List Frame) :
    Returns P env (fr :: queue) queue (env.putBack fr queue) := by
  have hins := kslInsert_returns P env fr queue
  rw [putBack]
  generalize env.kslInsert fr queue = r at hins
  obtain ⟨rv, env₁⟩ := r
  cases rv with
  | ok queue' => exact hins
  | error rv => exact hins.trans (del_keeps P env₁ fr queue)

/-- The end of a frame may become a frame of its own. -/
structure CutsAt (fr nfr : Frame) : Prop where
  txbuf : nfr.txbuf = none
  part : ∀ b ∈ fr.txbuf, nfr.offset - fr.offset < b.len

/-- A frame is split, or deleted if that fails. -/
def Splits (P : Slice → Prop) (env : Env) (fr : Frame) (queue : List Frame) : Except Stop (List Frame) × Env → Prop
  | (.ok queue', env') => Keeps P env (fr :: queue) env' (fr :: queue')
  | (.error _, env') => Keeps P env (fr :: queue) env' queue

theorem advanceTxbuf_keeps (hP : Hereditary P) {n : Nat} (hn : ∀ b ∈ fr.txbuf, n < b.len) (env : Env) (frs : List Frame) :
    Keeps P env (fr :: frs) env (fr.advanceTxbuf n :: frs) := by
  refine .change env frs ?_ fun b' hb' hw => ?_
  · rw [Frame.owners, Frame.advanceTxbuf, Frame.owners]
    cases fr.txbuf <;> rfl
  · obtain ⟨b, hb, rfl⟩ := Option.mem_map.mp hb'
    have hlen := hn b hb
    rw [Slice.len] at hlen
    exact hP b _ ⟨rfl, Nat.le_add_right _ _, by simp only; omega, Nat.le_refl _⟩ (hw b hb)

theorem splitOff_splits (hP : Hereditary P) (hcut : CutsAt fr nfr) (env : Env) (queue : List Frame) :
    Splits P env fr queue (env.splitOff fr nfr queue) := by
  have hdraw := draw_keeps P env (fr :: queue)
  rw [splitOff]
  generalize env.draw = d at hdraw
  obtain ⟨ok, env₁⟩ := d
  cases ok with
  | false => exact hdraw.trans (del_keeps P env₁ fr queue)
  | true =>
      simp only
      cases hcopy : env₁.copyTxbuf nfr fr with
      | mk copied env₂ =>
          cases copied with
          | none =>
              have hfail := hdraw.trans ((copyTxbuf_fails hcopy (fr :: queue)).trans (.add env₂ (fr :: queue) hcut.txbuf))
              exact (hfail.trans (del_keeps P env₂ nfr (fr :: queue))).trans (del_keeps P (env₂.del nfr) fr queue)
          | some nfr₁ =>
              obtain ⟨rfl, hcopied⟩ := @copyTxbuf_keeps P env₁ env₂ nfr nfr₁ fr hcut.txbuf hcopy
              simp only
              have hpart := @advanceTxbuf_keeps P { nfr with txbuf := fr.txbuf } hP _ hcut.part env₂ (fr :: queue)
              generalize Frame.advanceTxbuf { nfr with txbuf := fr.txbuf } (nfr.offset - fr.offset) = part at hpart
              have hall := (hdraw.trans (hcopied queue)).trans hpart
              have hins := kslInsert_returns P env₂ part queue
              have hswap : Keeps P env (fr :: queue) env₂ (fr :: part :: queue) :=
                hall.perm (.refl _) (.swap fr part queue)
              generalize env₂.kslInsert part queue = r at hins
              obtain ⟨rv, env₃⟩ := r
              cases rv with
              | ok queue' => exact hswap.trans (Keeps.cons hins fr)
              | error rv =>
                  have hleft := (hswap.trans (Keeps.cons hins fr)).perm (.refl _) (.swap part fr queue)
                  exact (hleft.trans (del_keeps P env₃ part (fr :: queue))).trans (del_keeps P (env₃.del part) fr queue)

end Env

namespace SendStrm

open Env

variable {P : Slice → Prop} (s : SendStrm)

theorem popSplit_keeps (hP : Hereditary P) {fr nfr fr' : Frame} (hcut : CutsAt fr nfr)
    (hchange : ∀ (env' : Env) (frs : List Frame), Keeps P env' (fr :: frs) env' (fr' :: frs)) (env : Env)
    (queue : List Frame) :
    Keeps P env (fr :: queue) (env.popSplit fr nfr fr' queue).env (env.popSplit fr nfr fr' queue).live := by
  have hsplit := splitOff_splits hP hcut env queue
  rw [popSplit]
  generalize env.splitOff fr nfr queue = r at hsplit
  obtain ⟨rv, env'⟩ := r
  cases rv with
  | error e => exact hsplit
  | ok queue' => exact Keeps.trans hsplit (hchange env' queue')

theorem unackedPopTxbuf_keeps (hP : Hereditary P) {fr : Frame} {b : Slice} (hb : fr.txbuf = some b) (rest : List Frame)
    (env : Env) : (s.unackedPopTxbuf fr b rest env).Keeps P env fr rest := by
  rw [unackedPopTxbuf]
  cases s.acked.unackedRangeAfter fr.offset with
  | none => exact .refl P env _
  | some gap =>
      have hdel := del_keeps P env fr rest
      simp only
      split
      · split
        · split
          · split
            · exact hdel
            · exact hdel
          · exact hdel.trans (.add _ rest rfl)
        · exact hdel
      · rename_i hlt
        have hpart : b.Part ⟨b.owner, b.pos + (max gap.begin fr.offset - fr.offset),
            b.pos + (max gap.begin fr.offset - fr.offset) + (min gap.endOff (fr.offset + b.len) - max gap.begin fr.offset)⟩ := by
          rw [Slice.len] at hlt ⊢
          exact ⟨rfl, Nat.le_add_right _ _, Nat.le_add_right _ _, by simp only; omega⟩
        generalize b.pos + (max gap.begin fr.offset - fr.offset) = pos at hpart
        have hchange : ∀ (fin : Bool) (env' : Env) (frs : List Frame), Keeps P env' (fr :: frs) env'
            ({ fr with
              offset := max gap.begin fr.offset
              fin := fin
              txbuf := some ⟨b.owner, pos, pos + (min gap.endOff (fr.offset + b.len) - max gap.begin fr.offset)⟩ } :: frs) := by
          intro fin env' frs
          refine .change env' frs ?_ fun b' hb' hw => ?_
          · simp [Frame.owners, hb]
          · cases hb'
            exact hP b _ hpart (hw b hb)
        split
        · exact .refl P env _
        · split
          · rename_i hlast
            have hcut : CutsAt fr ⟨fr.type, fr.sid, min gap.endOff (fr.offset + b.len), fr.fin, [], none⟩ := by
              refine ⟨rfl, fun b' hb' => ?_⟩
              rw [hb] at hb'
              cases hb'
              simp only
              omega
            exact popSplit_keeps hP hcut (hchange false) env rest
          · exact hchange fr.fin env rest

theorem unackedPopVec_keeps (hP : Hereditary P) {fr : Frame} (hb : fr.txbuf = none) (rest : List Frame) (env : Env) :
    (s.unackedPopVec fr rest env).Keeps P env fr rest := by
  rw [unackedPopVec]
  cases s.acked.unackedRangeAfter fr.offset with
  | none => exact .refl P env _
  | some gap =>
      have hdel := del_keeps P env fr rest
      simp only
      split
      · split
        · split
          · split
            · exact hdel
            · exact hdel
          · exact hdel.trans (.add _ rest rfl)
        · split
          · exact .refl P env _
          · exact hdel
      · split
        · exact .refl P env _
        · split
          · split
            · exact .refl P env _
            · split
              · exact .same env rest rfl
              · exact .refl P env _
          · split
            · exact .refl P env _
            · refine popSplit_keeps hP ⟨rfl, by simp [hb]⟩ (fun env' frs => ?_) env rest
              exact .same env' frs rfl

theorem visit_keeps (hP : Hereditary P) (fr : Frame) (rest : List Frame) (env : Env) :
    (s.visit fr rest env).Keeps P env fr rest := by
  rw [visit]
  cases hb : fr.txbuf with
  | some b => exact s.unackedPopTxbuf_keeps hP hb rest env
  | none => exact s.unackedPopVec_keeps hP hb rest env

theorem unackedPop_keeps (hP : Hereditary P) (queue : List Frame) (env : Env) :
    Keeps P env queue (s.unackedPop queue env).env (s.unackedPop queue env).live := by
  induction queue generalizing env with
  | nil => exact .refl P env []
  | cons fr rest ih =>
      have hvisit := s.visit_keeps hP fr rest env
      rw [unackedPop]
      generalize s.visit fr rest env = v at hvisit
      cases v with
      | deleted env' => exact Keeps.trans hvisit (ih env')
      | done p => exact hvisit

/-- What is merged has no buffer; the queue has all the references. -/
theorem mergeFrame_keeps {fin : Bool} {data : List Vec} {datalen left : Nat} (nfr : Frame) (queue : List Frame) (env : Env)
    {more : Bool → List Vec → Nat → Nat → List Frame → Env → Merging}
    (hmore : ∀ fin data datalen left queue env,
      Keeps P env queue (more fin data datalen left queue env).env (more fin data datalen left queue env).queue) :
    Keeps P env (nfr :: queue) (mergeFrame fin data datalen left nfr queue env more).env
      (mergeFrame fin data datalen left nfr queue env more).queue := by
  have hput : ∀ nfr' : Frame, nfr'.txbuf = nfr.txbuf → Returns P env (nfr :: queue) queue (env.putBack nfr' queue) := by
    intro nfr' htx
    have hback := putBack_returns P env nfr' queue
    have hsame : Keeps P env (nfr :: queue) env (nfr' :: queue) := .same env queue htx
    generalize env.putBack nfr' queue = r at hback ⊢
    obtain ⟨rv, env'⟩ := r
    cases rv with
    | error e => exact hsame.trans hback
    | ok queue' => exact hsame.trans hback
  rw [mergeFrame]
  split
  · have hback := hput nfr rfl
    generalize env.putBack nfr queue = r at hback
    obtain ⟨rv, env'⟩ := r
    cases rv with
    | error e => exact hback
    | ok queue' => exact hback
  · have hdel := del_keeps P env nfr queue
    split
    · exact hdel
    · simp only
      split
      · have hback := hput { nfr with data := (vecMerge maxStreamDatacnt data nfr.data left).src } rfl
        generalize env.putBack _ queue = r at hback
        obtain ⟨rv, env'⟩ := r
        cases rv with
        | error e => exact hback
        | ok queue' => exact hback
      · split
        · exact hdel.trans (hmore _ _ _ _ queue (env.del nfr))
        · generalize hn : ({ nfr with
            offset := nfr.offset + (vecMerge maxStreamDatacnt data nfr.data left).nmerged
            data := (vecMerge maxStreamDatacnt data nfr.data left).src } : Frame) = nfr'
          have hsame : Keeps P env (nfr :: queue) env (nfr' :: queue) := .same env queue (by rw [← hn])
          have hins := kslInsert_returns P env nfr' queue
          generalize env.kslInsert nfr' queue = r at hins
          obtain ⟨rv, env'⟩ := r
          cases rv with
          | error e =>
              have hback : Keeps P env' (nfr' :: queue) env' (nfr :: queue) := .same env' queue (by rw [← hn])
              exact ((hsame.trans hins).trans hback).trans (del_keeps P env' nfr queue)
          | ok queue' => exact hsame.trans hins

theorem mergeFrames_keeps (hP : Hereditary P) (offset fuel : Nat) (fin : Bool) (data : List Vec) (datalen left : Nat)
    (queue : List Frame) (env : Env) :
    Keeps P env queue (s.mergeFrames offset fuel fin data datalen left queue env).env
      (s.mergeFrames offset fuel fin data datalen left queue env).queue := by
  induction fuel generalizing fin data datalen left queue env with
  | zero => exact .refl P env queue
  | succ fuel ih =>
      rw [mergeFrames]
      split
      · exact .refl P env queue
      · split
        · exact .refl P env queue
        · exact .refl P env queue
        · split
          · split
            · exact .refl P env queue
            · exact .refl P env queue
          · have hpop := s.unackedPop_keeps hP queue env
            generalize s.unackedPop queue env = p at hpop
            obtain ⟨rv, queue', env'⟩ := p
            cases rv with
            | error e => exact hpop
            | ok res =>
                cases res with
                | none => exact hpop
                | some nfr => exact hpop.trans (mergeFrame_keeps nfr queue' env' ih)

theorem finishMerge_keeps {fr : Frame} (hb : fr.txbuf = none) (m : Merging) :
    Keeps P m.env m.queue (finishMerge fr m).env (finishMerge fr m).live := by
  have hdel : m.env.del fr = m.env := by rw [del, releaseTxbuf, hb]
  rw [finishMerge]
  cases m.rv with
  | error e =>
      simp only
      rw [hdel]
      exact .refl P m.env m.queue
  | ok r =>
      obtain ⟨fin, data⟩ := r
      simp only
      split
      · exact .add m.env m.queue hb
      · have hdraw := draw_keeps P m.env m.queue
        generalize m.env.draw = d at hdraw
        obtain ⟨ok, env'⟩ := d
        have hdel' : env'.del fr = env' := by rw [del, releaseTxbuf, hb]
        cases ok with
        | false =>
            simp only
            rw [hdel']
            exact hdraw
        | true =>
            simp only
            rw [hdel']
            exact hdraw.trans (.add env' m.queue rfl)

theorem popFrame_keeps (hP : Hereditary P) (left : Nat) (fr : Frame) (queue : List Frame) (env : Env) :
    Keeps P env (fr :: queue) (s.popFrame left fr queue env).env (s.popFrame left fr queue env).live := by
  rw [popFrame]
  split
  · have hback := putBack_returns P env fr queue
    generalize env.putBack fr queue = r at hback
    obtain ⟨rv, env'⟩ := r
    cases rv with
    | error e => exact hback
    | ok queue' => exact hback
  · split
    · rename_i hlt
      cases hb : fr.txbuf with
      | some b =>
          rw [Frame.datalen, hb] at hlt
          have hlt : left < b.last - b.pos := hlt
          refine popSplit_keeps hP ⟨rfl, fun b' hb' => ?_⟩ (fun env' frs => .change env' frs ?_ fun b' hb' hw => ?_) env queue
          · rw [hb] at hb'
            cases hb'
            change fr.offset + left - fr.offset < b.last - b.pos
            omega
          · simp [Frame.owners, hb]
          · cases hb'
            refine hP b _ ⟨rfl, Nat.le_refl _, Nat.le_add_right _ _, ?_⟩ (hw b hb)
            simp only
            omega
      | none =>
          simp only
          split
          · exact .refl P env _
          · refine popSplit_keeps hP ⟨rfl, by simp [hb]⟩ (fun env' frs => ?_) env queue
            exact .same env' frs hb.symm
    · split
      · exact .refl P env _
      · rename_i hb
        have hb : fr.txbuf = none := by simpa using hb
        have hmerge := s.mergeFrames_keeps hP fr.offset (left - fr.datalen) fr.fin fr.data fr.datalen (left - fr.datalen)
          queue env
        exact (Keeps.drop env queue hb).trans (hmerge.trans (finishMerge_keeps hb _))

/-- `ngtcp2_strm_streamfrq_pop` loses no reference, and none is released twice. -/
theorem streamfrqPop_keeps (hP : Hereditary P) (left : Nat) (env : Env) :
    Keeps P env s.queue (s.streamfrqPop left env).env (s.streamfrqPop left env).live := by
  have hpop := s.unackedPop_keeps hP s.queue env
  rw [streamfrqPop]
  generalize s.unackedPop s.queue env = p at hpop
  obtain ⟨rv, queue, env'⟩ := p
  cases rv with
  | error e => exact hpop
  | ok res =>
      cases res with
      | none => exact hpop
      | some fr => exact hpop.trans (s.popFrame_keeps hP left fr queue env')

end SendStrm

end Zngtcp2.Custody
