import Zngtcp2.Lib.Run
import Zngtcp2.FrameChain.Steps

namespace Zngtcp2.FrameChain

open Lib.Run (run Guarded)
open Lib.Binder (Linked)

/-- The frames that the code can reach. -/
def State.frames (s : State) : List Frc :=
  s.frq ++ s.ents.flatMap Entry.frames

/-- Two frames have the same binder exactly if they are copies of one frame. -/
def SharedBinder (f g : Frc) : Prop :=
  (f.id = g.id → f.binder ≠ none ∧ f.binder = g.binder) ∧ (f.binder ≠ none → f.binder = g.binder → f.id = g.id)

/-- Control frames take effect once: the copies that `rtb_reclaim_frame` has made have one binder, which counts the
frames that point to it and is freed with the last one, the first acknowledgement of a copy performs the effect, and
no later one, and no copy is queued or encoded from then on. -/
structure TakesEffectOnce (s : State) : Prop where
  linked : ∀ f ∈ s.frames ++ s.lost, f.copy = true → f.binder ≠ none
  shared : (s.frames ++ s.lost).Pairwise SharedBinder
  refcount : ∀ b x, s.heap.cell b = some x → x.refcount = (s.frames ++ s.lost).countP (Frc.pointsTo b)
  freed : ∀ b, s.heap.cell b = none ↔ (s.frames ++ s.lost).countP (Frc.pointsTo b) = 0
  once : ∀ id, s.log.count (.effect id) = if .acked id ∈ s.log then 1 else 0
  quiet : Quiet s.log

/-- The flag of a frame's binder. -/
def Heap.hasAckFlag (heap : Heap) (f : Frc) : Bool :=
  f.binder.any fun b => (heap.cell b).any Binder.acked

/-- A packet that is reclaimed gets the memory for the binders of its frames. -/
def BinderMemory (s : State) : Op → Prop
  | .lost conn memory i => ∀ e, s.ents[i]? = some e → e.lostRetransmitted = false → e.ptoReclaimed = false →
      binderFails s.heap.hasAckFlag conn memory e.frames = false
  | .pto conn memory i => ∀ e, s.ents[i]? = some e → e.lostRetransmitted = false → e.ptoReclaimed = false →
      binderFails s.heap.hasAckFlag conn memory e.frames = false
  | _ => True

/-- The frames that exist, and what was issued and acknowledged. -/
structure Stock (heap : Heap) (frames : List Frc) (ids numInFlight : Nat) (issued acked : List Nat)
    (kind : Nat → Bool) : Prop where
  tracked : Tracked heap [] frames issued acked
  issued_lt : ∀ id ∈ issued, id < ids
  fine : ∀ f ∈ frames, Fine kind f
  inFlight : InFlight kind numInFlight issued acked

/-- What every call keeps, whether or not there is memory. -/
structure Inv (s : State) (issued acked : List Nat) (kind : Nat → Bool) : Prop where
  stock : Stock s.heap s.frames s.ids s.numInFlight issued acked kind
  logged : Logged s.log acked
  lost : ∀ f ∈ s.lost, f.copy = true ∧ f.binder = none

def Invariant (s : State) : Prop :=
  ∃ issued acked kind, Inv s issued acked kind

section Frames

variable {s : State}

/-- The frames with those of one packet in front. -/
theorem frames_perm {i : Nat} {e : Entry} (he : s.ents[i]? = some e) :
    s.frames.Perm (e.frames ++ (s.frq ++ (s.ents.eraseIdx i).flatMap Entry.frames)) := by
  obtain ⟨hlt, rfl⟩ := List.getElem?_eq_some_iff.mp he
  have hperm := (List.getElem_cons_eraseIdx_perm hlt).symm.flatMap_right Entry.frames
  rw [List.flatMap_cons] at hperm
  exact (hperm.append_left s.frq).trans (List.perm_append_comm_assoc _ _ _)

theorem set_frames_perm {i : Nat} {e e' : Entry} (he : s.ents[i]? = some e) :
    ((s.ents.set i e').flatMap Entry.frames).Perm (e'.frames ++ (s.ents.eraseIdx i).flatMap Entry.frames) := by
  obtain ⟨hlt, -⟩ := List.getElem?_eq_some_iff.mp he
  exact (List.set_perm_cons_eraseIdx hlt e').flatMap_right Entry.frames

theorem mem_frames_of_entry {i : Nat} {e : Entry} (he : s.ents[i]? = some e) {f : Frc} (hf : f ∈ e.frames) :
    f ∈ s.frames :=
  (frames_perm he).symm.subset (List.mem_append_left _ hf)

end Frames

section Stocks

variable {heap : Heap} {frames frames' : List Frc} {ids numInFlight : Nat} {issued acked : List Nat} {kind : Nat → Bool}

theorem Stock.perm (h : Stock heap frames ids numInFlight issued acked kind) (hp : frames'.Perm frames) :
    Stock heap frames' ids numInFlight issued acked kind :=
  ⟨h.tracked.perm hp, h.issued_lt, fun f hf => h.fine f (hp.subset hf), h.inFlight⟩

/-- A new frame with the next id. -/
theorem Stock.issue (h : Stock heap frames ids numInFlight issued acked kind) (fr : Fr) :
    Stock heap ({ fr := fr, id := ids } :: frames) (ids + 1)
      (if fr.isNewConnectionId then numInFlight + 1 else numInFlight) (ids :: issued) acked
      (Function.update kind ids fr.isNewConnectionId) := by
  obtain ⟨marked, hlinked, -⟩ := h.tracked.linked
  have hkind : ∀ id ∈ issued, Function.update kind ids fr.isNewConnectionId id = kind id :=
    fun id hid => Function.update_of_ne (Nat.ne_of_lt (h.issued_lt id hid)) _ _
  have hcount : ∀ l : List Nat, (∀ id ∈ l, id ∈ issued) →
      l.countP (Function.update kind ids fr.isNewConnectionId) = l.countP kind := by
    intro l hl
    apply List.countP_congr
    intro id hid
    rw [hkind id (hl id hid)]
  refine ⟨h.tracked.issue (fun hmem => Nat.lt_irrefl ids (h.issued_lt ids hmem)) rfl, ?_, ?_, ?_⟩
  · exact List.forall_mem_cons.mpr ⟨Nat.lt_succ_self ids, fun id hid => Nat.lt_succ_of_lt (h.issued_lt id hid)⟩
  · refine List.forall_mem_cons.mpr ⟨⟨Function.update_self _ _ _, fun hfalse => absurd hfalse Bool.false_ne_true⟩, ?_⟩
    intro f hf
    have hissued : f.id ∈ issued := hlinked.mem_issued f.item (List.mem_map_of_mem hf)
    exact ⟨(hkind f.id hissued).trans (h.fine f hf).kind_eq, (h.fine f hf).bound⟩
  · have hflight := h.inFlight
    rw [InFlight] at hflight ⊢
    rw [hcount acked hlinked.sub]
    cases hnew : fr.isNewConnectionId with
    | true =>
        rw [hnew] at hcount
        rw [if_pos rfl, List.countP_cons_of_pos (Function.update_self _ _ _), hcount issued fun id hid => hid]
        omega
    | false =>
        rw [hnew] at hcount
        rw [if_neg Bool.false_ne_true, List.countP_cons_of_neg, hcount issued fun id hid => hid, hflight]
        rw [Function.update_self]
        exact Bool.false_ne_true

/-- Frames that `conn_write_pkt` makes. -/
theorem Stock.fresh (h : Stock heap frames ids numInFlight issued acked kind) (frs : List State.PlainFr) :
    ∃ issued' kind', Stock heap (State.fresh ids frs ++ frames) (ids + frs.length) numInFlight issued' acked kind' := by
  induction frs generalizing ids frames issued kind with
  | nil => exact ⟨issued, kind, h⟩
  | cons fr frs ih =>
      have hissue := h.issue fr.1
      rw [fr.2, if_neg Bool.false_ne_true] at hissue
      obtain ⟨issued', kind', h'⟩ := ih hissue
      refine ⟨issued', kind', ?_⟩
      rw [List.length_cons, show ids + (frs.length + 1) = ids + 1 + frs.length by omega]
      exact h'.perm List.perm_middle.symm

end Stocks

section Invariance

variable {s : State} {issued acked : List Nat} {kind : Nat → Bool}

/-- Under the invariant the property fails with the first copy that is lost, and only then. -/
theorem Inv.takesEffectOnce_iff (h : Inv s issued acked kind) : TakesEffectOnce s ↔ s.lost = [] := by
  constructor
  · intro honce
    rw [List.eq_nil_iff_forall_not_mem]
    intro f hf
    obtain ⟨hcopy, hnone⟩ := h.lost f hf
    exact honce.linked f (List.mem_append_right _ hf) hcopy hnone
  · intro hlost
    obtain ⟨marked, hlinked, -⟩ := h.stock.tracked.linked
    have hcounted := h.stock.tracked.counted
    rw [List.nil_append] at hcounted
    refine ⟨?_, ?_, ?_, ?_, ?_, h.logged.quiet⟩
    · rw [hlost, List.append_nil]
      exact fun f hf => (h.stock.fine f hf).bound
    · rw [hlost, List.append_nil]
      have hrelated := List.pairwise_map.mp hlinked.related
      exact hrelated
    · rw [hlost, List.append_nil]
      intro b x hx
      have hcount := hcounted.refcount b
      rwa [Heap.refcount, hx, Option.elim_some] at hcount
    · rw [hlost, List.append_nil]
      exact hcounted.cell_eq_none_iff
    · intro id
      have hcount : s.log.count (.effect id) = acked.count id := by
        rw [← h.logged.effects, List.count_filterMap]
        apply List.countP_congr
        intro event _
        rw [beq_iff_eq, beq_iff_eq]
        cases event with
        | effect id' => rw [Event.effectId, Event.effect.injEq, Option.some.injEq]
        | acked id' => exact ⟨fun h => (by cases h), fun h => (by cases h)⟩
        | queued id' => exact ⟨fun h => (by cases h), fun h => (by cases h)⟩
        | encoded id' => exact ⟨fun h => (by cases h), fun h => (by cases h)⟩
      rw [hcount]
      by_cases hid : id ∈ acked
      · rw [if_pos ((h.logged.acked_iff id).mpr hid), List.count_eq_one_of_mem hlinked.nodup hid]
      · rw [if_neg fun hmem => hid ((h.logged.acked_iff id).mp hmem), List.count_eq_zero_of_not_mem hid]

theorem Inv.hasAckFlag (h : Inv s issued acked kind) {f : Frc} (hf : f ∈ s.frames) :
    s.heap.hasAckFlag f = decide (f.id ∈ acked) := by
  have hacked := h.stock.tracked.isAcked hf
  rw [Heap.isAcked] at hacked
  rw [Heap.hasAckFlag]
  cases hb : f.binder with
  | none =>
      rw [hb, Except.ok.injEq] at hacked
      rw [← hacked]
      rfl
  | some b =>
      rw [hb] at hacked
      dsimp only at hacked
      rw [Option.any_some]
      cases hx : s.heap.cell b with
      | none =>
          rw [hx] at hacked
          cases hacked
      | some x =>
          rw [hx] at hacked
          rw [Option.any_some]
          exact Except.ok.inj hacked

theorem queue_spec (h : Inv s issued acked kind) (fr : Fr) : Invariant (s.queue fr) :=
  ⟨_, _, _, h.stock.issue fr, h.logged, h.lost⟩

theorem flatMap_addEntry (frames : List Frc) (ents : List Entry) :
    (State.addEntry frames ents).flatMap Entry.frames = frames ++ ents.flatMap Entry.frames := by
  rw [State.addEntry]
  by_cases hnil : frames = []
  · rw [if_pos hnil, hnil, List.nil_append]
  · rw [if_neg hnil, List.flatMap_cons]

theorem writePkt_spec (h : Inv s issued acked kind) (conn : Conn) (k : Nat) (added unfit : List State.PlainFr) :
    ∃ s', s.writePkt conn k added unfit = .ok s' ∧ Invariant s' ∧ s'.lost = s.lost := by
  obtain ⟨written, rest, heap', hwrite, htracked, hnot, hsub⟩ := @writeLoop_spec _ _ _ _ _ conn k _ h.stock.tracked
  have hlogged := h.logged.use (Or.inr rfl) hnot
  have hstock : Stock heap' (written ++ (rest ++ s.ents.flatMap Entry.frames)) s.ids s.numInFlight issued acked kind := by
    refine ⟨htracked, h.stock.issued_lt, fun f hf => ?_, h.stock.inFlight⟩
    rw [← List.append_assoc, List.mem_append] at hf
    exact h.stock.fine f (List.mem_append.mpr (hf.imp (hsub f) id))
  rw [State.writePkt, hwrite]
  dsimp only
  by_cases hrest : rest = []
  · subst hrest
    obtain ⟨issued₁, kind₁, hadded⟩ := hstock.fresh added
    obtain ⟨issued₂, kind₂, hunfit⟩ := hadded.fresh unfit
    rw [if_pos rfl]
    refine ⟨_, rfl, ⟨issued₂, acked, kind₂, hunfit.perm ?_, hlogged, h.lost⟩, rfl⟩
    change (State.fresh (s.ids + added.length) unfit ++ (State.addEntry _ s.ents).flatMap Entry.frames).Perm _
    rw [flatMap_addEntry, List.append_assoc]
    exact (List.perm_append_comm_assoc _ _ _).append_left _
  · rw [if_neg hrest]
    refine ⟨_, rfl, ⟨issued, acked, kind, hstock.perm ?_, hlogged, h.lost⟩, rfl⟩
    change (rest ++ (State.addEntry _ s.ents).flatMap Entry.frames).Perm _
    rw [flatMap_addEntry]
    exact List.perm_append_comm_assoc _ _ _

theorem reclaimFrame_spec (h : Inv s issued acked kind) (conn : Conn) (memory : Nat → Memory) {i : Nat} {e e' : Entry}
    (he : s.ents[i]? = some e) :
    ∃ s', s.reclaimFrame conn memory i e e' = .ok s' ∧ Invariant s' ∧
      (s'.lost = [] ↔ s.lost = [] ∧ binderFails s.heap.hasAckFlag conn memory e.frames = false) := by
  obtain ⟨r, hr, htracked, hfine, hcopies, hlost, hiff⟩ := @reclaimLoop_spec _ _ _ _ _ _ conn memory _
    (h.stock.tracked.perm (frames_perm he).symm) fun f hf => h.stock.fine f (mem_frames_of_entry he hf)
  have hcongr := @binderFails_congr s.heap.hasAckFlag (fun f => decide (f.id ∈ acked)) conn memory e.frames
    fun f hf => h.hasAckFlag (mem_frames_of_entry he hf)
  have hstock : Stock r.heap (r.frames ++ (r.copies ++ (s.frq ++ (s.ents.eraseIdx i).flatMap Entry.frames))) s.ids
      s.numInFlight issued acked kind := by
    refine ⟨htracked, h.stock.issued_lt, fun f hf => ?_, h.stock.inFlight⟩
    rw [← List.append_assoc, List.mem_append] at hf
    obtain hf | hf := hf
    · exact hfine f hf
    · exact h.stock.fine f ((frames_perm he).symm.subset (List.mem_append_right _ hf))
  rw [State.reclaimFrame, hr]
  refine ⟨_, rfl, ⟨issued, acked, kind, hstock.perm ?_, h.logged.use (Or.inl rfl) hcopies, ?_⟩, ?_⟩
  · change ((r.copies ++ s.frq) ++ (s.ents.set i _).flatMap Entry.frames).Perm _
    refine ((set_frames_perm he).append_left _).trans ?_
    rw [List.append_assoc]
    refine ((List.perm_append_comm_assoc _ _ _).append_left _).trans ?_
    exact List.perm_append_comm_assoc _ _ _
  · intro f hf
    obtain hf | hf := List.mem_append.mp hf
    · exact hlost f hf
    · exact h.lost f hf
  · dsimp only
    rw [hcongr, List.append_eq_nil_iff, hiff, and_comm]

theorem setFlags_spec (h : Inv s issued acked kind) {i : Nat} {e e' : Entry} (he : s.ents[i]? = some e)
    (hframes : e'.frames = e.frames) : Invariant { s with ents := s.ents.set i e' } := by
  refine ⟨issued, acked, kind, h.stock.perm ?_, h.logged, h.lost⟩
  refine List.Perm.trans ?_ (frames_perm he).symm
  refine ((set_frames_perm he).append_left _).trans ?_
  rw [hframes]
  exact List.perm_append_comm_assoc _ _ _

theorem processAckedPkt_spec (h : Inv s issued acked kind) (i : Nat) :
    ∃ s', s.processAckedPkt i = .ok s' ∧ Invariant s' ∧ s'.lost = s.lost := by
  rw [State.processAckedPkt]
  cases he : s.ents[i]? with
  | none => exact ⟨s, rfl, ⟨issued, acked, kind, h⟩, rfl⟩
  | some e =>
      obtain ⟨heap', n, log', acked', hack, htracked, hflight, hlogged⟩ := ackLoop_spec
        (h.stock.tracked.perm (frames_perm he).symm) (fun f hf => h.stock.fine f (mem_frames_of_entry he hf))
        h.stock.inFlight h.logged
      rw [List.append_nil] at htracked
      obtain ⟨heap₂, hdel, htracked₂⟩ := htracked.listDel (List.reverse_perm e.frames).symm
      dsimp only
      rw [hack]
      dsimp only
      rw [hdel]
      refine ⟨_, rfl, ⟨issued, acked', kind, ⟨htracked₂, h.stock.issued_lt, fun f hf => ?_, hflight⟩, hlogged, h.lost⟩, rfl⟩
      exact h.stock.fine f ((frames_perm he).symm.subset (List.mem_append_right _ hf))

/-- Frames are deleted, and the others remain. -/
theorem listDel_spec (h : Inv s issued acked kind) {fs frames : List Frc} (hp : s.frames.Perm (fs ++ frames)) :
    ∃ heap', Heap.listDel fs s.heap = .ok heap' ∧ Stock heap' frames s.ids s.numInFlight issued acked kind := by
  have htracked := h.stock.tracked.perm hp.symm
  obtain ⟨marked, hlinked, hflags⟩ := htracked.linked
  rw [List.map_append] at hlinked
  have hdone : Tracked s.heap fs frames issued acked :=
    ⟨htracked.counted, marked, hlinked.sublist (List.sublist_append_right _ _), hflags⟩
  obtain ⟨heap', hdel, htracked'⟩ := hdone.listDel (List.Perm.refl fs)
  refine ⟨heap', hdel, htracked', h.stock.issued_lt, fun f hf => ?_, h.stock.inFlight⟩
  exact h.stock.fine f (hp.symm.subset (List.mem_append_right _ hf))

theorem removeEntry_spec (h : Inv s issued acked kind) (i : Nat) :
    ∃ s', s.removeEntry i = .ok s' ∧ Invariant s' ∧ s'.lost = s.lost := by
  rw [State.removeEntry]
  cases he : s.ents[i]? with
  | none => exact ⟨s, rfl, ⟨issued, acked, kind, h⟩, rfl⟩
  | some e =>
      obtain ⟨heap', hdel, hstock⟩ := listDel_spec h (frames_perm he)
      dsimp only
      rw [hdel]
      exact ⟨_, rfl, ⟨issued, acked, kind, hstock, h.logged, h.lost⟩, rfl⟩

theorem reclaimOnRetry_spec (h : Inv s issued acked kind) (i : Nat) :
    ∃ s', s.reclaimOnRetry i = .ok s' ∧ Invariant s' ∧ s'.lost = s.lost := by
  rw [State.reclaimOnRetry]
  cases he : s.ents[i]? with
  | none => exact ⟨s, rfl, ⟨issued, acked, kind, h⟩, rfl⟩
  | some e =>
      dsimp only
      cases e.ptoReclaimed with
      | true => exact removeEntry_spec h i
      | false =>
          refine ⟨_, rfl, ⟨issued, acked, kind, h.stock.perm ?_, h.logged, h.lost⟩, rfl⟩
          change (e.frames ++ s.frq ++ (s.ents.eraseIdx i).flatMap Entry.frames).Perm _
          rw [List.append_assoc]
          exact (frames_perm he).symm

theorem discardFrq_spec (h : Inv s issued acked kind) :
    ∃ s', s.discardFrq = .ok s' ∧ Invariant s' ∧ s'.lost = s.lost := by
  obtain ⟨heap', hdel, hstock⟩ := listDel_spec h (List.Perm.refl _)
  rw [State.discardFrq, hdel]
  exact ⟨_, rfl, ⟨issued, acked, kind, hstock, h.logged, h.lost⟩, rfl⟩

theorem onPktLost_spec (h : Inv s issued acked kind) (conn : Conn) (memory : Nat → Memory) (i : Nat) :
    ∃ s', s.onPktLost conn memory i = .ok s' ∧ Invariant s' ∧
      (s'.lost = [] ↔ s.lost = [] ∧ BinderMemory s (.lost conn memory i)) := by
  rw [State.onPktLost, BinderMemory]
  cases he : s.ents[i]? with
  | none => exact ⟨s, rfl, ⟨issued, acked, kind, h⟩, fun hlost => ⟨hlost, fun e he => (by cases he)⟩, And.left⟩
  | some e =>
      simp only [Option.some.injEq, forall_eq']
      cases hlost : e.lostRetransmitted with
      | true => exact ⟨s, rfl, ⟨issued, acked, kind, h⟩, fun hnil => ⟨hnil, fun hfalse => (by cases hfalse)⟩, And.left⟩
      | false =>
          cases hpto : e.ptoReclaimed with
          | true =>
              exact ⟨_, rfl, setFlags_spec h he rfl, fun hnil => ⟨hnil, fun _ hfalse => (by cases hfalse)⟩, And.left⟩
          | false =>
              obtain ⟨s', hreclaim, hinv, hiff⟩ :=
                @reclaimFrame_spec s issued acked kind h conn memory i e { frames := e.frames, lostRetransmitted := true } he
              refine ⟨s', hreclaim, hinv, hiff.trans (and_congr_right fun _ => ?_)⟩
              exact ⟨fun hok _ _ => hok, fun hall => hall rfl rfl⟩

theorem reclaimOnPto_spec (h : Inv s issued acked kind) (conn : Conn) (memory : Nat → Memory) (i : Nat) :
    ∃ s', s.reclaimOnPto conn memory i = .ok s' ∧ Invariant s' ∧
      (s'.lost = [] ↔ s.lost = [] ∧ BinderMemory s (.pto conn memory i)) := by
  rw [State.reclaimOnPto, BinderMemory]
  cases he : s.ents[i]? with
  | none => exact ⟨s, rfl, ⟨issued, acked, kind, h⟩, fun hlost => ⟨hlost, fun e he => (by cases he)⟩, And.left⟩
  | some e =>
      simp only [Option.some.injEq, forall_eq']
      cases hlost : e.lostRetransmitted with
      | true => exact ⟨s, rfl, ⟨issued, acked, kind, h⟩, fun hnil => ⟨hnil, fun hfalse => (by cases hfalse)⟩, And.left⟩
      | false =>
          cases hpto : e.ptoReclaimed with
          | true => exact ⟨s, rfl, ⟨issued, acked, kind, h⟩, fun hnil => ⟨hnil, fun _ hfalse => (by cases hfalse)⟩, And.left⟩
          | false =>
              obtain ⟨s', hreclaim, hinv, hiff⟩ :=
                @reclaimFrame_spec s issued acked kind h conn memory i e { frames := e.frames, ptoReclaimed := true } he
              refine ⟨s', hreclaim, hinv, hiff.trans (and_congr_right fun _ => ?_)⟩
              exact ⟨fun hok _ _ => hok, fun hall => hall rfl rfl⟩

end Invariance

section Results

/-- Every call returns and keeps the invariant, and only a reclaimed packet without the memory for a binder loses a
copy. -/
theorem step_spec {s : State} (h : Invariant s) (op : Op) :
    ∃ s', step s op = .ok s' ∧ Invariant s' ∧ (s'.lost = [] ↔ s.lost = [] ∧ BinderMemory s op) := by
  obtain ⟨issued, acked, kind, h⟩ := h
  have hplain : ∀ {s' : State}, s'.lost = s.lost → (s'.lost = [] ↔ s.lost = [] ∧ True) := by
    intro s' hlost
    rw [hlost, and_true]
  cases op with
  | queue fr => exact ⟨_, rfl, queue_spec h fr, hplain rfl⟩
  | writePkt conn k added unfit =>
      obtain ⟨s', hstep, hinv, hlost⟩ := writePkt_spec h conn k added unfit
      exact ⟨s', hstep, hinv, hplain hlost⟩
  | lost conn memory i => exact onPktLost_spec h conn memory i
  | pto conn memory i => exact reclaimOnPto_spec h conn memory i
  | ack i =>
      obtain ⟨s', hstep, hinv, hlost⟩ := processAckedPkt_spec h i
      exact ⟨s', hstep, hinv, hplain hlost⟩
  | remove i =>
      obtain ⟨s', hstep, hinv, hlost⟩ := removeEntry_spec h i
      exact ⟨s', hstep, hinv, hplain hlost⟩
  | retry i =>
      obtain ⟨s', hstep, hinv, hlost⟩ := reclaimOnRetry_spec h i
      exact ⟨s', hstep, hinv, hplain hlost⟩
  | discard =>
      obtain ⟨s', hstep, hinv, hlost⟩ := discardFrq_spec h
      exact ⟨s', hstep, hinv, hplain hlost⟩

theorem new_invariant : Invariant {} := by
  refine ⟨[], [], fun _ => false, ⟨⟨⟨fun _ => rfl, ?_, ?_⟩, [], ?_, ?_⟩, ?_, ?_, rfl⟩, ⟨rfl, ?_, trivial⟩, ?_⟩
  · exact fun b x hx => (by cases hx)
  · exact fun b x hx => (by cases hx)
  · exact ⟨List.Pairwise.nil, fun f hf => absurd hf List.not_mem_nil, fun b hb => absurd hb List.not_mem_nil,
      fun f hf => absurd hf List.not_mem_nil, fun f hf => absurd hf List.not_mem_nil,
      fun a ha => absurd ha List.not_mem_nil, List.nodup_nil⟩
  · exact fun b x hx => (by cases hx)
  · exact fun id hid => absurd hid List.not_mem_nil
  · exact fun f hf => absurd hf List.not_mem_nil
  · exact fun id => ⟨fun h => absurd h List.not_mem_nil, fun h => absurd h List.not_mem_nil⟩
  · exact fun f hf => absurd hf List.not_mem_nil

/-- No run reads a freed binder or fails an assertion, and after it control frames have taken effect once exactly if
every packet that was reclaimed got the memory for its binders. -/
theorem takes_effect_once (ops : List Op) :
    ∃ s, run step {} ops = .ok s ∧ (TakesEffectOnce s ↔ Guarded step BinderMemory {} ops) := by
  obtain ⟨s, hrun, hinv⟩ := @Lib.Run.run_invariant _ _ _ step (fun _ _ => True) Invariant
    (fun s op hs _ => (step_spec hs op).imp fun s' hs' => ⟨hs'.1, hs'.2.1⟩) {} new_invariant ops
    (Lib.Run.guarded_of_forall (fun _ _ _ => trivial) ({} : State))
  have hiff := @Lib.Run.run_iff_guarded _ _ _ step BinderMemory Invariant (fun s => s.lost = []) ops
    (fun op _ s s' hs hstep => by
      obtain ⟨s₁, hstep₁, hinv₁, hiff₁⟩ := step_spec hs op
      cases hstep.symm.trans hstep₁
      exact ⟨hinv₁, hiff₁⟩) {} s new_invariant hrun
  obtain ⟨issued, acked, kind, hinv⟩ := hinv
  refine ⟨s, hrun, hinv.takesEffectOnce_iff.trans (hiff.trans ?_)⟩
  exact ⟨And.right, fun hguarded => ⟨rfl, hguarded⟩⟩

def idleConn : Conn where
  requireRetransmitResetStream _ := false
  requireRetransmitStopSending _ := false
  requireRetransmitMaxStreamData _ _ := false
  requireRetransmitStreamDataBlocked _ _ := false
  remoteBidiMaxStreams := 0
  remoteUniMaxStreams := 0
  rxMaxOffset := 0
  txMaxOffset := 0

/-- A NEW_TOKEN frame is lost when there is memory for the copy but not for the binder. -/
theorem copy_not_linked : ¬ ∀ ops s, run step {} ops = .ok s → TakesEffectOnce s := by
  intro h
  have honce := h [.queue (.newToken [1]), .writePkt idleConn 1 [] [], .lost idleConn (fun _ => .copyOnly) 0] _ rfl
  have hlinked := honce.linked { fr := .newToken [1], id := 0, copy := true }
  exact hlinked (List.mem_append_right _ List.mem_cons_self) rfl rfl

end Results

end Zngtcp2.FrameChain
