import Mathlib.Data.List.Perm.Subperm
import Zngtcp2.FrameChain.Heap

namespace Zngtcp2.FrameChain

open Lib.Binder (Item Linked isAcked_iff)

/-- The frames that exist with what was issued and acknowledged. The frames that an acknowledgement is done with
still count, but are not asked for their flag again. -/
structure Tracked (heap : Heap) (done live : List Frc) (issued acked : List Nat) : Prop where
  counted : Counted heap (done ++ live)
  linked : ∃ marked, Linked (live.map Frc.item) marked heap.next issued acked ∧
    ∀ b x, heap.cell b = some x → (x.acked = true ↔ b ∈ marked)

namespace Tracked

variable {heap : Heap} {done live live' : List Frc} {issued acked : List Nat}

theorem perm (h : Tracked heap done live issued acked) (hp : live'.Perm live) : Tracked heap done live' issued acked := by
  obtain ⟨marked, hlinked, hflags⟩ := h.linked
  exact ⟨h.counted.perm (hp.append_left done), marked, hlinked.perm (hp.map Frc.item), hflags⟩

/-- The flag tells whether a copy of the frame was acknowledged. -/
theorem isAcked (h : Tracked heap done live issued acked) {f : Frc} (hf : f ∈ live) :
    heap.isAcked f = .ok (decide (f.id ∈ acked)) := by
  obtain ⟨marked, hlinked, hflags⟩ := h.linked
  have hmem := hlinked.mem_acked f.item (List.mem_map_of_mem hf)
  rw [isAcked_iff] at hmem
  have hbody : f.item.body = f.id := rfl
  have hbinder : f.item.binder = f.binder := rfl
  rw [hbody, hbinder] at hmem
  cases hb : f.binder with
  | none =>
      have hnot : f.id ∉ acked := by
        rw [hmem, hb]
        rintro ⟨b, -, hnone⟩
        exact absurd hnone.symm (Option.some_ne_none b)
      rw [Heap.isAcked, hb, decide_eq_false hnot]
  | some i =>
      obtain ⟨x, hx⟩ := h.counted.exists_cell (List.mem_append_right done hf) hb
      have hiff : x.acked = true ↔ f.id ∈ acked := by
        rw [hflags i x hx, hmem, hb]
        constructor
        · exact fun hi => ⟨i, hi, rfl⟩
        · rintro ⟨b, hmarked, heq⟩
          rw [Option.some.injEq] at heq
          rwa [heq]
      rw [Heap.isAcked, hb]
      dsimp only
      rw [hx]
      dsimp only
      cases hacked : x.acked with
      | true => rw [decide_eq_true (hiff.mp hacked)]
      | false => rw [decide_eq_false fun hmem => absurd (hiff.mpr hmem) (Bool.not_eq_true _ ▸ hacked)]

theorem del {f : Frc} (h : Tracked heap done (f :: live) issued acked) :
    ∃ heap', heap.del f = .ok heap' ∧ Tracked heap' done live issued acked := by
  obtain ⟨marked, hlinked, hflags⟩ := h.linked
  obtain ⟨heap', hdel, hcounted, hnext, hcells⟩ := (h.counted.perm List.perm_middle.symm).del
  refine ⟨heap', hdel, hcounted, marked, ?_, fun b x' hx' => ?_⟩
  · rw [hnext]
    exact hlinked.sublist (List.sublist_cons_self f.item _)
  · obtain ⟨x, hx, hacked⟩ := hcells b x' hx'
    rw [hacked]
    exact hflags b x hx

/-- The frames that are done with are deleted. -/
theorem listDel (h : Tracked heap done live issued acked) {fs : List Frc} (hp : fs.Perm done) :
    ∃ heap', Heap.listDel fs heap = .ok heap' ∧ Tracked heap' [] live issued acked := by
  obtain ⟨marked, hlinked, hflags⟩ := h.linked
  obtain ⟨heap', hdel, hcounted, hnext, hcells⟩ := (h.counted.perm (hp.append_right live)).listDel
  refine ⟨heap', hdel, hcounted, marked, ?_, fun b x' hx' => ?_⟩
  · rw [hnext]
    exact hlinked
  · obtain ⟨x, hx, hacked⟩ := hcells b x' hx'
    rw [hacked]
    exact hflags b x hx

theorem skip {f : Frc} (h : Tracked heap done (f :: live) issued acked) :
    Tracked heap (f :: done) live issued acked := by
  obtain ⟨marked, hlinked, hflags⟩ := h.linked
  exact ⟨h.counted.perm List.perm_middle.symm, marked, hlinked.sublist (List.sublist_cons_self f.item _), hflags⟩

/-- The first copy of a frame is acknowledged. -/
theorem setAcked {f : Frc} (h : Tracked heap done (f :: live) issued acked) (hf : f.id ∉ acked) :
    Tracked (heap.setAcked f) (f :: done) live issued (f.id :: acked) := by
  obtain ⟨marked, hlinked, hflags⟩ := h.linked
  have hnot : f.item.isAcked marked = false := by
    rw [← Bool.not_eq_true, ← hlinked.mem_acked f.item List.mem_cons_self]
    exact hf
  have hnext : (heap.setAcked f).next = heap.next := by
    rw [Heap.setAcked]
    cases f.binder with
    | none => rfl
    | some i => rfl
  refine ⟨(h.counted.perm List.perm_middle.symm).setAcked f, f.item.binder.toList ++ marked, ?_, fun b x hx => ?_⟩
  · rw [hnext]
    exact hlinked.mark hnot
  · have hbinder : f.item.binder = f.binder := rfl
    rw [hbinder]
    cases hb : f.binder with
    | none =>
        rw [Heap.setAcked, hb] at hx
        exact hflags b x hx
    | some i =>
        rw [Heap.setAcked, hb] at hx
        dsimp only at hx
        rw [Option.toList_some, List.singleton_append, List.mem_cons]
        by_cases hbi : b = i
        · subst hbi
          rw [heap.set_self, Option.map_eq_some_iff] at hx
          obtain ⟨x', -, rfl⟩ := hx
          exact ⟨fun _ => Or.inl rfl, fun _ => rfl⟩
        · rw [heap.set_of_ne hbi] at hx
          rw [hflags b x hx]
          exact ⟨Or.inr, fun hmem => hmem.resolve_left hbi⟩

/-- A new frame. -/
theorem issue (h : Tracked heap done live issued acked) {f : Frc} (hf : f.id ∉ issued) (hb : f.binder = none) :
    Tracked heap done (f :: live) (f.id :: issued) acked := by
  obtain ⟨marked, hlinked, hflags⟩ := h.linked
  have hitem : f.item = ⟨f.id, none⟩ := congrArg (Item.mk f.id) hb
  refine ⟨?_, marked, ?_, hflags⟩
  · refine Counted.perm ⟨fun b => ?_, h.counted.pos, h.counted.lt⟩ List.perm_middle
    rw [h.counted.refcount b, List.countP_cons_of_neg]
    rw [pointsTo_iff, hb]
    exact (Option.some_ne_none b).symm
  · rw [List.map_cons, hitem]
    exact hlinked.issue hf

/-- A frame and the copy of it are bound, if there is memory for the binder that they need. -/
theorem bind {f g : Frc} (h : Tracked heap done (f :: live) issued acked) (hf : f.id ∉ acked) (hg : g.id = f.id)
    (hgb : g.binder = none) (memory : Bool) :
    if memory = false ∧ f.binder = none then bindFrameChains heap memory f g = .ok none
    else ∃ b heap', bindFrameChains heap memory f g =
        .ok (some ({ f with binder := some b }, { g with binder := some b }, heap')) ∧
      Tracked heap' done ({ f with binder := some b } :: { g with binder := some b } :: live) issued acked := by
  obtain ⟨marked, hlinked, hflags⟩ := h.linked
  have hnot : f.item.isAcked marked = false := by
    rw [← Bool.not_eq_true, ← hlinked.mem_acked f.item List.mem_cons_self]
    exact hf
  have hcopy := hlinked.copy hnot
  have hcounted := h.counted.perm List.perm_middle.symm
  have hgnone : ¬ g.binder ≠ none := fun hne => hne hgb
  -- the items of the two frames after the call
  have hitems : ∀ b, ({ f with binder := some b } : Frc).item = ⟨f.id, some b⟩ ∧
      ({ g with binder := some b } : Frc).item = ⟨f.id, some b⟩ :=
    fun b => ⟨rfl, congrArg (fun id => (⟨id, some b⟩ : Item Nat)) hg⟩
  have hperm : ∀ f' g' : Frc, (done ++ f' :: g' :: live).Perm (g' :: f' :: (done ++ live)) :=
    fun f' g' => (List.perm_middle.trans (List.perm_middle.cons f')).trans (List.Perm.swap g' f' _)
  cases hb : f.binder with
  | none =>
      have hbinder : f.item.binder = none := hb
      rw [hbinder] at hcopy
      by_cases hmemory : memory = false
      · rw [if_pos ⟨hmemory, rfl⟩, bindFrameChains, if_neg hgnone, hb]
        exact if_pos hmemory
      · have hcell : heap.newBinder.cell heap.next = some { refcount := 1 } := Function.update_self _ _ _
        have hnew : Counted heap.newBinder ({ f with binder := some heap.next } :: (done ++ live)) :=
          hcounted.newBinder hb rfl
        obtain ⟨hadd, hcounted'⟩ := hnew.addRef hcell (show ({ g with binder := some heap.next } : Frc).binder =
          some heap.next from rfl)
        rw [if_neg fun hand => hmemory hand.1]
        refine ⟨heap.next, _, ?_, hcounted'.perm (hperm _ _), marked, ?_, fun b x hx => ?_⟩
        · rw [bindFrameChains, if_neg hgnone, hb]
          dsimp only
          rw [if_neg hmemory, hadd]
        · rw [List.map_cons, List.map_cons, (hitems heap.next).1, (hitems heap.next).2]
          exact hcopy
        · by_cases hbn : b = heap.next
          · subst hbn
            rw [Heap.set_self, Option.some.injEq] at hx
            subst hx
            constructor
            · exact fun hfalse => absurd hfalse Bool.false_ne_true
            · exact fun hmem => absurd (hlinked.marked_lt _ hmem) (Nat.lt_irrefl _)
          · rw [Heap.set_of_ne _ hbn] at hx
            have hold : heap.newBinder.cell b = heap.cell b := Function.update_of_ne hbn _ _
            exact hflags b x (hold ▸ hx)
  | some i =>
      have hbinder : f.item.binder = some i := hb
      rw [hbinder] at hcopy
      obtain ⟨x, hx⟩ := hcounted.exists_cell List.mem_cons_self hb
      obtain ⟨hadd, hcounted'⟩ := hcounted.addRef hx (show ({ g with binder := some i } : Frc).binder = some i from rfl)
      have hself : ({ f with binder := some i } : Frc) = f := by rw [← hb]
      rw [if_neg fun hand => Option.some_ne_none i hand.2]
      refine ⟨i, heap.set i (some { x with refcount := x.refcount + 1 }), ?_, ?_, marked, ?_, fun b x' hx' => ?_⟩
      · rw [bindFrameChains, if_neg hgnone, hb]
        dsimp only
        rw [hadd, hself]
      · rw [hself]
        exact hcounted'.perm (hperm _ _)
      · rw [List.map_cons, List.map_cons, (hitems i).1, (hitems i).2]
        exact hcopy
      · by_cases hbi : b = i
        · subst hbi
          rw [Heap.set_self, Option.some.injEq] at hx'
          subst hx'
          exact hflags b x hx
        · rw [Heap.set_of_ne _ hbi] at hx'
          exact hflags b x' hx'

end Tracked

/-- The frame is a NEW_CONNECTION_ID frame if its id says so, and has a binder if it is a copy. -/
structure Fine (kind : Nat → Bool) (f : Frc) : Prop where
  kind_eq : kind f.id = f.fr.isNewConnectionId
  bound : f.copy = true → f.binder ≠ none

section Reclaiming

variable {heap : Heap} {done live : List Frc} {issued acked : List Nat} {kind : Nat → Bool}

/-- Whether `rtb_reclaim_frame` asks for memory for a binder that it does not get. -/
def binderFails (isAcked : Frc → Bool) (conn : Conn) : (Nat → Memory) → List Frc → Bool
  | _, [] => false
  | memory, f :: fs =>
      if isAcked f = true ∨ conn.requireRetransmit f.fr = false then
        binderFails isAcked conn (fun i => memory (i + 1)) fs
      else
        match memory 0 with
        | .both => binderFails isAcked conn (fun i => memory (i + 1)) fs
        | .copyOnly => f.binder = none || binderFails isAcked conn (fun i => memory (i + 1)) fs
        | .nothing => false

theorem binderFails_congr {p q : Frc → Bool} (conn : Conn) (memory : Nat → Memory) {fs : List Frc}
    (h : ∀ f ∈ fs, p f = q f) : binderFails p conn memory fs = binderFails q conn memory fs := by
  induction fs generalizing memory with
  | nil => rfl
  | cons f fs ih =>
      have hrest := ih (fun i => memory (i + 1)) fun g hg => h g (List.mem_cons_of_mem f hg)
      rw [binderFails, binderFails, h f List.mem_cons_self, hrest]

theorem perm_move (xs ys zs : List Frc) (f : Frc) :
    (xs ++ (ys ++ f :: zs)).Perm (f :: (xs ++ (ys ++ zs))) :=
  (List.perm_middle.append_left xs).trans List.perm_middle

/-- What `rtb_reclaim_frame` does with the frames of a packet. It loses a copy exactly if it does not get the memory
for a binder. -/
theorem reclaimLoop_spec (conn : Conn) {memory : Nat → Memory} {fs : List Frc}
    (h : Tracked heap done (fs ++ live) issued acked) (hfine : ∀ f ∈ fs, Fine kind f) :
    ∃ r, reclaimLoop conn memory fs heap = .ok r ∧ Tracked r.heap done (r.frames ++ (r.copies ++ live)) issued acked ∧
      (∀ c ∈ r.frames ++ r.copies, Fine kind c) ∧ (∀ c ∈ r.copies, c.id ∉ acked) ∧
      (∀ c ∈ r.lost, c.copy = true ∧ c.binder = none) ∧
      (r.lost = [] ↔ binderFails (fun f => decide (f.id ∈ acked)) conn memory fs = false) := by
  induction fs generalizing heap live memory with
  | nil =>
      exact ⟨_, rfl, h, fun c hc => absurd hc List.not_mem_nil, fun c hc => absurd hc List.not_mem_nil,
        fun c hc => absurd hc List.not_mem_nil, fun _ => rfl, fun _ => rfl⟩
  | cons f fs ih =>
      have hfine' : ∀ g ∈ fs, Fine kind g := fun g hg => hfine g (List.mem_cons_of_mem f hg)
      have hf := hfine f List.mem_cons_self
      rw [reclaimLoop, h.isAcked List.mem_cons_self, binderFails]
      dsimp only
      by_cases hpass : decide (f.id ∈ acked) = true ∨ conn.requireRetransmit f.fr = false
      · rw [if_pos hpass, if_pos hpass]
        obtain ⟨r, hr, htracked, hfines, hcopies, hlost, hiff⟩ :=
          @ih heap (f :: live) (fun i => memory (i + 1)) (h.perm List.perm_middle) hfine'
        rw [hr]
        refine ⟨_, rfl, htracked.perm (perm_move _ _ _ f).symm, ?_, hcopies, hlost, hiff⟩
        exact List.forall_mem_cons.mpr ⟨hf, hfines⟩
      · rw [if_neg hpass, if_neg hpass]
        have hnot : f.id ∉ acked := fun hmem => hpass (Or.inl (decide_eq_true hmem))
        have hbind := h.bind hnot (show ({ fr := f.fr, id := f.id, copy := true } : Frc).id = f.id from rfl) rfl
        -- the frame and its copy have been bound, and the loop goes on
        have hgo : ∀ (b : Nat) (heap' : Heap),
            Tracked heap' done ({ f with binder := some b } ::
              { fr := f.fr, binder := some b, id := f.id, copy := true } :: (fs ++ live)) issued acked →
            ∃ r, reclaimLoop conn (fun i => memory (i + 1)) fs heap' = .ok r ∧
              Tracked r.heap done (({ f with binder := some b } :: r.frames) ++
                (({ fr := f.fr, binder := some b, id := f.id, copy := true } :: r.copies) ++ live)) issued acked ∧
              (∀ c ∈ ({ f with binder := some b } :: r.frames) ++
                ({ fr := f.fr, binder := some b, id := f.id, copy := true } :: r.copies), Fine kind c) ∧
              (∀ c ∈ { fr := f.fr, binder := some b, id := f.id, copy := true } :: r.copies, c.id ∉ acked) ∧
              (∀ c ∈ r.lost, c.copy = true ∧ c.binder = none) ∧
              (r.lost = [] ↔
                binderFails (fun f => decide (f.id ∈ acked)) conn (fun i => memory (i + 1)) fs = false) := by
          intro b heap' h'
          generalize hf' : ({ f with binder := some b } : Frc) = f' at h'
          generalize hg' : ({ fr := f.fr, binder := some b, id := f.id, copy := true } : Frc) = g' at h'
          have hfine₁ : Fine kind f' := by
            rw [← hf']
            exact ⟨hf.kind_eq, fun _ => Option.some_ne_none b⟩
          have hfine₂ : Fine kind g' := by
            rw [← hg']
            exact ⟨hf.kind_eq, fun _ => Option.some_ne_none b⟩
          have hmove : ∀ zs : List Frc, (zs ++ f' :: g' :: live).Perm (f' :: g' :: (zs ++ live)) :=
            fun zs => List.perm_middle.trans (List.perm_middle.cons f')
          obtain ⟨r, hr, htracked, hfines, hcopies, hlost, hiff⟩ :=
            @ih heap' (f' :: g' :: live) (fun i => memory (i + 1)) (h'.perm (hmove fs)) hfine'
          refine ⟨r, hr, htracked.perm ?_, ?_, ?_, hlost, hiff⟩
          · have hgoal := (perm_move r.frames r.copies (g' :: live) f').trans ((perm_move r.frames r.copies live g').cons f')
            exact (List.perm_middle.cons f').trans hgoal.symm
          · intro c hc
            rw [List.cons_append, List.mem_cons, List.mem_append, List.mem_cons] at hc
            obtain rfl | hc | rfl | hc := hc
            · exact hfine₁
            · exact hfines c (List.mem_append_left _ hc)
            · exact hfine₂
            · exact hfines c (List.mem_append_right _ hc)
          · refine List.forall_mem_cons.mpr ⟨?_, hcopies⟩
            rw [← hg']
            exact hnot
        cases hmemory : memory 0 with
        | nothing =>
            rw [if_pos rfl]
            refine ⟨_, rfl, h, fun c hc => ?_, fun c hc => absurd hc List.not_mem_nil,
              fun c hc => absurd hc List.not_mem_nil, fun _ => rfl, fun _ => rfl⟩
            rw [List.append_nil] at hc
            exact hfine c hc
        | both =>
            have hbound := hbind true
            rw [if_neg fun hand => absurd hand.1 Bool.false_ne_true.symm] at hbound
            obtain ⟨b, heap', heq, h'⟩ := hbound
            obtain ⟨r, hr, hrest⟩ := hgo b heap' h'
            rw [if_neg (fun hne => by cases hne), decide_eq_true rfl, heq]
            dsimp only
            rw [hr]
            exact ⟨_, rfl, hrest⟩
        | copyOnly =>
            have hbound := hbind false
            rw [if_neg (fun hne => by cases hne), decide_eq_false (fun hne => by cases hne)]
            by_cases hb : f.binder = none
            · rw [if_pos ⟨rfl, hb⟩] at hbound
              rw [hbound]
              refine ⟨_, rfl, h, fun c hc => ?_, fun c hc => absurd hc List.not_mem_nil, ?_, ?_⟩
              · rw [List.append_nil] at hc
                exact hfine c hc
              · exact List.forall_mem_singleton.mpr ⟨rfl, rfl⟩
              · rw [decide_eq_true hb, Bool.true_or]
                exact ⟨fun hnil => absurd hnil (List.cons_ne_nil _ _), fun hfalse => absurd hfalse Bool.false_ne_true.symm⟩
            · rw [if_neg fun hand => hb hand.2] at hbound
              obtain ⟨b, heap', heq, h'⟩ := hbound
              obtain ⟨r, hr, hrest⟩ := hgo b heap' h'
              rw [heq]
              dsimp only
              rw [hr, decide_eq_false hb, Bool.false_or]
              exact ⟨_, rfl, hrest⟩

end Reclaiming

section Writing

variable {heap : Heap} {done live : List Frc} {issued acked : List Nat}

/-- `conn_write_pkt` writes frames that were not acknowledged, and deletes those that it drops. -/
theorem writeLoop_spec (conn : Conn) {k : Nat} {fs : List Frc} (h : Tracked heap done (fs ++ live) issued acked) :
    ∃ written rest heap', writeLoop conn k fs heap = .ok (written, rest, heap') ∧
      Tracked heap' done (written ++ (rest ++ live)) issued acked ∧ (∀ c ∈ written, c.id ∉ acked) ∧
      ∀ c ∈ written ++ rest, c ∈ fs := by
  induction fs generalizing heap live k with
  | nil =>
      exact ⟨[], [], heap, by rw [writeLoop], h, fun c hc => absurd hc List.not_mem_nil,
        fun c hc => absurd hc List.not_mem_nil⟩
  | cons f fs ih =>
      rw [writeLoop.eq_def]
      dsimp only
      rw [h.isAcked List.mem_cons_self]
      dsimp only
      by_cases hdrop : decide (f.id ∈ acked) = true ∨ conn.sendable f.fr = false
      · rw [if_pos hdrop]
        obtain ⟨heap₁, hdel, h₁⟩ := h.del
        obtain ⟨written, rest, heap', hwrite, htracked, hnot, hsub⟩ := @ih heap₁ live k h₁
        rw [hdel]
        exact ⟨written, rest, heap', hwrite, htracked, hnot, fun c hc => List.mem_cons_of_mem f (hsub c hc)⟩
      · rw [if_neg hdrop]
        cases k with
        | zero =>
            exact ⟨[], f :: fs, heap, rfl, h, fun c hc => absurd hc List.not_mem_nil, fun c hc => hc⟩
        | succ k =>
            obtain ⟨written, rest, heap', hwrite, htracked, hnot, hsub⟩ :=
              @ih heap (f :: live) k (h.perm List.perm_middle)
            dsimp only
            rw [hwrite]
            refine ⟨f :: written, rest, heap', rfl, htracked.perm (perm_move _ _ _ f).symm, ?_, ?_⟩
            · refine List.forall_mem_cons.mpr ⟨fun hmem => ?_, hnot⟩
              exact hdrop (Or.inl (decide_eq_true hmem))
            · exact List.forall_mem_cons.mpr ⟨List.mem_cons_self, fun c hc => List.mem_cons_of_mem f (hsub c hc)⟩

end Writing

section Events

def Event.effectId : Event → Option Nat
  | .effect id => some id
  | _ => none

/-- Nothing of a frame is queued or encoded after an acknowledgement of it. -/
def Quiet : List Event → Prop
  | [] => True
  | .queued id :: log => .acked id ∉ log ∧ Quiet log
  | .encoded id :: log => .acked id ∉ log ∧ Quiet log
  | .acked _ :: log => Quiet log
  | .effect _ :: log => Quiet log

/-- The log is about the frames that were acknowledged: their effects, in order, and what came before. -/
structure Logged (log : List Event) (acked : List Nat) : Prop where
  effects : log.filterMap Event.effectId = acked
  acked_iff : ∀ id, .acked id ∈ log ↔ id ∈ acked
  quiet : Quiet log

variable {log : List Event} {acked : List Nat}

theorem Logged.again (h : Logged log acked) {id : Nat} (hid : id ∈ acked) : Logged (.acked id :: log) acked where
  effects := h.effects
  acked_iff := by
    intro id'
    rw [List.mem_cons, h.acked_iff id']
    constructor
    · rintro (heq | hmem)
      · cases heq
        exact hid
      · exact hmem
    · exact Or.inr
  quiet := h.quiet

theorem Logged.effect (h : Logged log acked) (id : Nat) : Logged (.effect id :: .acked id :: log) (id :: acked) where
  effects := congrArg (id :: ·) h.effects
  acked_iff := by
    intro id'
    rw [List.mem_cons, List.mem_cons, List.mem_cons, h.acked_iff id']
    constructor
    · rintro (heq | heq | hmem)
      · cases heq
      · cases heq
        exact Or.inl rfl
      · exact Or.inr hmem
    · rintro (rfl | hmem)
      · exact Or.inr (Or.inl rfl)
      · exact Or.inr (Or.inr hmem)
  quiet := h.quiet

/-- Frames that were not acknowledged may be queued or encoded. -/
theorem Logged.use (h : Logged log acked) {event : Nat → Event} (hevent : event = .queued ∨ event = .encoded)
    {fs : List Frc} (hfs : ∀ f ∈ fs, f.id ∉ acked) :
    Logged ((fs.map fun f => event f.id).reverse ++ log) acked := by
  induction fs generalizing log with
  | nil => exact h
  | cons f fs ih =>
      have hf : Event.acked f.id ∉ log := fun hmem => hfs f List.mem_cons_self ((h.acked_iff f.id).mp hmem)
      have hone : Logged (event f.id :: log) acked := by
        obtain rfl | rfl := hevent
        · refine ⟨h.effects, fun id => ?_, hf, h.quiet⟩
          rw [List.mem_cons, ← h.acked_iff id]
          exact ⟨fun hmem => hmem.resolve_left (fun heq => by cases heq), Or.inr⟩
        · refine ⟨h.effects, fun id => ?_, hf, h.quiet⟩
          rw [List.mem_cons, ← h.acked_iff id]
          exact ⟨fun hmem => hmem.resolve_left (fun heq => by cases heq), Or.inr⟩
      rw [List.map_cons, List.reverse_cons, List.append_assoc, List.singleton_append]
      exact ih hone fun g hg => hfs g (List.mem_cons_of_mem f hg)

end Events

section Acknowledging

variable {heap : Heap} {done live : List Frc} {issued acked : List Nat} {kind : Nat → Bool}

/-- The number of NEW_CONNECTION_ID frames that are not acknowledged yet. -/
def InFlight (kind : Nat → Bool) (numInFlight : Nat) (issued acked : List Nat) : Prop :=
  numInFlight + acked.countP kind = issued.countP kind

/-- An effect that has not been performed yet does not make the number negative. -/
theorem takeEffect_spec {numInFlight : Nat} {f : Frc} (h : InFlight kind numInFlight issued acked) (hf : Fine kind f)
    (hsub : ∀ id ∈ f.id :: acked, id ∈ issued) (hnodup : (f.id :: acked).Nodup) :
    ∃ n, takeEffect f.fr numInFlight = .ok n ∧ InFlight kind n issued (f.id :: acked) := by
  rw [InFlight] at h
  have hle : (f.id :: acked).countP kind ≤ issued.countP kind := (List.subperm_of_subset hnodup hsub).countP_le kind
  have hkind := hf.kind_eq
  cases hnew : f.fr.isNewConnectionId with
  | true =>
      rw [hnew] at hkind
      rw [List.countP_cons_of_pos hkind] at hle
      have hpos : ¬ numInFlight = 0 := by omega
      refine ⟨numInFlight - 1, ?_, ?_⟩
      · cases hfr : f.fr with
        | newConnectionId seq => exact if_neg hpos
        | _ =>
            rw [hfr] at hnew
            cases hnew
      · rw [InFlight, List.countP_cons_of_pos hkind]
        omega
  | false =>
      rw [hnew] at hkind
      refine ⟨numInFlight, ?_, ?_⟩
      · cases hfr : f.fr with
        | newConnectionId seq =>
            rw [hfr] at hnew
            cases hnew
        | _ => rfl
      · rw [InFlight, List.countP_cons_of_neg (by rw [hkind]; exact Bool.false_ne_true)]
        exact h

/-- `process_acked_pkt` performs the effect of the frames that were not acknowledged before. -/
theorem ackLoop_spec {numInFlight : Nat} {log : List Event} {fs : List Frc}
    (h : Tracked heap done (fs ++ live) issued acked) (hfine : ∀ f ∈ fs, Fine kind f)
    (hflight : InFlight kind numInFlight issued acked) (hlog : Logged log acked) :
    ∃ heap' n log' acked', ackLoop fs heap numInFlight log = .ok (heap', n, log') ∧
      Tracked heap' (fs.reverse ++ done) live issued acked' ∧ InFlight kind n issued acked' ∧ Logged log' acked' := by
  induction fs generalizing heap done acked numInFlight log with
  | nil => exact ⟨heap, numInFlight, log, acked, rfl, h, hflight, hlog⟩
  | cons f fs ih =>
      have hfine' : ∀ g ∈ fs, Fine kind g := fun g hg => hfine g (List.mem_cons_of_mem f hg)
      rw [ackLoop, h.isAcked List.mem_cons_self, List.reverse_cons, List.append_assoc, List.singleton_append]
      by_cases hacked : f.id ∈ acked
      · rw [decide_eq_true hacked]
        exact ih h.skip hfine' hflight (hlog.again hacked)
      · rw [decide_eq_false hacked]
        dsimp only
        have h' := h.setAcked hacked
        have hcons : (∀ id ∈ f.id :: acked, id ∈ issued) ∧ (f.id :: acked).Nodup := by
          obtain ⟨marked, hlinked, -⟩ := h'.linked
          exact ⟨hlinked.sub, hlinked.nodup⟩
        obtain ⟨n, heffect, hflight'⟩ := takeEffect_spec hflight (hfine f List.mem_cons_self) hcons.1 hcons.2
        rw [heffect]
        exact ih h' hfine' hflight' (hlog.effect f.id)

end Acknowledging

end Zngtcp2.FrameChain
