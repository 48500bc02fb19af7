import Zngtcp2.Lib.Binder
import Mathlib.Data.List.Flatten
import Mathlib.Data.List.Perm.Basic

namespace Zngtcp2.Control

open Lib.Binder

variable {α : Type}

/-- A packet in flight with the control frames of one kind that it carries. -/
structure Entry (α : Type) where
  frames : List (Item α)
  lostRetransmitted : Bool
  ptoReclaimed : Bool
  deriving DecidableEq, Repr

/-- The control frames of one kind: `frq` waits to be sent, `rtb` was sent. `acked` are the binders
with NGTCP2_FRAME_CHAIN_BINDER_FLAG_ACK, and `binders` is how many there have been. -/
structure Queue (α : Type) where
  frq : List (Item α)
  rtb : List (Entry α)
  acked : List Nat
  binders : Nat
  deriving DecidableEq, Repr

def Queue.new : Queue α :=
  ⟨[], [], [], 0⟩

namespace Queue

variable (q : Queue α)

/-- Puts a frame in front of `pktns->tx.frq`. -/
def push (a : α) : Queue α :=
  { q with frq := ⟨a, none⟩ :: q.frq }

/-- `conn_write_pkt` writes up to `k` frames, and drops those that were acknowledged by then. -/
def write (k : Nat) : Queue α :=
  let r := take q.acked k q.frq
  if r.1 = [] then { q with frq := r.2 } else { q with frq := r.2, rtb := ⟨r.1, false, false⟩ :: q.rtb }

/-- `process_acked_pkt`: the frames that are acknowledged for the first time. -/
def processAckedPkt (i : Nat) : List α × Queue α :=
  match q.rtb[i]? with
  | none => ([], q)
  | some e => ((ack q.acked e.frames).1, { q with rtb := q.rtb.eraseIdx i, acked := (ack q.acked e.frames).2 })

/-- `rtb_reclaim_frame` for the entry `i`, which is `e` with new flags. -/
def reclaimFrame (i : Nat) (e : Entry α) : Queue α :=
  let r := reclaim q.acked e.frames q.binders
  { q with frq := r.2.1 ++ q.frq, rtb := q.rtb.set i { e with frames := r.1 }, binders := r.2.2 }

/-- `rtb_on_pkt_lost` -/
def onPktLost (i : Nat) : Queue α :=
  match q.rtb[i]? with
  | none => q
  | some e =>
      if e.lostRetransmitted then q
      else if e.ptoReclaimed then { q with rtb := q.rtb.set i { e with lostRetransmitted := true } }
      else q.reclaimFrame i { e with lostRetransmitted := true }

/-- `ngtcp2_rtb_reclaim_on_pto` for one entry. -/
def reclaimOnPto (i : Nat) : Queue α :=
  match q.rtb[i]? with
  | none => q
  | some e => if e.lostRetransmitted || e.ptoReclaimed then q else q.reclaimFrame i { e with ptoReclaimed := true }

/-- A packet that was declared lost is forgotten. -/
def removeLostPkt (i : Nat) : Queue α :=
  match q.rtb[i]? with
  | none => q
  | some e => if e.lostRetransmitted then { q with rtb := q.rtb.eraseIdx i } else q

def items : List (Item α) :=
  q.frq ++ q.rtb.flatMap Entry.frames

/-- What was issued and acknowledged is linked to the frames that exist. -/
def Tracks (issued acked : List α) : Prop :=
  Linked q.items q.acked q.binders issued acked

variable {q} {issued acked : List α}

theorem new_tracks : Tracks (Queue.new : Queue α) [] [] :=
  ⟨List.Pairwise.nil, by simp [items, Queue.new], by simp [Queue.new], by simp [items, Queue.new], by simp [items, Queue.new],
    by simp, List.nodup_nil⟩

theorem Tracks.push (h : q.Tracks issued acked) {a : α} (ha : a ∉ issued) : (q.push a).Tracks (a :: issued) acked :=
  Linked.issue h ha

theorem Tracks.write (h : q.Tracks issued acked) (k : Nat) : (q.write k).Tracks issued acked := by
  have htake := take_sublist q.acked k q.frq
  rw [Queue.write]
  split
  · rename_i hnil
    rw [hnil, List.nil_append] at htake
    exact Linked.sublist h (htake.append (List.Sublist.refl _))
  · refine (Linked.sublist h (htake.append (List.Sublist.refl _))).perm ?_
    simp only [items, List.flatMap_cons]
    rw [← List.append_assoc]
    exact List.Perm.append_right _ List.perm_append_comm

/-- The frames with those of one entry in front. -/
theorem items_perm {i : Nat} {e : Entry α} (he : q.rtb[i]? = some e) :
    q.items.Perm (e.frames ++ (q.frq ++ (q.rtb.eraseIdx i).flatMap Entry.frames)) := by
  obtain ⟨hlt, rfl⟩ := List.getElem?_eq_some_iff.mp he
  have hperm := (List.getElem_cons_eraseIdx_perm hlt).symm.flatMap_right Entry.frames
  rw [List.flatMap_cons] at hperm
  refine (List.Perm.append_left q.frq hperm).trans ?_
  rw [← List.append_assoc, ← List.append_assoc]
  exact List.Perm.append_right _ List.perm_append_comm

theorem Tracks.processAckedPkt (h : q.Tracks issued acked) (i : Nat) :
    (q.processAckedPkt i).2.Tracks issued ((q.processAckedPkt i).1.reverse ++ acked) := by
  rw [Queue.processAckedPkt]
  split
  · exact h
  · rename_i e he
    exact Linked.ack (h.perm (items_perm he).symm)

theorem set_items_perm {i : Nat} {e e' : Entry α} (he : q.rtb[i]? = some e) :
    ((q.rtb.set i e').flatMap Entry.frames).Perm (e'.frames ++ (q.rtb.eraseIdx i).flatMap Entry.frames) := by
  obtain ⟨hlt, _⟩ := List.getElem?_eq_some_iff.mp he
  exact (List.set_perm_cons_eraseIdx hlt e').flatMap_right Entry.frames

theorem Tracks.reclaimFrame (h : q.Tracks issued acked) {i : Nat} {e e' : Entry α} (he : q.rtb[i]? = some e)
    (hframes : e'.frames = e.frames) : (q.reclaimFrame i e').Tracks issued acked := by
  have hlinked := Linked.reclaim (h.perm (items_perm he).symm)
  rw [Tracks, Queue.reclaimFrame, hframes]
  refine hlinked.perm ?_
  simp only [items]
  refine (List.Perm.append_left _ (set_items_perm he)).trans ?_
  rw [List.append_assoc]
  refine (List.Perm.append_left _ (List.perm_append_comm_assoc _ _ _)).trans ?_
  exact List.perm_append_comm_assoc _ _ _

theorem Tracks.setFlags (h : q.Tracks issued acked) {i : Nat} {e e' : Entry α} (he : q.rtb[i]? = some e)
    (hframes : e'.frames = e.frames) : Tracks { q with rtb := q.rtb.set i e' } issued acked := by
  refine Linked.perm h ?_
  refine List.Perm.trans ?_ (items_perm he).symm
  refine (List.Perm.append_left _ (set_items_perm he)).trans ?_
  rw [hframes]
  exact List.perm_append_comm_assoc _ _ _

theorem Tracks.onPktLost (h : q.Tracks issued acked) (i : Nat) : (q.onPktLost i).Tracks issued acked := by
  rw [Queue.onPktLost]
  split
  · exact h
  · rename_i e he
    split
    · exact h
    · split
      · exact h.setFlags he rfl
      · exact h.reclaimFrame he rfl

theorem Tracks.reclaimOnPto (h : q.Tracks issued acked) (i : Nat) : (q.reclaimOnPto i).Tracks issued acked := by
  rw [Queue.reclaimOnPto]
  split
  · exact h
  · rename_i e he
    split
    · exact h
    · exact h.reclaimFrame he rfl

theorem Tracks.removeLostPkt (h : q.Tracks issued acked) (i : Nat) : (q.removeLostPkt i).Tracks issued acked := by
  rw [Queue.removeLostPkt]
  split
  · exact h
  · split
    · refine Linked.sublist h ((List.Sublist.refl q.frq).append ?_)
      exact (List.eraseIdx_sublist q.rtb i).flatMap _
    · exact h

end Queue

end Zngtcp2.Control
