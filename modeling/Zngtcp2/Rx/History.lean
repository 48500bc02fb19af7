import Zngtcp2.Rx.Moves

namespace Zngtcp2.Rx

/-- What happened to one stream, in order. -/
def callsOf (id : Nat) (calls : List Call) : List Call :=
  calls.filter (fun c => c.streamId = id)

/-- What opens a stream; for a local stream there is no callback. -/
def opening (conn : Conn) (id : Nat) : List Call :=
  if conn.localStream id then [.insert id .ok] else [.insert id .ok, .streamOpen id]

/-- The life of a stream so far: it is in the map exactly between its opening and its closing. -/
inductive History (conn : Conn) (id : Nat) : Prop
  | unopened (hnew : id ∉ conn.opened) (hnone : conn.strms id = none) (hcalls : callsOf id conn.calls = [])
  | live (hopen : id ∈ conn.opened) (hsome : (conn.strms id).isSome = true) (cbs : List Call)
      (hcbs : ∀ c ∈ cbs, c.inner = true) (hcalls : callsOf id conn.calls = opening conn id ++ cbs)
  | closed (hopen : id ∈ conn.opened) (hnone : conn.strms id = none) (cbs : List Call)
      (hcbs : ∀ c ∈ cbs, c.inner = true)
      (hcalls : callsOf id conn.calls = opening conn id ++ cbs ++ [.streamClose id, .remove id .ok])

theorem callsOf_append (id : Nat) (calls new : List Call) :
    callsOf id (calls ++ new) = callsOf id calls ++ callsOf id new :=
  List.filter_append _ _

theorem History.opened_of_some {conn : Conn} {id : Nat} (h : History conn id) (hs : (conn.strms id).isSome = true) :
    id ∈ conn.opened := by
  cases h with
  | unopened hnew hnone => simp [hnone] at hs
  | live hopen => exact hopen
  | closed hopen => exact hopen

/-- A stream that the step is not about. -/
theorem History.other {conn conn' : Conn} {id : Nat} (h : History conn id) (hlocal : conn'.localStream id = conn.localStream id)
    (hopened : id ∈ conn'.opened ↔ id ∈ conn.opened) (hpresent : (conn'.strms id).isSome = (conn.strms id).isSome)
    (hcalls : callsOf id conn'.calls = callsOf id conn.calls) : History conn' id := by
  have hopening : opening conn' id = opening conn id := by rw [opening, opening, hlocal]
  cases h with
  | unopened hnew hnone hc =>
      refine .unopened (by rwa [hopened]) ?_ (by rw [hcalls, hc])
      rw [hnone] at hpresent
      simpa using hpresent
  | live hopen hsome cbs hcbs hc =>
      exact .live (by rwa [hopened]) (by rw [hpresent, hsome]) cbs hcbs (by rw [hcalls, hc, hopening])
  | closed hopen hnone cbs hcbs hc =>
      refine .closed (by rwa [hopened]) ?_ cbs hcbs (by rw [hcalls, hc, hopening])
      rw [hnone] at hpresent
      simpa using hpresent

/-- A callback on a stream in the map. -/
theorem History.call {conn conn' : Conn} {c : Call} (h : History conn c.streamId)
    (hlocal : conn'.localStream c.streamId = conn.localStream c.streamId) (hopened : conn'.opened = conn.opened)
    (hpresent : (conn'.strms c.streamId).isSome = (conn.strms c.streamId).isSome)
    (hid : (conn.strms c.streamId).isSome = true) (hc : c.inner = true)
    (hcalls : conn'.calls = conn.calls ++ [c]) : History conn' c.streamId := by
  have hself : callsOf c.streamId [c] = [c] := by simp [callsOf]
  have hopening : opening conn' c.streamId = opening conn c.streamId := by rw [opening, opening, hlocal]
  cases h with
  | unopened hnew hnone => simp [hnone] at hid
  | live hopen hsome cbs hcbs hcs =>
      refine .live (by rwa [hopened]) (by rw [hpresent, hsome]) (cbs ++ [c]) ?_ ?_
      · intro d hd
        rcases List.mem_append.mp hd with hd | hd
        · exact hcbs d hd
        · rw [List.mem_singleton.mp hd]
          exact hc
      · rw [hcalls, callsOf_append, hcs, hself, hopening, List.append_assoc]
  | closed hopen hnone => simp [hnone] at hid

theorem History.close {conn conn' : Conn} {id : Nat} (h : History conn id)
    (hlocal : conn'.localStream id = conn.localStream id) (hopened : conn'.opened = conn.opened)
    (hid : (conn.strms id).isSome = true) (hnone : conn'.strms id = none)
    (hcalls : conn'.calls = conn.calls ++ [.streamClose id, .remove id .ok]) : History conn' id := by
  have hself : callsOf id [.streamClose id, .remove id .ok] = [.streamClose id, .remove id .ok] := by
    simp [callsOf, Call.streamId]
  have hopening : opening conn' id = opening conn id := by rw [opening, opening, hlocal]
  cases h with
  | unopened hnew hn => simp [hn] at hid
  | live hopen hsome cbs hcbs hcs =>
      refine .closed (by rwa [hopened]) hnone cbs hcbs ?_
      rw [hcalls, callsOf_append, hcs, hself, hopening]
  | closed hopen hn => simp [hn] at hid

theorem History.open {conn conn' : Conn} {id : Nat} (h : History conn id) (hnew : id ∉ conn.opened)
    (hlocal : conn'.localStream id = conn.localStream id) (hopened : id ∈ conn'.opened)
    (hsome : (conn'.strms id).isSome = true) (hcalls : conn'.calls = conn.calls ++ opening conn id) :
    History conn' id := by
  have hself : callsOf id (opening conn id) = opening conn id := by
    unfold opening
    split <;> simp [callsOf, Call.streamId]
  cases h with
  | unopened _ hn hcs =>
      refine .live hopened hsome [] (by simp) ?_
      rw [hcalls, callsOf_append, hcs, hself, List.nil_append, List.append_nil, opening, opening, hlocal]
  | live hopen => exact absurd hopen hnew
  | closed hopen => exact absurd hopen hnew

structure ConnInv (conn : Conn) : Prop where
  keyed : Keyed conn
  history : ∀ id, History conn id
  ctl : ∀ id, conn.ctl.stream = some id → (conn.strms id).isSome = true

theorem callsOf_of_ne {id : Nat} {new : List Call} (h : ∀ c ∈ new, c.streamId ≠ id) : callsOf id new = [] :=
  List.filter_eq_nil_iff.mpr (fun c hc => by simpa using h c hc)

theorem callsOf_append_of_ne {id : Nat} (calls : List Call) {new : List Call} (h : ∀ c ∈ new, c.streamId ≠ id) :
    callsOf id (calls ++ new) = callsOf id calls := by
  rw [callsOf_append, callsOf_of_ne h, List.append_nil]

/-- All streams but one go on as before. -/
theorem ConnInv.others {conn conn' : Conn} {sid : Nat} (h : ConnInv conn) (hk : Keeps sid conn conn')
    (hopened : ∀ id, id ≠ sid → (id ∈ conn'.opened ↔ id ∈ conn.opened)) {new : List Call}
    (hcalls : conn'.calls = conn.calls ++ new) (hnew : ∀ c ∈ new, c.streamId = sid) {id : Nat} (hne : id ≠ sid) :
    History conn' id := by
  refine (h.history id).other (hk.localStream id) (hopened id hne) (by rw [hk.others id hne]) ?_
  rw [hcalls]
  exact callsOf_append_of_ne _ (fun c hc => by rw [hnew c hc]; exact Ne.symm hne)

theorem ConnInv.moves {conn conn' : Conn} {sid : Nat} (h : ConnInv conn) (hm : Moves sid conn conn') : ConnInv conn' := by
  cases hm with
  | keep hk hnext hopened hpresent hcalls hctl =>
      have hall : ∀ id, (conn'.strms id).isSome = (conn.strms id).isSome := by
        intro id
        by_cases heq : id = sid
        · rw [heq]
          exact hpresent
        · rw [hk.others id heq]
      refine ⟨hk.keyed h.keyed, fun id => ?_, fun id hid => ?_⟩
      · exact (h.history id).other (hk.localStream id) (by rw [hopened]) (hall id) (by rw [hcalls])
      · rcases hctl with hctl | hctl
        · rw [hctl] at hid
          cases hid
        · rw [hctl] at hid
          rw [hall]
          exact h.ctl id hid
  | call c hk hnext hopened hpresent hc hcid hid hcalls hctl =>
      subst hcid
      refine ⟨hk.keyed h.keyed, fun id => ?_, fun id hs => ?_⟩
      · by_cases heq : id = c.streamId
        · subst heq
          exact (h.history _).call (hk.localStream _) hopened hpresent hid hc hcalls
        · exact h.others hk (fun id _ => by rw [hopened]) hcalls (by simp) heq
      · rcases hctl with hctl | hctl
        · rw [hctl, Option.some.injEq] at hs
          rw [← hs, hpresent]
          exact hid
        · rw [hctl] at hs
          cases hs
  | close hk hnext hopened hid hnone hcalls hctl hother =>
      refine ⟨hk.keyed h.keyed, fun id => ?_, fun id hs => ?_⟩
      · by_cases heq : id = sid
        · subst heq
          exact (h.history _).close (hk.localStream _) hopened hid hnone hcalls
        · exact h.others hk (fun id _ => by rw [hopened]) hcalls (by simp [Call.streamId]) heq
      · rw [hctl] at hs
        cases hs

theorem ConnInv.opens {conn conn' : Conn} {sid : Nat} (h : ConnInv conn) (ho : Opens sid conn conn') : ConnInv conn' := by
  refine ⟨ho.keyed h.keyed, fun id => ?_, fun id hs => ?_⟩
  · by_cases heq : id = sid
    · subst heq
      refine (h.history _).open ho.fresh (ho.localStream _) (by rw [ho.opened]; exact Finset.mem_insert_self _ _)
        ho.present ?_
      rw [ho.calls, opening, ho.remote]
      rfl
    · refine h.others ho.toKeeps (fun x hx => ?_) ho.calls (by simp [Call.streamId]) heq
      rw [ho.opened, Finset.mem_insert]
      simp [hx]
  · rcases ho.ctl with hctl | hctl
    · rw [hctl, Option.some.injEq] at hs
      rw [← hs]
      exact ho.present
    · rw [hctl] at hs
      cases hs

theorem ConnInv.initLocal {conn : Conn} (h : ConnInv conn) {id : Nat} (hlocal : conn.localStream id = true)
    (hnew : id ∉ conn.opened) (next : Nat) : ConnInv { conn.initStream id with localBidiNextStreamId := next } := by
  have hnone : conn.strms id = none := by
    cases hs : conn.strms id with
    | none => rfl
    | some strm => exact absurd ((h.history id).opened_of_some (by rw [hs]; rfl)) hnew
  have hcalls : (conn.initStream id).calls = conn.calls ++ opening conn id := by
    simp [Conn.initStream, hnone, opening, hlocal]
  refine ⟨Conn.keyed_initStream h.keyed id, fun x => ?_, fun x hx => ?_⟩
  · by_cases heq : x = id
    · subst heq
      exact (h.history x).open hnew rfl (Finset.mem_insert_self x _) (Conn.initStream_isSome conn x) hcalls
    · refine (h.history x).other rfl ?_ ?_ ?_
      · change x ∈ insert id conn.opened ↔ _
        rw [Finset.mem_insert]
        simp [heq]
      · rw [Conn.initStream_of_ne conn heq]
      · change callsOf x (conn.initStream id).calls = _
        rw [hcalls]
        apply callsOf_append_of_ne
        simp [opening, hlocal, Call.streamId, Ne.symm heq]
  · have hs := h.ctl x hx
    by_cases heq : x = id
    · subst heq
      exact Conn.initStream_isSome conn x
    · rw [Conn.initStream_of_ne conn heq]
      exact hs

theorem mem_callsOf {c : Call} {calls : List Call} : c ∈ callsOf c.streamId calls ↔ c ∈ calls := by
  simp [callsOf]

theorem History.closed_of_mem {conn : Conn} {id : Nat} (h : History conn id) (hm : .streamClose id ∈ conn.calls) :
    id ∈ conn.opened ∧ conn.strms id = none := by
  have hm' : Call.streamClose id ∈ callsOf id conn.calls := mem_callsOf.mpr hm
  cases h with
  | unopened _ _ hc =>
      rw [hc] at hm'
      cases hm'
  | live _ _ cbs hcbs hc =>
      rw [hc, List.mem_append] at hm'
      rcases hm' with hm' | hm'
      · unfold opening at hm'
        split at hm' <;> simp at hm'
      · exact absurd (hcbs _ hm') (by simp [Call.inner])
  | closed hopen hnone => exact ⟨hopen, hnone⟩

theorem History.streamOpen_iff {conn : Conn} {id : Nat} (h : History conn id) (hremote : conn.localStream id = false) :
    .streamOpen id ∈ conn.calls ↔ id ∈ conn.opened := by
  have hm : Call.streamOpen id ∈ callsOf id conn.calls ↔ .streamOpen id ∈ conn.calls := mem_callsOf
  rw [← hm]
  cases h with
  | unopened hnew _ hc => simp [hc, hnew]
  | live hopen _ cbs _ hc => simp [hc, opening, hremote, hopen]
  | closed hopen _ cbs _ hc => simp [hc, opening, hremote, hopen]

theorem History.map_ok {conn : Conn} {id : Nat} (h : History conn id) {rv : Rv}
    (hm : .insert id rv ∈ conn.calls ∨ .remove id rv ∈ conn.calls) : rv = .ok := by
  have hm' : .insert id rv ∈ callsOf id conn.calls ∨ .remove id rv ∈ callsOf id conn.calls :=
    hm.imp mem_callsOf.mpr mem_callsOf.mpr
  have hopening : ∀ c ∈ opening conn id, c = .insert id .ok ∨ c = .streamOpen id := by
    unfold opening
    split <;> simp
  have hcases : ∀ c ∈ callsOf id conn.calls, c = .insert id rv ∨ c = .remove id rv → rv = .ok := by
    intro c hc hor
    have hinner : c.inner = false := by rcases hor with rfl | rfl <;> rfl
    have hopen : c ∈ opening conn id → rv = .ok := by
      intro ho
      rcases hopening c ho with rfl | rfl
      · have heq : .ok = rv := by simpa using hor
        exact heq.symm
      · simp at hor
    cases h with
    | unopened _ _ hcs =>
        rw [hcs] at hc
        cases hc
    | live _ _ cbs hcbs hcs =>
        rw [hcs, List.mem_append] at hc
        rcases hc with hc | hc
        · exact hopen hc
        · rw [hcbs c hc] at hinner
          cases hinner
    | closed _ _ cbs hcbs hcs =>
        rw [hcs, List.mem_append, List.mem_append] at hc
        rcases hc with (hc | hc) | hc
        · exact hopen hc
        · rw [hcbs c hc] at hinner
          cases hinner
        · have hc' : c = .streamClose id ∨ c = .remove id .ok := by simpa using hc
          rcases hc' with rfl | rfl
          · simp at hor
          · have heq : .ok = rv := by simpa using hor
            exact heq.symm
  rcases hm' with hm' | hm'
  · exact hcases _ hm' (Or.inl rfl)
  · exact hcases _ hm' (Or.inr rfl)

end Zngtcp2.Rx
