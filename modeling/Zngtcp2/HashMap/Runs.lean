import Zngtcp2.Lib.Run
import Zngtcp2.HashMap.Remove

namespace Zngtcp2.HashMap

open Lib.Run (run Guarded Ends)
open Lib.RobinHood (Spread distAt)

variable {α : Type}

inductive Op (α : Type)
  | insert (key : Nat) (data : α)
  | remove (key : Nat)
  | find (key : Nat)
  | clear
  | each
  | size

/-- What a call returns; the data that is visited does not come in any order. -/
inductive Answer (α : Type)
  | rv (rv : Rv)
  | data (data : Option α)
  | visited (datas : Multiset (Option α))
  | size (size : Nat)
  | done

/-- Why a run stops: memory runs out, or a function does not return. -/
inductive Halt
  | allocation
  | stop (s : Stop)
  deriving DecidableEq

/-- A call of one of the functions. `each` is given a function that notes the data. -/
def Map.call (map : Map α) : Op α → Except Stop (Answer α × Map α)
  | .insert key data => do
      let (rv, map) ← map.insert key data
      .ok (.rv rv, map)
  | .remove key => do
      let (rv, map) ← map.remove key
      .ok (.rv rv, map)
  | .find key => do
      let data ← map.find key
      .ok (.data data, map)
  | .clear => .ok (.done, map.clear)
  | .each => do
      let datas ← map.each (fun data datas => .ok (datas ++ [data])) []
      .ok (.visited datas, map)
  | .size => .ok (.size map.size, map)

/-- The map with the answers so far. -/
def step (s : Map α × List (Answer α)) (op : Op α) : Except Halt (Map α × List (Answer α)) :=
  match s.1.call op with
  | .error e => .error (.stop e)
  | .ok (.rv .nomem, _) => .error .allocation
  | .ok (answer, map) => .ok (map, s.2 ++ [answer])

/-- What a finite map answers. -/
def specStep (s : Contents α × List (Answer α)) (op : Op α) : Contents α × List (Answer α) :=
  match op with
  | .insert key data =>
      if key ∈ s.1 then (s.1, s.2 ++ [.rv .invalidArgument]) else (s.1.insert key data, s.2 ++ [.rv .ok])
  | .remove key => (s.1.erase key, s.2 ++ [.rv (if key ∈ s.1 then .ok else .invalidArgument)])
  | .find key => (s.1, s.2 ++ [.data (s.1.lookup key)])
  | .clear => (∅, s.2 ++ [.done])
  | .each => (s.1, s.2 ++ [.visited (s.1.entries.map fun e => some e.2)])
  | .size => (s.1, s.2 ++ [.size s.1.keys.card])

def specRun (ops : List (Op α)) : Contents α × List (Answer α) :=
  ops.foldl specStep (∅, [])

/-- The keys of the slots that are in use. -/
def Map.keys (map : Map α) : Finset Nat :=
  ((Finset.range (tablelen map.hashbits)).filter fun i => (map.slots i).psl ≠ 0).image fun i => (map.slots i).key

/-- When a key is inserted, no `n` slots in a row are the home of more than `n + 254` keys in the table that
receives it. -/
def Uncrowded (s : Map α × List (Answer α)) (op : Op α) : Prop :=
  match op with
  | .insert key _ => Spread (layout α s.1.seed (targetHashbits s.1)) slack (insert key s.1.keys)
  | _ => True

section Steps

variable {map : Map α} {f : Contents α}

theorem Tracks.keys_eq (h : Tracks map f) : map.keys = f.keys := by
  ext k
  rw [Map.keys, Finset.mem_image]
  constructor
  · rintro ⟨i, hi, rfl⟩
    rw [Finset.mem_filter, Finset.mem_range] at hi
    apply h.mem_of_stored ((map.slots i).key, (map.slots i).data)
    exact ⟨i, by rw [distAt, slot_of_lt hi.1]; exact hi.2, by rw [slot_of_lt hi.1]; rfl⟩
  · intro hk
    obtain ⟨d, hd⟩ := Finmap.mem_iff.mp (Finmap.mem_keys.mp hk)
    obtain ⟨i, hi, he⟩ := (h.stored (k, some d)).mpr ⟨d, rfl, hd⟩
    refine ⟨i % tablelen map.hashbits, ?_, congrArg Prod.fst he⟩
    rw [Finset.mem_filter, Finset.mem_range]
    exact ⟨Nat.mod_lt i (tablelen_pos _), hi⟩

theorem foldlM_note (es : List (Nat × Option α)) (datas : List (Option α)) :
    es.foldlM (fun datas e => (.ok (datas ++ [e.2]) : Except Stop (List (Option α)))) datas =
      .ok (datas ++ es.map Prod.snd) := by
  induction es generalizing datas with
  | nil =>
      rw [List.map_nil, List.append_nil]
      rfl
  | cons e es ih =>
      rw [List.foldlM_cons, List.map_cons]
      change es.foldlM _ (datas ++ [e.2]) = _
      rw [ih, List.append_assoc, List.singleton_append]

/-- The map and the finite map have given the same answers. -/
def Agrees (s : Map α × List (Answer α)) (t : Contents α × List (Answer α)) : Prop :=
  s.2 = t.2 ∧ Tracks s.1 t.1

/-- One call gives the answer of the finite map, unless memory runs out. -/
theorem Agrees.step_ends {s : Map α × List (Answer α)} {t : Contents α × List (Answer α)} (h : Agrees s t) {op : Op α}
    (hguard : Uncrowded s op) : Ends (· = .allocation) (fun s' => Agrees s' (specStep t op)) (step s op) := by
  obtain ⟨map, answers⟩ := s
  obtain ⟨f, answers'⟩ := t
  obtain ⟨rfl, h⟩ := h
  dsimp only at h
  cases op with
  | insert key data =>
      rw [Uncrowded, h.keys_eq] at hguard
      obtain ⟨rv, map', hinsert, hcase⟩ := h.insert_spec key data hguard
      rw [step, Map.call, hinsert]
      obtain rfl | ⟨hkey, rfl, h'⟩ | ⟨hkey, rfl, h'⟩ := hcase
      · rfl
      · rw [specStep, if_pos hkey]
        exact ⟨rfl, h'⟩
      · rw [specStep, if_neg hkey]
        exact ⟨rfl, h'⟩
  | remove key =>
      obtain ⟨map', hremove, h'⟩ := h.remove_spec key
      rw [step, Map.call, hremove, specStep]
      by_cases hkey : key ∈ f
      · rw [if_pos hkey]
        exact ⟨rfl, h'⟩
      · rw [if_neg hkey]
        exact ⟨rfl, h'⟩
  | find key =>
      rw [step, Map.call, h.find_spec key]
      exact ⟨rfl, h⟩
  | clear => exact ⟨rfl, h.clear_spec⟩
  | each =>
      have hvisited : ((map.live.map Prod.snd : List (Option α)) : Multiset (Option α)) =
          f.entries.map fun e => some e.2 := by
        rw [← Multiset.map_coe, h.live_eq, Multiset.map_map]
        rfl
      rw [step, Map.call, h.each_spec, foldlM_note, List.nil_append, specStep]
      refine ⟨?_, h⟩
      dsimp only
      rw [hvisited]
  | size =>
      refine ⟨?_, h⟩
      change answers ++ [Answer.size map.size] = answers ++ [Answer.size f.keys.card]
      rw [h.size]

theorem Agrees.run_ends {s : Map α × List (Answer α)} {t : Contents α × List (Answer α)} (h : Agrees s t)
    {ops : List (Op α)} (hguard : Guarded step Uncrowded s ops) :
    Ends (· = .allocation) (fun s' => Agrees s' (ops.foldl specStep t)) (run step s ops) := by
  induction ops generalizing s t with
  | nil => exact h
  | cons op ops ih =>
      have hends := h.step_ends hguard.1
      rw [List.foldl_cons]
      cases hstep : step s op with
      | error e =>
          rw [hstep] at hends
          rw [run, hstep]
          exact hends
      | ok s' =>
          rw [hstep] at hends
          rw [Lib.Run.run_cons_ok hstep]
          exact ih hends (hguard.2 s' hstep)

end Steps

section Refinement

theorem mapInit_agrees (seed : Nat) : Agrees (mapInit seed, []) ((∅, []) : Contents α × List (Answer α)) :=
  ⟨rfl, tracks_empty (fun _ => rfl) (fun _ => Nat.succ_pos 255) rfl (Nat.zero_le _)⟩

/-- Few keys are always spread. -/
theorem spread_of_card_le {seed hashbits : Nat} {keys : Finset Nat} (h : keys.card ≤ slack) :
    Spread (layout α seed hashbits) slack keys :=
  fun _ n _ => (Finset.card_filter_le _ _).trans (h.trans (Nat.le_add_left slack n))

end Refinement

end Zngtcp2.HashMap
