import Zngtcp2.Reorder.Push

namespace Zngtcp2

open Reorder

/-- The receiving side of `ngtcp2_strm` and the flags it reads. `txDataFinAcked` is what
`ngtcp2_strm_is_all_tx_data_fin_acked` returns for the sending side. -/
structure Strm where
  streamId : Nat
  maxOffset : Nat
  unsentMaxOffset : Nat
  contOffset : Nat := 0
  lastOffset : Nat := 0
  reorder : Option Entries := none
  shutRd : Bool := false
  shutWr : Bool := false
  stopSending : Bool := false
  resetStreamRecved : Bool := false
  resetStream : Bool := false
  resetStreamAcked : Bool := false
  txDataFinAcked : Bool := false

namespace Strm

def entries (strm : Strm) : Entries :=
  strm.reorder.getD []

def rxOffset (strm : Strm) : Nat :=
  match strm.reorder with
  | some reorder => firstGapOffset reorder strm.contOffset
  | none => strm.contOffset

/-- The number of entries from which on `strm_reorder_heavily_fragmented` gives up. -/
def maxFragments : Nat := 4000

def heavilyFragmented (entries : Entries) : Bool :=
  maxFragments ≤ entries.length

structure RecvResult where
  rv : Rv
  strm : Strm
  buf : Buf
  released : List Release
  nwrite : Nat

/-- `listMem` and `entryMem` tell whether the list and the entry get their memory. -/
def recvReorderingBuf (strm : Strm) (buf : Buf) (offset : Nat) (allocatorOwned listMem entryMem : Bool) :
    RecvResult :=
  if strm.reorder = none ∧ listMem = false then ⟨.nomem, strm, buf, [], 0⟩
  else
    let r := push strm.entries buf offset strm.contOffset allocatorOwned entryMem
    let strm' := { strm with reorder := some r.entries }
    if r.rv ≠ .ok then ⟨r.rv, strm', r.buf, r.released, r.nwrite⟩
    else if heavilyFragmented r.entries then ⟨.internal, strm', r.buf, r.released, r.nwrite⟩
    else ⟨.ok, strm', r.buf, r.released, r.nwrite⟩

def updateRxOffset (strm : Strm) (offset : Nat) : Strm × List Release :=
  match strm.reorder with
  | some reorder =>
      let r := removePrefix reorder offset
      ({ strm with contOffset := offset, reorder := some r.1 }, r.2)
  | none => ({ strm with contOffset := offset }, [])

def discardReorderedData (strm : Strm) : Strm × List Release :=
  match strm.reorder with
  | some reorder => ({ strm with contOffset := strm.rxOffset, reorder := none }, Reorder.free reorder)
  | none => (strm, [])

/-- What `ngtcp2_strm_free` releases of the receiving side. -/
def free (strm : Strm) : List Release :=
  Reorder.free strm.entries

theorem rxOffset_eq (strm : Strm) : strm.rxOffset = firstGapOffset strm.entries strm.contOffset := by
  cases h : strm.reorder <;> simp [rxOffset, entries, h, firstGapOffset]

/-- The entries lie in order above the consumed prefix. -/
def RxWF (strm : Strm) : Prop :=
  WF strm.contOffset strm.entries

theorem updateRxOffset_entries (strm : Strm) (offset : Nat) :
    (strm.updateRxOffset offset).1.entries = (removePrefix strm.entries offset).1 := by
  cases h : strm.reorder <;> simp [updateRxOffset, entries, h, removePrefix]

theorem updateRxOffset_contOffset (strm : Strm) (offset : Nat) :
    (strm.updateRxOffset offset).1.contOffset = offset := by
  cases h : strm.reorder <;> simp [updateRxOffset, h]

theorem updateRxOffset_released (strm : Strm) (offset : Nat) :
    (strm.updateRxOffset offset).2 = (removePrefix strm.entries offset).2 := by
  cases h : strm.reorder <;> simp [updateRxOffset, entries, h, removePrefix]

theorem updateRxOffset_wf {strm : Strm} (h : strm.RxWF) {offset : Nat} (hle : strm.contOffset ≤ offset) :
    (strm.updateRxOffset offset).1.RxWF := by
  rw [RxWF, updateRxOffset_entries, updateRxOffset_contOffset]
  exact removePrefix_wf h hle

end Strm

end Zngtcp2
