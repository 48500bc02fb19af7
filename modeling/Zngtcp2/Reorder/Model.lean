import Zngtcp2.Buf
import Zngtcp2.Lib.Segment

namespace Zngtcp2.Reorder

structure Range where
  begin : Nat
  endOff : Nat
  deriving DecidableEq, Repr

structure Entry where
  range : Range
  buf : Buf
  allocatorOwned : Bool
  deriving DecidableEq, Repr

/-- The entries of the linked list, from `head` on. -/
abbrev Entries := List Entry

/-- One call of the release callback: the descriptor and the `allocator_owned` flag. -/
abbrev Release := Buf × Bool

def Entry.release (ent : Entry) : Release :=
  (ent.buf, ent.allocatorOwned)

/-- How the loop of `ngtcp2_reorder_push` ends: at an entry that covers what is left of the data,
or at the link between `pre` and `post`, with the range and the front cut found on the way. -/
inductive Scan
  | covered (cut : Nat)
  | place (pre post : Entries) (begin endOff : Nat) (cut : Nat)
  deriving DecidableEq, Repr

def Scan.skip (ent : Entry) : Scan → Scan
  | .covered cut => .covered cut
  | .place pre post begin endOff cut => .place (ent :: pre) post begin endOff cut

def pushLoop : Entries → Nat → Nat → Nat → Scan
  | [], begin, endOff, cut => .place [] [] begin endOff cut
  | ent :: rest, begin, endOff, cut =>
      if ent.range.endOff ≤ begin then (pushLoop rest begin endOff cut).skip ent
      else if endOff ≤ ent.range.begin then .place [] (ent :: rest) begin endOff cut
      else if ent.range.begin ≤ begin then
        if endOff ≤ ent.range.endOff then .covered cut
        else (pushLoop rest ent.range.endOff endOff (cut + (ent.range.endOff - begin))).skip ent
      else .place [] (ent :: rest) begin ent.range.begin cut

structure PushResult where
  rv : Rv
  entries : Entries
  buf : Buf
  released : List Release
  nwrite : Nat
  deriving DecidableEq, Repr

/-- `mem` tells whether `reorder_entry_new` gets its memory. -/
def push (entries : Entries) (buf : Buf) (offset contOffset : Nat) (allocatorOwned mem : Bool) : PushResult :=
  let endOff := (offset + buf.len) % 2 ^ 64
  if endOff < offset then ⟨.frameEncoding, entries, buf, [], 0⟩
  else if endOff ≤ contOffset then ⟨.ok, entries, buf, [(buf, allocatorOwned)], 0⟩
  else
    let begin := max offset contOffset
    let buf := buf.advance (begin - offset)
    match pushLoop entries begin endOff 0 with
    | .covered cut =>
        let buf := buf.advance cut
        ⟨.ok, entries, buf, [(buf, allocatorOwned)], 0⟩
    | .place pre post begin endOff cut =>
        let buf := buf.advance cut
        if begin = endOff then ⟨.ok, entries, buf, [(buf, allocatorOwned)], 0⟩
        else
          let buf := buf.truncate (endOff - begin)
          if mem then ⟨.ok, pre ++ ⟨⟨begin, endOff⟩, buf, allocatorOwned⟩ :: post, buf, [], endOff - begin⟩
          else ⟨.nomem, entries, buf, [], 0⟩

def firstGapOffset : Entries → Nat → Nat
  | [], offset => offset
  | ent :: rest, offset =>
      if ent.range.endOff ≤ offset then firstGapOffset rest offset
      else if offset < ent.range.begin then offset
      else firstGapOffset rest ent.range.endOff

/-- The buffered data at `offset` with its length, `none` where the function returns 0. -/
def dataAt : Entries → Nat → Except Fault (Option (Buf × Nat))
  | [], _ => .ok none
  | ent :: rest, offset =>
      if ent.range.endOff ≤ offset then dataAt rest offset
      else if offset < ent.range.begin then .ok none
      else if offset = ent.range.begin then .ok (some (ent.buf, ent.range.endOff - offset))
      else .error .assertion

def pop : Entries → Nat → Nat → Except Fault (Entries × List Release)
  | [], _, _ => .error .unreachable
  | ent :: rest, offset, len =>
      if ent.range.endOff ≤ offset then
        match pop rest offset len with
        | .ok (rest', released) => .ok (ent :: rest', released)
        | .error f => .error f
      else if offset ≠ ent.range.begin then .error .assertion
      else if ent.range.endOff < offset + len then .error .assertion
      else if offset + len < ent.range.endOff then
        .ok ({ ent with range := ⟨ent.range.begin + len, ent.range.endOff⟩, buf := ent.buf.advance len } :: rest, [])
      else .ok (rest, [ent.release])

def removePrefix : Entries → Nat → Entries × List Release
  | [], _ => ([], [])
  | ent :: rest, offset =>
      if offset ≤ ent.range.begin then (ent :: rest, [])
      else if offset < ent.range.endOff then
        ({ ent with
            range := ⟨offset, ent.range.endOff⟩
            buf := ent.buf.advance (offset - ent.range.begin) } :: rest, [])
      else
        let r := removePrefix rest offset
        (r.1, ent.release :: r.2)

def free (entries : Entries) : List Release :=
  entries.map Entry.release

end Zngtcp2.Reorder
