import Mathlib.Tactic.Ring

namespace Zngtcp2

def uint64Max : Nat :=
  2 ^ 64 - 1

@[irreducible]
def maxVarint : Nat :=
  2 ^ 62 - 1

theorem maxVarint_lt : maxVarint < 2 ^ 62 := by
  simp [maxVarint]

/-- Unsigned 64-bit subtraction. -/
def sub64 (a b : Nat) : Nat :=
  (a + 2 ^ 64 - b) % 2 ^ 64

theorem sub64_of_le {a b : Nat} (h : b ≤ a) (ha : a < 2 ^ 64) : sub64 a b = a - b := by
  unfold sub64
  omega

/-- Return codes: `ok` is 0, the others are the negative `NGTCP2_ERR_*` codes. -/
inductive Rv
  | ok
  | nomem
  | nobuf
  | internal
  | bufContract
  | invalidArgument
  | invalidState
  | frameEncoding
  | flowControl
  | finalSize
  | streamState
  | streamLimit
  | proto
  | crypto
  | cryptoBufferExceeded
  | callbackFailure
  deriving DecidableEq, Repr

/-- What stops the process: a failing `assert` or a reached `ngtcp2_unreachable`. -/
inductive Fault
  | assertion
  | unreachable
  deriving DecidableEq, Repr

/-- A buffer descriptor: the reference it holds on its owner, and the bytes between `pos` and
`last`. Advancing `pos` drops bytes at the front, lowering `last` drops them at the back. -/
structure Buf where
  owner : Nat
  bytes : List UInt8
  deriving DecidableEq, Repr

def Buf.len (buf : Buf) : Nat :=
  buf.bytes.length

def Buf.advance (buf : Buf) (n : Nat) : Buf :=
  { buf with bytes := buf.bytes.drop n }

def Buf.truncate (buf : Buf) (n : Nat) : Buf :=
  { buf with bytes := buf.bytes.take n }

end Zngtcp2

namespace Zngtcp2.Lib.Word

/-- The result of an operation on 64-bit words, where it fits one. -/
def word (v : Nat) : Option Nat :=
  if v ≤ uint64Max then some v else none

/-- The difference of two words, where it does not wrap around. -/
def diff (a b : Nat) : Option Nat :=
  if b ≤ a then some (a - b) else none

theorem word_of_le {v : Nat} (h : v ≤ uint64Max) : word v = some v :=
  if_pos h

theorem diff_of_le {a b : Nat} (h : b ≤ a) : diff a b = some (a - b) :=
  if_pos h

end Zngtcp2.Lib.Word
