import Mathlib.Algebra.Group.Nat.Defs
import Mathlib.Data.List.TakeWhile

/-! What the modules of the server share: C strings, `int` counters, and the two hash functions of
`cache.c`. -/

namespace Silksocks

/-- The values that `int i` takes, counting from 0, before it overflows.  A loop `i < n` over a
larger `n` is undefined in C. -/
def intSlots : Nat := 2 ^ 31

/-- The C string at the start of a buffer: the bytes before the first NUL. -/
def cstr (buf : List UInt8) : List UInt8 := buf.takeWhile (· ≠ 0)

theorem cstr_eq_self {s : List UInt8} (h : 0 ∉ s) : cstr s = s := by
  rw [cstr, List.takeWhile_eq_self_iff]
  intro c hc
  simpa using ne_of_mem_of_not_mem hc h

/-- `hash32`, Robert Jenkins' 32 bit integer hash function. -/
def hash32 (a : UInt32) : UInt32 :=
  let a := a + (0x7ed55d16 : UInt32) + (a <<< (12 : UInt32))
  let a := (a ^^^ (0xc761c23c : UInt32)) ^^^ (a >>> (19 : UInt32))
  let a := a + (0x165667b1 : UInt32) + (a <<< (5 : UInt32))
  let a := (a + (0xd3a2646c : UInt32)) ^^^ (a <<< (9 : UInt32))
  let a := a + (0xfd7046c5 : UInt32) + (a <<< (3 : UInt32))
  (a ^^^ (0xb55a4f09 : UInt32)) ^^^ (a >>> (16 : UInt32))

/-- `hashStr`, djb2 in an `unsigned long`, up to the terminating NUL. -/
def hashStr (str : List UInt8) : UInt64 :=
  (cstr str).foldl (fun hash c => (hash <<< (5 : UInt64)) + hash + c.toUInt64) 5381

end Silksocks
