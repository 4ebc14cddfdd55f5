import Mathlib.Algebra.Group.Nat.Defs
import Mathlib.Data.Option.Basic

/-! A block of bytes at an address, whose accesses are checked: one that is not within the block
gives `none`.  Words of eight bytes are stored and loaded in either byte order. -/

namespace ByteBlock

/-- The order of the bytes of a word in memory. -/
inductive ByteOrder
  | little
  | big
  deriving DecidableEq, Repr

/-- The significance of the byte at offset `j` of a word, and the offset of the byte with
significance `j`. -/
def ByteOrder.pos : ByteOrder → Nat → Nat
  | .little, j => j
  | .big, j => 7 - j

/-- Byte `j` of the word `v` in memory. -/
def byteAt (order : ByteOrder) (v j : Nat) : UInt8 := UInt8.ofNat (v / 256 ^ order.pos j)

/-- The number with the `n` bytes `f 0`, `f 1`, ..., the least significant first. -/
def ofBytes (f : Nat → UInt8) : Nat → Nat
  | 0 => 0
  | n + 1 => ofBytes f n + 256 ^ n * (f n).toNat

/-- The word with the bytes `f` in memory. -/
def wordOf (order : ByteOrder) (f : Nat → UInt8) : Nat := ofBytes (fun j => f (order.pos j)) 8

/-- The bytes at the addresses from `base` on. -/
structure Block where
  base : Nat
  size : Nat
  bytes : Nat → UInt8

namespace Block

/-- A block of zero bytes. -/
def zeroed (base size : Nat) : Block := ⟨base, size, fun _ => 0⟩

/-- The `n` bytes at `p` are in the block. -/
def Within (b : Block) (p n : Nat) : Prop := b.base ≤ p ∧ p + n ≤ b.base + b.size

instance (b : Block) (p n : Nat) : Decidable (b.Within p n) := inferInstanceAs (Decidable (_ ∧ _))

/-- Store a word at `p`. -/
def storeWord (order : ByteOrder) (b : Block) (p v : Nat) : Option Block :=
  if b.Within p 8 then
    some
      { b with
        bytes := fun q => if p ≤ q ∧ q < p + 8 then byteAt order v (q - p) else b.bytes q }
  else none

/-- Load the word at `p`. -/
def loadWord (order : ByteOrder) (b : Block) (p : Nat) : Option Nat :=
  if b.Within p 8 then some (wordOf order fun j => b.bytes (p + j)) else none

end Block

section Words

variable {order : ByteOrder} {f g : Nat → UInt8} {v j n : Nat}

theorem pos_lt (h : j < 8) : order.pos j < 8 := by
  cases order
  · exact h
  · exact Nat.lt_succ_of_le (Nat.sub_le 7 j)

theorem pos_pos (h : j < 8) : order.pos (order.pos j) = j := by
  cases order
  · rfl
  · exact Nat.sub_sub_self (Nat.le_of_lt_succ h)

@[simp] theorem byteAt_zero (order : ByteOrder) (j : Nat) : byteAt order 0 j = 0 := by
  simp [byteAt]

theorem ofBytes_congr (h : ∀ j < n, f j = g j) : ofBytes f n = ofBytes g n := by
  induction n with
  | zero => rfl
  | succ n ih => rw [ofBytes, ofBytes, ih fun j hj => h j (by omega), h n (by omega)]

theorem wordOf_congr (h : ∀ j < 8, f j = g j) : wordOf order f = wordOf order g :=
  ofBytes_congr fun _ hj => h _ (pos_lt hj)

theorem ofBytes_digits (v n : Nat) :
    ofBytes (fun j => UInt8.ofNat (v / 256 ^ j)) n = v % 256 ^ n := by
  induction n with
  | zero => rw [ofBytes, Nat.pow_zero, Nat.mod_one]
  | succ n ih =>
    have hbyte : (UInt8.ofNat (v / 256 ^ n)).toNat = v / 256 ^ n % 256 := by simp
    rw [ofBytes, ih, hbyte, Nat.pow_succ, Nat.mod_mul]

/-- The bytes of a word in memory are those of that word. -/
theorem wordOf_byteAt (h : v < 256 ^ 8) : wordOf order (byteAt order v) = v := by
  have hdigits := ofBytes_digits v 8
  rw [Nat.mod_eq_of_lt h] at hdigits
  rw [wordOf, ← hdigits]
  refine ofBytes_congr fun j hj => ?_
  rw [byteAt, pos_pos hj, hdigits]

end Words

namespace Block

variable {order : ByteOrder} {b b' : Block} {p q v : Nat}

theorem storeWord_within (order : ByteOrder) (v : Nat) (h : b.Within p 8) :
    ∃ b', b.storeWord order p v = some b' :=
  ⟨_, if_pos h⟩

theorem storeWord_base (h : b.storeWord order p v = some b') :
    b'.base = b.base ∧ b'.size = b.size := by
  rw [storeWord] at h
  split at h <;> cases h
  exact ⟨rfl, rfl⟩

theorem storeWord_bytes (h : b.storeWord order p v = some b') (q : Nat) :
    b'.bytes q = if p ≤ q ∧ q < p + 8 then byteAt order v (q - p) else b.bytes q := by
  rw [storeWord] at h
  split at h <;> cases h
  rfl

theorem loadWord_eq (h : b.Within p 8) {f : Nat → UInt8} (hbytes : ∀ j < 8, b.bytes (p + j) = f j) :
    b.loadWord order p = some (wordOf order f) := by
  rw [loadWord, if_pos h, wordOf_congr hbytes]

theorem loadWord_of_bytes (h : b.Within p 8) (hv : v < 256 ^ 8)
    (hbytes : ∀ j < 8, b.bytes (p + j) = byteAt order v j) : b.loadWord order p = some v := by
  rw [loadWord_eq h hbytes, wordOf_byteAt hv]

end Block

end ByteBlock
