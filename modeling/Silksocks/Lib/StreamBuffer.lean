import Mathlib.Algebra.Group.Nat.Defs
import Mathlib.Data.List.Infix

/-! A buffer between a source and a sink: memory with a pointer behind the last element that came
in and one behind the last element that went out.  It refines a queue, the elements between the two
pointers, and `Carries` says that what went out and what is still pending are together what came
in. -/

namespace StreamBuffer

/-- The memory of a buffer and the offsets of its two pointers. -/
structure Buf (α : Type) where
  mem : Nat → α
  iptr : Nat
  optr : Nat

namespace Buf

variable {α : Type}

/-- A buffer with both pointers at its start. -/
def empty (mem : Nat → α) : Buf α := ⟨mem, 0, 0⟩

/-- The elements between the two pointers. -/
def pending (b : Buf α) : List α := (List.range' b.optr (b.iptr - b.optr)).map b.mem

/-- Memory after `data` was stored from `off` on. -/
def store (mem : Nat → α) (off : Nat) (data : List α) (j : Nat) : α :=
  if j < off then mem j else (data[j - off]?).getD (mem j)

/-- Store `data` at the in pointer and move it behind. -/
def fill (b : Buf α) (data : List α) : Buf α :=
  { b with mem := store b.mem b.iptr data, iptr := b.iptr + data.length }

/-- Move the out pointer over `n` elements. -/
def drain (b : Buf α) (n : Nat) : Buf α := { b with optr := b.optr + n }

/-- Move both pointers back to the start. -/
def rewind (b : Buf α) : Buf α := { b with iptr := 0, optr := 0 }

/-- The pointers are in order and inside a buffer of `cap` elements. -/
structure Within (cap : Nat) (b : Buf α) : Prop where
  order : b.optr ≤ b.iptr
  bound : b.iptr ≤ cap

/-- What went out of `b` and what is pending in it are together what came in. -/
structure Carries (cap : Nat) (b : Buf α) (received sent : List α) : Prop where
  within : b.Within cap
  stream : sent ++ b.pending = received

variable {b : Buf α} {cap : Nat} {received sent data : List α}

@[simp] theorem pending_empty (mem : Nat → α) : (empty mem).pending = [] := rfl

@[simp] theorem pending_rewind : b.rewind.pending = [] := rfl

theorem length_pending : b.pending.length = b.iptr - b.optr := by simp [pending]

theorem pending_eq_nil (h : b.Within cap) : b.pending = [] ↔ b.optr = b.iptr := by
  have := h.order
  rw [← List.length_eq_zero_iff, length_pending]
  omega

theorem store_of_lt {mem : Nat → α} {off j : Nat} (h : j < off) : store mem off data j = mem j :=
  if_pos h

theorem map_store (mem : Nat → α) (off : Nat) (data : List α) :
    (List.range' off data.length).map (store mem off data) = data := by
  refine List.ext_getElem (by simp) fun i h1 h2 => ?_
  have hi : ¬ off + i < off := by omega
  simp [store, h2, hi]

theorem pending_fill (h : b.optr ≤ b.iptr) (data : List α) :
    (b.fill data).pending = b.pending ++ data := by
  have hlen : (b.fill data).iptr - (b.fill data).optr = b.iptr - b.optr + data.length := by
    simp only [fill]
    omega
  have hsplit : List.range' b.optr (b.iptr - b.optr + data.length) =
      List.range' b.optr (b.iptr - b.optr) ++ List.range' b.iptr data.length := by
    rw [← List.range'_append_1, show b.optr + (b.iptr - b.optr) = b.iptr by omega]
  rw [pending, hlen]
  show List.map (store b.mem b.iptr data) (List.range' b.optr _) = _
  rw [hsplit, List.map_append, map_store, pending]
  congr 1
  refine List.map_congr_left fun j hj => store_of_lt ?_
  rw [List.mem_range'_1] at hj
  omega

theorem pending_drain (n : Nat) : (b.drain n).pending = b.pending.drop n := by
  rw [pending, pending, ← List.map_drop, List.drop_range', Nat.mul_one, ← Nat.sub_add_eq]
  rfl

theorem drop_pending_eq_nil (h : b.Within cap) {n : Nat} (hn : n ≤ b.iptr - b.optr) :
    b.optr + n = b.iptr ↔ b.pending.drop n = [] := by
  have := h.order
  rw [List.drop_eq_nil_iff, length_pending]
  omega

/-- Starting over from the start of the buffer changes nothing of what is pending. -/
theorem pending_drain_or_rewind (n : Nat) :
    (if b.optr + n = b.iptr then b.rewind else b.drain n).pending = b.pending.drop n := by
  split
  · rename_i hall
    rw [pending_rewind, List.drop_eq_nil_of_le]
    rw [length_pending]
    omega
  · exact pending_drain n

namespace Carries

theorem empty (mem : Nat → α) : Carries cap (Buf.empty mem) [] [] :=
  ⟨⟨Nat.le_refl 0, Nat.zero_le cap⟩, rfl⟩

theorem fill (h : b.Carries cap received sent) (hroom : b.iptr + data.length ≤ cap) :
    (b.fill data).Carries cap (received ++ data) sent := by
  refine ⟨⟨?_, hroom⟩, ?_⟩
  · exact Nat.le_trans h.within.order (Nat.le_add_right _ _)
  · rw [pending_fill h.within.order, ← List.append_assoc, h.stream]

theorem drain (h : b.Carries cap received sent) {n : Nat} (hn : n ≤ b.pending.length) :
    (b.drain n).Carries cap received (sent ++ b.pending.take n) := by
  rw [length_pending] at hn
  have := h.within.order
  refine ⟨⟨?_, h.within.bound⟩, ?_⟩
  · show b.optr + n ≤ b.iptr
    omega
  · rw [pending_drain, List.append_assoc, List.take_append_drop, h.stream]

theorem rewind (h : b.Carries cap received sent) (hdrained : b.optr = b.iptr) :
    b.rewind.Carries cap received sent := by
  refine ⟨⟨Nat.le_refl 0, Nat.zero_le cap⟩, ?_⟩
  rw [pending_rewind, ← (pending_eq_nil h.within).mpr hdrained, h.stream]

/-- A drain that starts over from the start of the buffer once nothing is pending. -/
theorem drain_or_rewind (h : b.Carries cap received sent) {n : Nat} (hn : n ≤ b.pending.length) :
    (if b.optr + n = b.iptr then b.rewind else b.drain n).Carries cap received
      (sent ++ b.pending.take n) := by
  split
  · rename_i hall
    exact (h.drain hn).rewind hall
  · exact h.drain hn

theorem isPrefix (h : b.Carries cap received sent) : sent <+: received := ⟨b.pending, h.stream⟩

/-- All that came in has gone out if and only if the pointers have met. -/
theorem drained_iff (h : b.Carries cap received sent) : sent = received ↔ b.optr = b.iptr := by
  rw [← pending_eq_nil h.within, ← h.stream]
  simp

end Carries

/-! ### Buffers that start over -/

/-- The pointers of `b` are back at its start whenever nothing is pending. -/
structure Fresh (cap : Nat) (b : Buf α) : Prop where
  within : b.Within cap
  rewound : b.optr = b.iptr → b.iptr = 0

namespace Fresh

theorem empty (mem : Nat → α) : Fresh cap (Buf.empty mem) :=
  ⟨⟨Nat.le_refl 0, Nat.zero_le cap⟩, fun _ => rfl⟩

theorem fill (h : b.Fresh cap) (hroom : b.iptr + data.length ≤ cap) : (b.fill data).Fresh cap := by
  have horder := h.within.order
  refine ⟨⟨Nat.le_trans horder (Nat.le_add_right _ _), hroom⟩, fun hd => ?_⟩
  have hd : b.optr = b.iptr + data.length := hd
  have := h.rewound (by omega)
  show b.iptr + data.length = 0
  omega

theorem drain_or_rewind (h : b.Fresh cap) {n : Nat} (hn : n ≤ b.iptr - b.optr) :
    (if b.optr + n = b.iptr then b.rewind else b.drain n).Fresh cap := by
  have horder := h.within.order
  split
  · exact ⟨⟨Nat.le_refl 0, Nat.zero_le cap⟩, fun _ => rfl⟩
  · rename_i hsome
    refine ⟨⟨?_, h.within.bound⟩, fun hd => absurd hd hsome⟩
    show b.optr + n ≤ b.iptr
    omega

theorem room_or_pending (h : b.Fresh cap) (hcap : 0 < cap) : b.iptr < cap ∨ b.optr ≠ b.iptr := by
  by_cases hd : b.optr = b.iptr
  · exact .inl (by rw [h.rewound hd]; exact hcap)
  · exact .inr hd

end Fresh

end Buf

end StreamBuffer
