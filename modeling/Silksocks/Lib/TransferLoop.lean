import Mathlib.Data.List.Chain

/-! Loops that move `n` elements with calls that may each move some of what is left: a call can move
nothing and be made again, or end the loop.  Such a loop names each element once, and every call
that is not repeated brings it nearer to its end. -/

namespace TransferLoop

/-- What a call came to. -/
inductive Outcome
  | retry
  | ended
  | moved (m : Nat)
  deriving DecidableEq

/-- A call for the `left` elements behind the first `ptr`, with its result. -/
structure Attempt (ρ : Type) where
  ptr : Nat
  left : Nat
  result : ρ

/-- The calls of a loop, and what it comes to, if it comes to an end. -/
structure Loop (ρ α : Type) where
  calls : List (Attempt ρ)
  result : Option α

/-- A call, and then the rest of the loop. -/
def Loop.after {ρ α : Type} (rest : Loop ρ α) (c : Attempt ρ) : Loop ρ α :=
  ⟨c :: rest.calls, rest.result⟩

@[simp] theorem Loop.calls_after {ρ α : Type} (rest : Loop ρ α) (c : Attempt ρ) :
    (rest.after c).calls = c :: rest.calls := rfl

@[simp] theorem Loop.result_after {ρ α : Type} (rest : Loop ρ α) (c : Attempt ρ) :
    (rest.after c).result = rest.result := rfl

variable {ρ : Type} {outcome : ρ → Outcome} {n ptr ptr' : Nat} {cs : List (Attempt ρ)}

/-- The calls of a loop that has moved `ptr` of `n` elements, and then moves on to `ptr'`. -/
inductive Attempts (outcome : ρ → Outcome) (n : Nat) : Nat → List (Attempt ρ) → Nat → Prop
  | nil (ptr : Nat) : Attempts outcome n ptr [] ptr
  | retry {ptr ptr' : Nat} {r : ρ} {cs : List (Attempt ρ)} (hr : outcome r = .retry) (hlt : ptr < n)
    (hcs : Attempts outcome n ptr cs ptr') : Attempts outcome n ptr (⟨ptr, n - ptr, r⟩ :: cs) ptr'
  | moved {ptr ptr' m : Nat} {r : ρ} {cs : List (Attempt ρ)} (hr : outcome r = .moved m)
    (hpos : 0 < m) (hle : ptr + m ≤ n) (hcs : Attempts outcome n (ptr + m) cs ptr') :
    Attempts outcome n ptr (⟨ptr, n - ptr, r⟩ :: cs) ptr'
  | ended {ptr : Nat} {r : ρ} (hr : outcome r = .ended) (hlt : ptr < n) :
    Attempts outcome n ptr [⟨ptr, n - ptr, r⟩] ptr

/-- How a call and the next one go together. -/
def Follows (outcome : ρ → Outcome) (c c' : Attempt ρ) : Prop :=
  match outcome c.result with
  | .retry => c'.ptr = c.ptr ∧ c'.left = c.left
  | .ended => False
  | .moved m => c'.ptr = c.ptr + m ∧ c'.left < c.left

/-- The calls that are not made again. -/
def final (outcome : ρ → Outcome) (c : Attempt ρ) : Bool := outcome c.result ≠ .retry

/-- A loop over `n` elements asks for just these, and moves on with every call but those that it
makes again. -/
structure Exact (outcome : ρ → Outcome) (n : Nat) (cs : List (Attempt ρ)) : Prop where
  range : ∀ c ∈ cs, c.ptr + c.left = n
  within : ∀ c ∈ cs, ∀ m, outcome c.result = .moved m → m ≤ c.left
  first : ∀ c ∈ cs.head?, c.ptr = 0
  follows : cs.IsChain (Follows outcome)
  bounded : cs.countP (final outcome) ≤ n

namespace Attempts

theorem le_of_le (h : Attempts outcome n ptr cs ptr') (hptr : ptr ≤ n) : ptr' ≤ n := by
  induction h with
  | nil | ended => exact hptr
  | retry _ _ _ ih => exact ih hptr
  | moved _ _ hle _ ih => exact ih hle

theorem range (h : Attempts outcome n ptr cs ptr') : ∀ c ∈ cs, c.ptr + c.left = n := by
  induction h with
  | nil => simp
  | retry hr hlt hcs ih =>
    exact List.forall_mem_cons.mpr ⟨Nat.add_sub_cancel' (Nat.le_of_lt hlt), ih⟩
  | moved hr hpos hle hcs ih =>
    exact List.forall_mem_cons.mpr
      ⟨Nat.add_sub_cancel' (Nat.le_trans (Nat.le_add_right _ _) hle), ih⟩
  | ended hr hlt => exact List.forall_mem_singleton.mpr (Nat.add_sub_cancel' (Nat.le_of_lt hlt))

theorem within (h : Attempts outcome n ptr cs ptr') :
    ∀ c ∈ cs, ∀ m, outcome c.result = .moved m → m ≤ c.left := by
  induction h with
  | nil => simp
  | retry hr hlt hcs ih =>
    refine List.forall_mem_cons.mpr ⟨fun m hm => ?_, ih⟩
    cases hr.symm.trans hm
  | moved hr hpos hle hcs ih =>
    refine List.forall_mem_cons.mpr ⟨fun m hm => ?_, ih⟩
    cases hr.symm.trans hm
    exact Nat.le_sub_of_add_le' hle
  | ended hr hlt =>
    refine List.forall_mem_singleton.mpr fun m hm => ?_
    cases hr.symm.trans hm

theorem head (h : Attempts outcome n ptr cs ptr') :
    ∀ c ∈ cs.head?, c.ptr = ptr ∧ c.left = n - ptr := by
  cases h <;> simp

theorem follows (h : Attempts outcome n ptr cs ptr') : cs.IsChain (Follows outcome) := by
  induction h with
  | nil => exact .nil
  | retry hr hlt hcs ih =>
    refine List.isChain_cons.mpr ⟨fun c hc => ?_, ih⟩
    simp only [Follows, hr]
    exact hcs.head c hc
  | moved hr hpos hle hcs ih =>
    refine List.isChain_cons.mpr ⟨fun c hc => ?_, ih⟩
    obtain ⟨hptr, hleft⟩ := hcs.head c hc
    simp only [Follows, hr]
    omega
  | ended hr hlt => exact .singleton _

theorem bounded (h : Attempts outcome n ptr cs ptr') : cs.countP (final outcome) ≤ n - ptr := by
  induction h with
  | nil => simp
  | retry hr hlt hcs ih => simpa [List.countP_cons, final, hr] using ih
  | moved hr hpos hle hcs ih =>
    rw [List.countP_cons]
    simp only [final, hr]
    simp
    omega
  | ended hr hlt =>
    rw [List.countP_cons]
    simp [final, hr]
    omega

/-- The calls of a whole loop. -/
theorem exact (h : Attempts outcome n 0 cs ptr') : Exact outcome n cs :=
  ⟨h.range, h.within, fun c hc => (h.head c hc).1, h.follows, h.bounded⟩

end Attempts

end TransferLoop
