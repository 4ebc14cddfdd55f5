import Mathlib.Data.Multiset.AddSub
import Mathlib.Data.Multiset.UnionInter
import Mathlib.Logic.Function.Basic

/-! Heaps of blocks, as `malloc`, `strdup` and `free` keep them.  A block that was freed is never
given out again, so that a use or a free of a freed block has no result.  `Account` is the
conservation law: the blocks in use are those that their owners know of, each one once. -/

namespace Blocks

/-- A heap: the contents of the blocks in use, and where the next block goes. -/
structure Heap (β : Type) where
  next : Nat
  block : Nat → Option β

namespace Heap

variable {β : Type}

def empty : Heap β := ⟨0, fun _ => none⟩

def malloc (h : Heap β) (b : β) : Nat × Heap β :=
  (h.next, ⟨h.next + 1, Function.update h.block h.next (some b)⟩)

def free (h : Heap β) (p : Nat) : Option (Heap β) :=
  (h.block p).map fun _ => { h with block := Function.update h.block p none }

/-- `strdup`. -/
def dup (h : Heap β) (p : Nat) : Option (Nat × Heap β) := (h.block p).map h.malloc

/-- A `strdup` of each of the blocks, in turn. -/
def dups (h : Heap β) : List Nat → Option (List Nat × Heap β)
  | [] => some ([], h)
  | p :: ps => (h.dup p).bind fun x => (x.2.dups ps).map fun y => (x.1 :: y.1, y.2)

/-- A `free` of each of the blocks, in turn. -/
def frees (h : Heap β) : List Nat → Option (Heap β)
  | [] => some h
  | p :: ps => (h.free p).bind fun h => h.frees ps

/-- The blocks `ps` hold `bs`. -/
def Reads (h : Heap β) (ps : List Nat) (bs : List β) : Prop := ps.map h.block = bs.map some

/-- The blocks `ps` are the same in both heaps. -/
def Same (ps : Multiset Nat) (h h' : Heap β) : Prop := ∀ p ∈ ps, h'.block p = h.block p

/-- The blocks in use are `ps`. -/
structure Account (h : Heap β) (ps : Multiset Nat) : Prop where
  nodup : ps.Nodup
  live : ∀ p, p ∈ ps ↔ (h.block p).isSome = true
  fresh : ∀ p ∈ ps, p < h.next

variable {h h' h'' : Heap β} {p : Nat} {b : β} {bs : List β} {ps qs : Multiset Nat} {src : List Nat}

theorem Same.refl : Same ps h h := fun _ _ => rfl

theorem Same.trans (h1 : Same ps h h') (h2 : Same ps h' h'') : Same ps h h'' :=
  fun p hp => (h2 p hp).trans (h1 p hp)

theorem Same.mono (hsame : Same ps h h') (hsub : qs ⊆ ps) : Same qs h h' :=
  fun p hp => hsame p (hsub hp)

theorem Reads.same (hr : Reads h src bs) (hsame : Same ps h h') (hsub : ∀ p ∈ src, p ∈ ps) :
    Reads h' src bs := by
  rw [Reads, ← hr]
  exact List.map_congr_left fun p hp => hsame p (hsub p hp)

theorem account_empty : Account (empty : Heap β) 0 := ⟨Multiset.nodup_zero, by simp [empty], by simp⟩

/-- A new block is none of those in use. -/
theorem Account.malloc (ha : Account h ps) (b : β) :
    Account (h.malloc b).2 (h.next ::ₘ ps) ∧ (h.malloc b).2.block h.next = some b ∧
      Same ps h (h.malloc b).2 := by
  have hnew : h.next ∉ ps := fun hmem => Nat.lt_irrefl _ (ha.fresh _ hmem)
  refine ⟨⟨Multiset.nodup_cons.mpr ⟨hnew, ha.nodup⟩, fun p => ?_, fun p hp => ?_⟩,
    Function.update_self .., fun p hp => ?_⟩
  · by_cases hp : p = h.next
    · simp [hp, Heap.malloc]
    · simpa [hp, Heap.malloc] using ha.live p
  · rcases Multiset.mem_cons.mp hp with rfl | hp
    · exact Nat.lt_succ_self _
    · exact (ha.fresh p hp).trans (Nat.lt_succ_self _)
  · exact Function.update_of_ne (ne_of_mem_of_not_mem hp hnew) ..

theorem Account.free (ha : Account h (p ::ₘ ps)) :
    ∃ h', h.free p = some h' ∧ Account h' ps ∧ Same ps h h' := by
  obtain ⟨hnew, hnodup⟩ := Multiset.nodup_cons.mp ha.nodup
  obtain ⟨b, hb⟩ := Option.isSome_iff_exists.mp ((ha.live p).mp (Multiset.mem_cons_self p ps))
  refine ⟨{ h with block := Function.update h.block p none }, ?_, ⟨hnodup, fun q => ?_, fun q hq =>
    ha.fresh q (Multiset.mem_cons_of_mem hq)⟩, fun q hq => ?_⟩
  · rw [Heap.free, hb, Option.map_some]
  · by_cases hq : q = p
    · simp [hq, hnew]
    · have := ha.live q
      simpa [hq] using this
  · exact Function.update_of_ne (ne_of_mem_of_not_mem hq hnew) ..

theorem Account.dups (ha : Account h ps) (hr : Reads h src bs) :
    ∃ qs h', h.dups src = some (qs, h') ∧ Account h' (qs + ps) ∧ Reads h' qs bs ∧
      Same ps h h' := by
  induction src generalizing h ps bs with
  | nil =>
    obtain rfl : bs = [] := by simpa [Reads] using hr
    exact ⟨[], h, rfl, by simpa using ha, rfl, .refl⟩
  | cons p src ih =>
    cases bs with
    | nil => cases hr
    | cons b bs =>
      obtain ⟨hb, hsrc⟩ : h.block p = some b ∧ Reads h src bs := by simpa [Reads] using hr
      obtain ⟨hnew, hblock, hsame⟩ := ha.malloc b
      have hlive : ∀ q ∈ src, q ∈ ps := fun q hq => (ha.live q).mpr (by
        obtain ⟨b', -, hb'⟩ := List.mem_map.mp (hsrc ▸ List.mem_map_of_mem hq)
        rw [← hb', Option.isSome_some])
      obtain ⟨qs, h', hdups, hacc, hreads, hsame'⟩ := ih hnew (hsrc.same hsame hlive)
      refine ⟨h.next :: qs, h', ?_, ?_, ?_, hsame.trans (hsame'.mono (Multiset.subset_cons ps _))⟩
      · rw [Heap.dups, Heap.dup, hb, Option.map_some, Option.bind_some, hdups]
        rfl
      · rw [← Multiset.cons_coe, Multiset.cons_add, ← Multiset.add_cons]
        exact hacc
      · rw [Reads, List.map_cons, List.map_cons, hsame' _ (Multiset.mem_cons_self _ ps), hblock,
          hreads]

theorem Account.frees {qs : List Nat} (ha : Account h (qs + ps)) :
    ∃ h', h.frees qs = some h' ∧ Account h' ps ∧ Same ps h h' := by
  induction qs generalizing h with
  | nil => exact ⟨h, rfl, by simpa using ha, .refl⟩
  | cons q qs ih =>
    rw [← Multiset.cons_coe, Multiset.cons_add] at ha
    obtain ⟨h1, hfree, hacc, hsame⟩ := ha.free
    obtain ⟨h', hfrees, hacc', hsame'⟩ := ih hacc
    refine ⟨h', ?_, hacc', (hsame.mono fun p hp => Multiset.mem_add.mpr (.inr hp)).trans hsame'⟩
    rw [Heap.frees, hfree, Option.bind_some, hfrees]

end Heap

end Blocks
