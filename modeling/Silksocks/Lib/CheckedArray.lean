import Mathlib.Data.List.Basic

/-! Arrays of a fixed size whose accesses are checked: an index outside of the array gives `none`.
A message that is stored from the start of an array on, byte by byte or with `memcpy`, is what the
array begins with. -/

namespace CheckedArray

variable {α : Type} {size : Nat}

/-- `b[i] = a`. -/
def store (b : Vector α size) (i : Int) (a : α) : Option (Vector α size) :=
  if h : 0 ≤ i ∧ i.toNat < size then some (b.set i.toNat a h.2) else none

/-- `b[i]`. -/
def load (b : Vector α size) (i : Int) : Option α := if 0 ≤ i then b[i.toNat]? else none

/-- Store values from the index `i` on. -/
def storeAll (b : Vector α size) (i : Int) : List α → Option (Vector α size)
  | [] => some b
  | a :: as => (store b i a).bind fun b => storeAll b (i + 1) as

/-- `memcpy(&b[i], src, n)`. -/
def memcpy (b : Vector α size) (i : Int) (src : List α) (n : Nat) : Option (Vector α size) :=
  if n ≤ src.length then storeAll b i (src.take n) else none

/-- The first values of an array. -/
def Begins (b : Vector α size) (as : List α) : Prop := as <+: b.toList

section Begins

variable {b : Vector α size} {as as' : List α} {a : α}

theorem begins_nil (b : Vector α size) : Begins b [] := List.nil_prefix

theorem Begins.take_toList (h : Begins b as) : b.toList.take as.length = as :=
  (List.prefix_iff_eq_take.mp h).symm

theorem Begins.length_le (h : Begins b as) : as.length ≤ size := by
  have hlen := List.IsPrefix.length_le h
  rwa [Vector.length_toList] at hlen

/-- One value behind those that the array begins with. -/
theorem Begins.store (h : Begins b as) (hroom : as.length < size) :
    ∃ b', store b as.length a = some b' ∧ Begins b' (as ++ [a]) := by
  have hin : 0 ≤ (as.length : Int) ∧ (as.length : Int).toNat < size := by omega
  refine ⟨b.set as.length a hroom, dif_pos hin, ?_⟩
  obtain ⟨rest, hrest⟩ := h
  have hlen := congrArg List.length hrest
  rw [Vector.length_toList, List.length_append] at hlen
  cases rest with
  | nil => simp at hlen; omega
  | cons c rest =>
    refine ⟨rest, ?_⟩
    rw [Vector.toList_set, ← hrest, List.set_append_right _ _ (Nat.le_refl _), Nat.sub_self]
    simp

theorem Begins.storeAll (h : Begins b as) (hroom : as.length + as'.length ≤ size) :
    ∃ b', storeAll b as.length as' = some b' ∧ Begins b' (as ++ as') := by
  induction as' generalizing b as with
  | nil => exact ⟨b, rfl, by simpa using h⟩
  | cons a as' ih =>
    rw [List.length_cons] at hroom
    obtain ⟨b1, hstore, h1⟩ := h.store (a := a) (by omega)
    obtain ⟨b2, hall, h2⟩ := ih h1 (by rw [List.length_append, List.length_singleton]; omega)
    refine ⟨b2, ?_, by simpa using h2⟩
    rw [CheckedArray.storeAll, hstore]
    simpa using hall

theorem Begins.memcpy {src : List α} {n : Nat} (h : Begins b as) (hn : n ≤ src.length)
    (hroom : as.length + n ≤ size) :
    ∃ b', memcpy b as.length src n = some b' ∧ Begins b' (as ++ src.take n) := by
  rw [CheckedArray.memcpy, if_pos hn]
  exact h.storeAll (by rw [List.length_take]; omega)

theorem storeAll_room {i : Int} {b' : Vector α size} (h : storeAll b i as = some b') :
    as = [] ∨ 0 ≤ i ∧ i.toNat + as.length ≤ size := by
  induction as generalizing b i with
  | nil => exact .inl rfl
  | cons a as ih =>
    rw [CheckedArray.storeAll, Option.bind_eq_some_iff] at h
    obtain ⟨b1, hstore, hall⟩ := h
    rw [CheckedArray.store] at hstore
    split at hstore
    · rename_i hin
      rw [List.length_cons]
      rcases ih hall with rfl | hroom
      · exact .inr ⟨hin.1, by simp; omega⟩
      · exact .inr ⟨hin.1, by omega⟩
    · cases hstore

/-- No more values are copied than the array has. -/
theorem memcpy_of_lt {src : List α} {n : Nat} {i : Int} (h : size < n) :
    CheckedArray.memcpy b i src n = none := by
  rw [Option.eq_none_iff_forall_ne_some]
  intro b' hcopy
  rw [CheckedArray.memcpy] at hcopy
  split at hcopy
  · rename_i hn
    have hlen : (src.take n).length = n := List.length_take_of_le hn
    rcases storeAll_room hcopy with hnil | hroom
    · rw [hnil, List.length_nil] at hlen
      omega
    · omega
  · cases hcopy

theorem Begins.load (h : Begins b (as ++ a :: as')) : load b as.length = some a := by
  obtain ⟨rest, hrest⟩ := h
  rw [CheckedArray.load, if_pos (by omega), Int.toNat_natCast, ← Vector.getElem?_toList, ← hrest]
  simp

end Begins

end CheckedArray
