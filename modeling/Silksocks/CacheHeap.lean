import Mathlib.Algebra.Order.Group.Multiset
import Mathlib.Data.List.Forall2
import Mathlib.Tactic.Abel
import Silksocks.CacheMap
import Silksocks.Lib.Blocks
import Silksocks.Lib.Lts

/-! The caches in the heap.  A slot holds the addresses of strings that `strdup` made for it, a put
frees those that it replaces, a resize copies every string and frees the old one, and a get gives
its caller copies.  The tables of `Cache.lean` are what one reads through the addresses. -/

namespace Silksocks

open OpenAddressing Blocks

namespace CacheHeap

/-- The heap of the process, as far as the strings and arrays of the caches go.  `strdup` does not
fail here. -/
abbrev Heap := Blocks.Heap (List UInt8)

/-- A cache: the address of its array, and the array, whose values are addresses of strings. -/
structure Cache (K : Type) where
  addr : Nat
  table : Table K (List Nat)

section Functions

variable {K : Type} [DecidableEq K] [OfNat K 0]

/-- `cache_initip` and `cache_initapp`. -/
def cacheInit (alloc : Nat → Bool) (h : Heap) (initsize : Nat) : Option (Heap × Cache K) :=
  if initsize < 1 then none
  else if alloc initsize then some ((h.malloc []).2, ⟨h.next, Table.zeroed initsize⟩)
  else none

/-- The strings of slot `id`. -/
def valAt (T : Table K (List Nat)) (id : Nat) : List Nat := ((T.map[id]?).map Slot.val).getD []

/-- The end of `cache_putip`, and `cache_putapp_hash`.  `src` are the addresses of the strings. -/
def store (home : K → Nat) (h : Heap) (c : Cache K) (key : K) (src : List Nat) :
    Option (Heap × Cache K) :=
  (c.table.find home key).bind fun id =>
    if c.table.keyAt id ≠ 0 then
      (h.frees (valAt c.table id)).bind fun h => (h.dups src).map fun x =>
        (x.2, { c with table := ⟨c.table.elements, c.table.map.set id ⟨key, x.1⟩⟩ })
    else
      (h.dups src).map fun x =>
        (x.2, { c with table := ⟨c.table.elements + 1, c.table.map.set id ⟨key, x.1⟩⟩ })

/-- The loop of a resize: each used slot is put into `temp`, and its strings are freed. -/
def rehash (put : Heap → Cache K → K → List Nat → Option (Heap × Cache K)) (h : Heap)
    (temp : Cache K) : List (Slot K (List Nat)) → Option (Heap × Cache K)
  | [] => some (h, temp)
  | s :: slots => if s.key = 0 then rehash put h temp slots else
      (put h temp s.key s.val).bind fun x => (x.1.frees s.val).bind fun h => rehash put h x.2 slots

/-- `cache_resizeip` and `cache_resizeapp`. -/
def cacheResize (alloc : Nat → Bool)
    (put : Heap → Cache K → K → List Nat → Option (Heap × Cache K)) (h : Heap) (c : Cache K)
    (newsize : Nat) : Option (Option (Heap × Cache K)) :=
  match cacheInit alloc h newsize with
  | none => some none
  | some (h, temp) => (rehash put h temp (c.table.map.take intSlots)).bind fun x =>
      (x.1.free c.addr).map fun h => some (h, x.2)

/-- `cache_putip` and `cache_putapp`, up to the store. -/
def cachePut (resize : Heap → Cache K → Nat → Option (Option (Heap × Cache K)))
    (store : Heap → Cache K → Option (Heap × Cache K)) (h : Heap) (c : Cache K) :
    Option (Heap × Cache K) :=
  if cacheFull c.table then
    match resize h c (c.table.size * 2) with
    | none => none
    | some none => some (h, c)
    | some (some (h, c)) => store h c
  else store h c

/-- `cache_getip` and `cache_getapp`: the copies that the caller is given. -/
def cacheGet (home : K → Nat) (h : Heap) (c : Cache K) (key : K) :
    Option (Option (List Nat) × Heap) :=
  (c.table.find home key).bind fun id =>
    if c.table.keyAt id = 0 then some (none, h)
    else (h.dups (valAt c.table id)).map fun x => (some x.1, x.2)

end Functions

/-- `cache_putip`, with the addresses of the user and the password. -/
def cachePutip (alloc : Nat → Bool) :
    (depth : Nat) → Heap → Cache UInt32 → (key : UInt32) → List Nat → Option (Heap × Cache UInt32)
  | 0, h, c, key, src => cachePut (fun _ _ _ => none) (fun h c => store ipHome h c key src) h c
  | depth + 1, h, c, key, src =>
    cachePut (cacheResize alloc (cachePutip alloc depth)) (fun h c => store ipHome h c key src) h c

/-- `cache_getip`. -/
def cacheGetip (h : Heap) (c : Cache UInt32) (key : UInt32) : Option (Option (List Nat) × Heap) :=
  cacheGet ipHome h c key

/-- `cache_putapp`, with the address of the password. -/
def cachePutapp (alloc : Nat → Bool) (h : Heap) (c : Cache UInt64) (app : List UInt8)
    (src : List Nat) : Option (Heap × Cache UInt64) :=
  cachePut (cacheResize alloc (store appHome)) (fun h c => store appHome h c (hashStr app) src) h c

/-- `cache_getapp`. -/
def cacheGetapp (h : Heap) (c : Cache UInt64) (app : List UInt8) :
    Option (Option (List Nat) × Heap) :=
  cacheGet appHome h c (hashStr app)

/-! ### What a table shows -/

section Shows

variable {K V : Type} [OfNat K 0]

/-- A slot shows the key and the value whose strings its addresses lead to. -/
def SlotShows (strs : V → List (List UInt8)) (h : Heap) (s : Slot K (List Nat)) (v : Slot K V) :
    Prop :=
  s.key = v.key ∧ (s.key ≠ 0 → h.Reads s.val (strs v.val))

structure Shows (strs : V → List (List UInt8)) (h : Heap) (T : Table K (List Nat))
    (Tv : Table K V) : Prop where
  elements : T.elements = Tv.elements
  slots : List.Forall₂ (SlotShows strs h) T.map Tv.map

variable {strs : V → List (List UInt8)} {h : Heap} {T : Table K (List Nat)} {Tv : Table K V}
  {slots : List (Slot K (List Nat))} {slotsV : List (Slot K V)}

theorem slotsShow_set (hs : List.Forall₂ (SlotShows strs h) slots slotsV)
    {s : Slot K (List Nat)} {v : Slot K V} (hslot : SlotShows strs h s v) (id : Nat) :
    List.Forall₂ (SlotShows strs h) (slots.set id s) (slotsV.set id v) := by
  induction hs generalizing id with
  | nil => exact .nil
  | cons hhead htail ih =>
    cases id with
    | zero => exact .cons hslot htail
    | succ id => exact .cons hhead (ih id)

theorem slotsShow_keys (hs : List.Forall₂ (SlotShows strs h) slots slotsV) :
    slots.map Slot.key = slotsV.map Slot.key := by
  induction hs with
  | nil => rfl
  | cons hslot _ ih => rw [List.map_cons, List.map_cons, hslot.1, ih]

theorem Shows.size (hs : Shows strs h T Tv) : T.size = Tv.size := by
  simpa [Table.size] using congrArg List.length (slotsShow_keys hs.slots)

theorem Shows.keyAt (hs : Shows strs h T Tv) (id : Nat) : T.keyAt id = Tv.keyAt id := by
  rw [Table.keyAt, Table.keyAt, ← List.getElem?_map, ← List.getElem?_map, slotsShow_keys hs.slots]

theorem Shows.full (hs : Shows strs h T Tv) : cacheFull T = cacheFull Tv := by
  rw [cacheFull, cacheFull, hs.size, hs.elements]

end Shows

/-! ### The strings of a table -/

section Strings

variable {K V : Type} [DecidableEq K] [OfNat K 0]

/-- The strings that a slot in use owns. -/
def slotStrings (s : Slot K (List Nat)) : Multiset Nat := if s.key = 0 then 0 else s.val

/-- The strings that the slots own. -/
def strings : List (Slot K (List Nat)) → Multiset Nat
  | [] => 0
  | s :: slots => slotStrings s + strings slots

@[simp] theorem slotStrings_zero {ps : List Nat} :
    slotStrings (⟨0, ps⟩ : Slot K (List Nat)) = 0 := if_pos rfl

theorem slotStrings_of_ne {s : Slot K (List Nat)} (h : s.key ≠ 0) : slotStrings s = s.val :=
  if_neg h

/-- What the slots own when one of them is stored into. -/
theorem strings_set {slots : List (Slot K (List Nat))} {id : Nat} {s : Slot K (List Nat)}
    (h : slots[id]? = some s) (s' : Slot K (List Nat)) :
    strings (slots.set id s') + slotStrings s = strings slots + slotStrings s' := by
  induction slots generalizing id with
  | nil => cases h
  | cons t slots ih =>
    cases id with
    | zero =>
      obtain rfl : t = s := Option.some.inj h
      simp only [List.set_cons_zero, strings]
      rw [add_right_comm, add_comm (slotStrings s'), add_right_comm]
    | succ id =>
      simp only [List.set_cons_succ, strings, add_assoc]
      rw [ih h]

theorem strings_append (slots slots' : List (Slot K (List Nat))) :
    strings (slots ++ slots') = strings slots + strings slots' := by
  induction slots with
  | nil => simp [strings]
  | cons s slots ih => simp [strings, ih, add_assoc]

theorem strings_replicate (n : Nat) (ps : List Nat) :
    strings (List.replicate n (⟨0, ps⟩ : Slot K (List Nat))) = 0 := by
  induction n with
  | zero => rfl
  | succ n ih => simp [List.replicate_succ, strings, ih]

variable {strs : V → List (List UInt8)} {h h' : Heap} {T : Table K (List Nat)} {Tv : Table K V}
  {slots : List (Slot K (List Nat))} {slotsV : List (Slot K V)} {ps : Multiset Nat}

theorem slotsShow_same (hs : List.Forall₂ (SlotShows strs h) slots slotsV)
    (hsame : Heap.Same ps h h') (hsub : ∀ p ∈ strings slots, p ∈ ps) :
    List.Forall₂ (SlotShows strs h') slots slotsV := by
  induction hs with
  | nil => exact .nil
  | cons hslot _ ih =>
    simp only [strings, Multiset.mem_add, or_imp, forall_and] at hsub
    refine .cons ⟨hslot.1, fun hkey => (hslot.2 hkey).same hsame fun p hp => hsub.1 p ?_⟩
      (ih hsub.2)
    rwa [slotStrings_of_ne hkey]

/-- A probe looks at the keys only. -/
theorem Shows.find (hs : Shows strs h T Tv) (home : K → Nat) (key : K) :
    T.find home key = Tv.find home key := by
  have hstops : T.stops key = Tv.stops key := funext fun id => by
    rw [Table.stops, Table.stops, hs.keyAt]
  rw [Table.find, Table.find, hstops, hs.size]

end Strings

/-! ### What the functions do -/

section Specs

open Heap

variable {K V : Type} [DecidableEq K] [OfNat K 0] {strs : V → List (List UInt8)} {home : K → Nat}
  {h : Heap} {c : Cache K} {tv tv' : Table K V} {key : K} {val : V} {src : List Nat}
  {rest : Multiset Nat}

/-- A store into an empty slot. -/
theorem store_empty (key : K) {id : Nat} {s : Slot K (List Nat)} (hs : Shows strs h c.table tv)
    (ha : Account h (strings c.table.map + rest)) (hr : h.Reads src (strs val))
    (hget : c.table.map[id]? = some s) (h0 : s.key = 0) :
    ∃ qs h' lost, h.dups src = some (qs, h') ∧
      List.Forall₂ (SlotShows strs h') (c.table.map.set id ⟨key, qs⟩) (tv.map.set id ⟨key, val⟩) ∧
      Account h' (strings (c.table.map.set id ⟨key, qs⟩) + (lost + rest)) ∧ Same rest h h' ∧
      (key ≠ 0 → lost = 0) := by
  obtain ⟨qs, h', hdups, hacc, hreads, hsame⟩ := ha.dups hr
  have hset := strings_set hget ⟨key, qs⟩
  rw [slotStrings, if_pos h0, add_zero] at hset
  refine ⟨qs, h', if key = 0 then (qs : Multiset Nat) else 0, hdups,
    slotsShow_set (slotsShow_same hs.slots hsame fun p hp => Multiset.mem_add.mpr (.inl hp))
      ⟨rfl, fun _ => hreads⟩ id, ?_,
    hsame.mono fun p hp => Multiset.mem_add.mpr (.inr hp), fun hkey => if_neg hkey⟩
  have heq : strings (c.table.map.set id ⟨key, qs⟩) +
      ((if key = 0 then (qs : Multiset Nat) else 0) + rest) = qs + (strings c.table.map + rest) := by
    rw [hset, slotStrings]
    split
    · rw [add_zero, add_left_comm]
    · rw [zero_add, add_comm (strings _), add_assoc]
  rw [heq]
  exact hacc

/-- A store into a slot that holds the key. -/
theorem store_used {id : Nat} {s : Slot K (List Nat)} (hs : Shows strs h c.table tv)
    (ha : Account h (strings c.table.map + rest)) (hsrc : ∀ p ∈ src, p ∈ rest)
    (hr : h.Reads src (strs val)) (hget : c.table.map[id]? = some s) (h0 : s.key ≠ 0)
    (hkey : key ≠ 0) :
    ∃ h1 qs h', h.frees s.val = some h1 ∧ h1.dups src = some (qs, h') ∧
      List.Forall₂ (SlotShows strs h') (c.table.map.set id ⟨key, qs⟩) (tv.map.set id ⟨key, val⟩) ∧
      Account h' (strings (c.table.map.set id ⟨key, qs⟩) + rest) ∧ Same rest h h' := by
  -- the slots without the one that is stored into
  obtain ⟨others, hothers⟩ : ∃ others, others = strings (c.table.map.set id ⟨0, []⟩) := ⟨_, rfl⟩
  have hclear := strings_set hget ⟨0, []⟩
  rw [← hothers, slotStrings_of_ne h0, slotStrings_zero, add_zero] at hclear
  rw [← hclear, add_comm others, add_assoc] at ha
  obtain ⟨h1, hfrees, hacc, hsame⟩ := ha.frees
  have hr1 := hr.same hsame fun p hp => Multiset.mem_add.mpr (.inr (hsrc p hp))
  obtain ⟨qs, h', hdups, hacc', hreads, hsame'⟩ := hacc.dups hr1
  have hkept : List.Forall₂ (SlotShows strs h') (c.table.map.set id ⟨0, []⟩)
      (tv.map.set id ⟨0, val⟩) := by
    refine slotsShow_same (slotsShow_set hs.slots ⟨rfl, fun hno => absurd rfl hno⟩ id)
      (hsame.trans hsame') fun p hp => ?_
    rw [← hothers] at hp
    exact Multiset.mem_add.mpr (.inl hp)
  have hshow := slotsShow_set hkept (s := ⟨key, qs⟩) (v := ⟨key, val⟩) ⟨rfl, fun _ => hreads⟩ id
  rw [List.set_set, List.set_set] at hshow
  refine ⟨h1, qs, h', hfrees, hdups, hshow, ?_, (hsame.trans hsame').mono fun p hp =>
    Multiset.mem_add.mpr (.inr hp)⟩
  have hset := strings_set hget ⟨key, qs⟩
  rw [slotStrings_of_ne h0, slotStrings_of_ne hkey, ← hclear, add_right_comm] at hset
  rw [add_right_cancel hset, add_comm others, add_assoc]
  exact hacc'

/-- A store inserts.  What it stores under the key 0 is lost. -/
theorem store_spec (hs : Shows strs h c.table tv) (ha : Account h (strings c.table.map + rest))
    (hsrc : ∀ p ∈ src, p ∈ rest) (hr : h.Reads src (strs val)) (hSize : 0 < tv.size)
    (hi : tv.insert home key val = some tv') :
    ∃ h' T lost, store home h c key src = some (h', ⟨c.addr, T⟩) ∧ Shows strs h' T tv' ∧
      Account h' (strings T.map + (lost + rest)) ∧ Same rest h h' ∧ (key ≠ 0 → lost = 0) := by
  obtain ⟨id, n, hid, hstop, rfl, rfl⟩ := Table.insert_cases hi
  obtain ⟨s, hget⟩ := Table.getElem?_of_lt (T := c.table) (hs.size ▸ Table.find_lt hSize hid)
  have hkeyAt : tv.keyAt id = s.key := (hs.keyAt id).symm.trans (Table.keyAt_eq hget)
  rw [hkeyAt] at hstop
  rw [store, hs.find, hid, Option.bind_some, hs.keyAt, hkeyAt]
  by_cases h0 : s.key = 0
  · obtain ⟨qs, h', lost, hdups, hshow, hacc, hsame, hlost⟩ := store_empty key hs ha hr hget h0
    refine ⟨h', ⟨c.table.elements + 1, c.table.map.set id ⟨key, qs⟩⟩, lost, ?_, ⟨?_, hshow⟩, hacc,
      hsame, hlost⟩
    · rw [if_neg (not_not.mpr h0), hdups, Option.map_some]
    · rw [if_pos h0, hs.elements]
  · have hkey : key ≠ 0 := hstop.resolve_left h0 ▸ h0
    obtain ⟨h1, qs, h', hfrees, hdups, hshow, hacc, hsame⟩ :=
      store_used hs ha hsrc hr hget h0 hkey
    refine ⟨h', ⟨c.table.elements, c.table.map.set id ⟨key, qs⟩⟩, 0, ?_, ⟨?_, hshow⟩,
      by rwa [zero_add], hsame, fun _ => rfl⟩
    · rw [if_pos h0, valAt, hget, Option.map_some, Option.getD_some, hfrees, Option.bind_some, hdups,
        Option.map_some]
    · rw [if_neg h0, hs.elements]

variable {alloc : Nat → Bool} {put : Heap → Cache K → K → List Nat → Option (Heap × Cache K)}
  (hput : ∀ h c key src, cacheFull c.table = false → put h c key src = store home h c key src)

include hput

/-- The loop of a resize moves the strings of the slots into the new table. -/
theorem rehash_spec {t : Cache K} {slots : List (Slot K (List Nat))} {slotsV : List (Slot K V)}
    (hs : Shows strs h t.table tv) (hslots : List.Forall₂ (SlotShows strs h) slots slotsV)
    (ha : Account h (strings t.table.map + (strings slots + rest))) (hSize : 0 < tv.size)
    (hroom : tv.elements + Table.occupied slotsV ≤ tv.size / 2)
    (hre : Table.rehash (Table.insert home) tv slotsV = some tv') :
    ∃ h' T, rehash put h t slots = some (h', ⟨t.addr, T⟩) ∧ Shows strs h' T tv' ∧
      Account h' (strings T.map + rest) ∧ Same rest h h' := by
  induction slots generalizing h t tv slotsV with
  | nil =>
    cases hslots
    cases hre
    exact ⟨h, t.table, rfl, hs, by simpa [strings] using ha, .refl⟩
  | cons s slots ih =>
    obtain ⟨v, slotsV, hslot, hrest, rfl⟩ := List.forall₂_cons_left_iff.mp hslots
    rw [Table.occupied_cons, ← hslot.1] at hroom
    rw [Table.rehash, ← hslot.1] at hre
    rw [rehash]
    by_cases h0 : s.key = 0
    · rw [if_pos h0] at hroom hre ⊢
      rw [strings, slotStrings, if_pos h0, zero_add] at ha
      exact ih hs hrest ha hSize hroom hre
    · rw [if_neg h0] at hroom hre ⊢
      obtain ⟨tv1, hi, hre⟩ := Option.bind_eq_some_iff.mp hre
      rw [strings, slotStrings_of_ne h0, add_assoc] at ha
      have hfull : cacheFull t.table = false := by
        rw [hs.full, cacheFull, decide_eq_false_iff_not]
        omega
      obtain ⟨h1, T1, lost, hstore, hs1, ha1, hsame1, hlost⟩ := store_spec hs ha
        (fun p hp => Multiset.mem_add.mpr (.inl hp)) (hslot.2 h0) hSize hi
      rw [hlost h0, zero_add, add_left_comm] at ha1
      obtain ⟨h2, hfrees, ha2, hsame2⟩ := ha1.frees
      have hsame : Same (strings slots + rest) h h2 :=
        (hsame1.mono fun p hp => Multiset.mem_add.mpr (.inr hp)).trans
          (hsame2.mono fun p hp => Multiset.mem_add.mpr (.inr hp))
      have hgrow := Table.insert_elements hi
      have hsize := Table.insert_size hi
      have hs2 : Shows strs h2 T1 tv1 := ⟨hs1.elements, slotsShow_same hs1.slots hsame2
        fun p hp => Multiset.mem_add.mpr (.inl hp)⟩
      obtain ⟨h', T, hrehash, hs', ha', hsame'⟩ := ih (t := ⟨t.addr, T1⟩) hs2
        (slotsShow_same hrest hsame fun p hp => Multiset.mem_add.mpr (.inl hp)) ha2 (by omega)
        (by omega) hre
      refine ⟨h', T, ?_, hs', ha', (hsame.mono fun p hp => Multiset.mem_add.mpr (.inr hp)).trans
        hsame'⟩
      rw [hput _ _ _ _ hfull, hstore, Option.bind_some, hfrees, Option.bind_some, hrehash]

omit hput [DecidableEq K] in
theorem shows_zeroed [Inhabited V] (n : Nat) :
    Shows strs h (Table.zeroed n : Table K (List Nat)) (Table.zeroed n : Table K V) := by
  refine ⟨rfl, ?_⟩
  simp only [Table.zeroed]
  induction n with
  | zero => exact .nil
  | succ n ih => exact .cons ⟨rfl, fun hno => absurd rfl hno⟩ ih

/-- A resize moves the strings of the slots that it reaches, and frees the old array. -/
theorem cacheResize_spec [Inhabited V] (hc : CacheInv home tv) (hs : Shows strs h c.table tv)
    (ha : Account h (strings c.table.map + (c.addr ::ₘ rest))) (halloc : alloc (tv.size * 2) = true)
    (hre : Silksocks.cacheResize alloc (Table.insert home) tv (tv.size * 2) = some (some tv')) :
    ∃ h' c', cacheResize alloc put h c (c.table.size * 2) = some (some (h', c')) ∧
      Shows strs h' c'.table tv' ∧ Account h' (strings c'.table.map +
        (c'.addr ::ₘ (strings (c.table.map.drop intSlots) + rest))) ∧ Same rest h h' := by
  have hSize := hc.size
  have hRoom := hc.room
  have hTake := occupied_take intSlots tv.map
  rw [Silksocks.cacheResize, Silksocks.cacheInit, if_neg (by omega), if_pos halloc] at hre
  obtain ⟨tv1, hre', heq⟩ := Option.map_eq_some_iff.mp hre
  obtain rfl : tv1 = tv' := Option.some.inj heq
  obtain ⟨hnew, -, hsame⟩ := ha.malloc []
  have hslots := slotsShow_same hs.slots hsame fun p hp => Multiset.mem_add.mpr (.inl hp)
  have hsplit : strings c.table.map =
      strings (c.table.map.take intSlots) + strings (c.table.map.drop intSlots) := by
    rw [← strings_append, List.take_append_drop]
  have ha1 : Account (h.malloc []).2 (strings (Table.zeroed (c.table.size * 2) : Table K _).map +
      (strings (c.table.map.take intSlots) +
        (c.addr ::ₘ h.next ::ₘ (strings (c.table.map.drop intSlots) + rest)))) := by
    have heq : h.next ::ₘ (strings c.table.map + (c.addr ::ₘ rest)) =
        strings (c.table.map.take intSlots) +
          (c.addr ::ₘ h.next ::ₘ (strings (c.table.map.drop intSlots) + rest)) := by
      rw [hsplit]
      simp only [← Multiset.singleton_add]
      abel
    rw [Table.zeroed, strings_replicate, zero_add, ← heq]
    exact hnew
  rw [← hs.size] at hre'
  obtain ⟨h2, T, hrehash, hs2, ha2, hsame2⟩ := rehash_spec hput (t := ⟨h.next, Table.zeroed _⟩)
    (shows_zeroed _) (List.forall₂_take intSlots hslots) ha1 (by simp; have := hs.size; omega)
    (by simp; have := hs.size; omega) hre'
  have hout : strings T.map + (c.addr ::ₘ h.next ::ₘ (strings (c.table.map.drop intSlots) + rest)) =
      c.addr ::ₘ (strings T.map + (h.next ::ₘ (strings (c.table.map.drop intSlots) + rest))) := by
    simp only [← Multiset.singleton_add]
    abel
  rw [hout] at ha2
  obtain ⟨h', hfree, ha', hsame'⟩ := ha2.free
  refine ⟨h', ⟨h.next, T⟩, ?_, ⟨hs2.elements, slotsShow_same hs2.slots hsame'
    fun p hp => Multiset.mem_add.mpr (.inl hp)⟩, ha', ?_⟩
  · rw [cacheResize, cacheInit, if_neg (by have := hs.size; omega), if_pos (hs.size ▸ halloc)]
    dsimp only
    rw [hrehash, Option.bind_some, hfree, Option.map_some]
  · have hin : ∀ p ∈ rest, p ∈ h.next ::ₘ (strings (c.table.map.drop intSlots) + rest) :=
      fun p hp => Multiset.mem_cons_of_mem (Multiset.mem_add.mpr (.inr hp))
    refine ((hsame.mono fun p hp => ?_).trans (hsame2.mono fun p hp => ?_)).trans
      (hsame'.mono fun p hp => Multiset.mem_add.mpr (.inr (hin p hp)))
    · exact Multiset.mem_add.mpr (.inr (Multiset.mem_cons_of_mem hp))
    · exact Multiset.mem_cons_of_mem (hin p hp)

/-- A put does on the heap what it does on the values.  Nothing else is lost than what is stored under
the key 0, and what a resize does not reach. -/
theorem cachePut_spec [Inhabited V] (hc : CacheInv home tv) (hs : Shows strs h c.table tv)
    (ha : Account h (strings c.table.map + (c.addr ::ₘ rest))) (hsrc : ∀ p ∈ src, p ∈ rest)
    (hr : h.Reads src (strs val)) :
    ∃ tv' h' c' lost, cachePut (cacheResize alloc put) (fun h c => store home h c key src) h c =
        some (h', c') ∧
      Silksocks.cachePut (Silksocks.cacheResize alloc (Table.insert home))
        (fun c => c.insert home key val) tv = some tv' ∧
      Shows strs h' c'.table tv' ∧
      Account h' (strings c'.table.map + (c'.addr ::ₘ (lost + rest))) ∧ Same rest h h' ∧
      (key ≠ 0 → c.table.size ≤ intSlots → lost = 0) := by
  have hmove (addr : Nat) (lost rest : Multiset Nat) :
      lost + (addr ::ₘ rest) = addr ::ₘ (lost + rest) := Multiset.add_cons addr lost rest
  have hin (addr : Nat) (lost : Multiset Nat) : ∀ p ∈ rest, p ∈ addr ::ₘ (lost + rest) :=
    fun p hp => Multiset.mem_cons_of_mem (Multiset.mem_add.mpr (.inr hp))
  rw [cachePut, Silksocks.cachePut, hs.full]
  cases hfull : cacheFull tv with
  | false =>
    obtain ⟨tv', hi⟩ := Table.insert_total home hc.room key val
    obtain ⟨h', T, lost, hstore, hs', ha', hsame, hlost⟩ := store_spec hs ha
      (fun p hp => Multiset.mem_cons_of_mem (hsrc p hp)) hr hc.size hi
    rw [hmove] at ha'
    exact ⟨tv', h', _, lost, hstore, hi, hs', ha', hsame.mono fun p => Multiset.mem_cons_of_mem,
      fun hkey _ => hlost hkey⟩
  | true =>
    rw [if_pos rfl, if_pos rfl]
    rcases Silksocks.cacheResize_spec hc alloc with ⟨halloc, hre⟩ | ⟨tv1, halloc, hre, h1⟩
    · refine ⟨tv, h, c, 0, ?_, by rw [hre], hs, by rwa [zero_add], .refl, fun _ _ => rfl⟩
      rw [cacheResize, cacheInit, hs.size, halloc]
      split <;> simp_all
    · obtain ⟨h2, c2, hresize, hs2, ha2, hsame2⟩ := cacheResize_spec hput hc hs ha halloc hre
      have hc1 := h1.inv hc
      obtain ⟨tv', hi⟩ := Table.insert_total home hc1.room key val
      obtain ⟨h', T, lost, hstore, hs', ha', hsame, hlost⟩ := store_spec hs2 ha2
        (fun p hp => hin _ _ p (hsrc p hp)) (hr.same hsame2 hsrc) hc1.size hi
      rw [hmove, ← add_assoc] at ha'
      refine ⟨tv', h', ⟨c2.addr, T⟩, lost + strings (c.table.map.drop intSlots), ?_,
        by rw [hre]; exact hi, hs', ha', hsame2.trans (hsame.mono fun p hp => hin _ _ p hp),
        fun hkey hbound => ?_⟩
      · rw [hresize]
        exact hstore
      · rw [hlost hkey, List.drop_of_length_le hbound]
        rfl

omit hput in
/-- A get copies the strings that it finds. -/
theorem cacheGet_spec (hs : Shows strs h c.table tv) (ha : Account h (strings c.table.map + rest))
    (hSize : 0 < tv.size) {r : Option V} (hget : tv.get home key = some r) :
    ∃ r' h', cacheGet home h c key = some (r', h') ∧ r'.isSome = r.isSome ∧
      Account h' (((r'.getD [] : List Nat) : Multiset Nat) + (strings c.table.map + rest)) ∧
      Same (strings c.table.map + rest) h h' ∧ ∀ v ∈ r, h'.Reads (r'.getD []) (strs v) := by
  obtain ⟨id, hid, rfl⟩ := Option.map_eq_some_iff.mp hget
  have hlt := Table.find_lt hSize hid
  obtain ⟨v, hv⟩ := Table.getElem?_of_lt hlt
  obtain ⟨s, hslot⟩ := Table.getElem?_of_lt (T := c.table) (hs.size ▸ hlt)
  have hshow : SlotShows strs h s v := by
    have h1 := List.getElem?_eq_some_iff.mp hslot
    have h2 := List.getElem?_eq_some_iff.mp hv
    have := (List.forall₂_iff_get.mp hs.slots).2 id h1.1 h2.1
    simpa [h1.2, h2.2] using this
  rw [cacheGet, hs.find, hid, Option.bind_some, hs.keyAt, Table.keyAt_eq hv]
  by_cases h0 : v.key = 0
  · rw [if_pos h0, if_pos h0]
    exact ⟨none, h, rfl, rfl, by simpa using ha, .refl, nofun⟩
  · obtain ⟨qs, h', hdups, hacc, hreads, hsame⟩ := ha.dups (hshow.2 (hshow.1 ▸ h0))
    refine ⟨some qs, h', ?_, ?_, hacc, hsame, fun v' hv' => ?_⟩
    · rw [if_neg h0, valAt, hslot, Option.map_some, Option.getD_some, hdups, Option.map_some]
    · rw [if_neg h0, hv]
      rfl
    · rw [if_neg h0, hv] at hv'
      cases hv'
      exact hreads

end Specs

/-! ### Runs -/

/-- A cache and its callers, who hold the strings `held`. -/
structure State (K : Type) where
  heap : Heap
  cache : Cache K
  held : Multiset Nat

/-- The calls.  A put is made while `alloc` tells which arrays can be allocated. -/
inductive Act (A V : Type)
  | strdup (str : List UInt8)
  | free
  | put (alloc : Nat → Bool) (a : A) (val : V)
  | get (a : A)

section Runs

open Heap

variable {K V A : Type} [DecidableEq K] [OfNat K 0]

/-- The callers make strings and free their own, and call the functions of the cache with strings
that they hold.  They hold what a get gives them. -/
inductive Step (strs : V → List (List UInt8))
    (put : (Nat → Bool) → Heap → Cache K → A → List Nat → Heap × Cache K → Prop)
    (get : Heap → Cache K → A → Option (Option (List Nat) × Heap)) :
    State K → Act A V → State K → Prop
  | strdup {h : Heap} {c : Cache K} {held : Multiset Nat} (str : List UInt8) :
    Step strs put get ⟨h, c, held⟩ (.strdup str) ⟨(h.malloc str).2, c, h.next ::ₘ held⟩
  | free {h h' : Heap} {c : Cache K} {p : Nat} {held : Multiset Nat} (hfree : h.free p = some h') :
    Step strs put get ⟨h, c, p ::ₘ held⟩ .free ⟨h', c, held⟩
  | put {alloc : Nat → Bool} {h h' : Heap} {c c' : Cache K} {held : Multiset Nat} {a : A} {val : V}
    {src : List Nat} (hsrc : ∀ p ∈ src, p ∈ held) (hr : h.Reads src (strs val))
    (hput : put alloc h c a src (h', c')) :
    Step strs put get ⟨h, c, held⟩ (.put alloc a val) ⟨h', c', held⟩
  | get {h h' : Heap} {c : Cache K} {held : Multiset Nat} {a : A} {r : Option (List Nat)}
    (hget : get h c a = some (r, h')) :
    Step strs put get ⟨h, c, held⟩ (.get a) ⟨h', c, ((r.getD [] : List Nat) : Multiset Nat) + held⟩

/-- What the calls do on the values: a put is the one of `Cache.lean`, and nothing else changes the
table. -/
inductive ValueStep (vput : (Nat → Bool) → Table K V → A → V → Table K V → Prop) :
    Table K V → Act A V → Table K V → Prop
  | strdup {tv : Table K V} (str : List UInt8) : ValueStep vput tv (.strdup str) tv
  | free {tv : Table K V} : ValueStep vput tv .free tv
  | put {tv tv' : Table K V} {alloc : Nat → Bool} {a : A} {val : V}
    (hput : vput alloc tv a val tv') : ValueStep vput tv (.put alloc a val) tv'
  | get {tv : Table K V} (a : A) : ValueStep vput tv (.get a) tv

/-- The invariant of a cache that shows `tv`: the blocks in use are the strings of the slots in use,
the array, what the callers hold and what is `lost`. -/
structure Kept (strs : V → List (List UInt8)) (home : K → Nat) (tv : Table K V)
    (lost : Multiset Nat) (s : State K) : Prop where
  inv : CacheInv home tv
  shows : Shows strs s.heap s.cache.table tv
  account : Account s.heap (strings s.cache.table.map + (s.cache.addr ::ₘ (lost + s.held)))

variable {strs : V → List (List UInt8)} {home : K → Nat} {tv : Table K V} {lost : Multiset Nat}
  {s : State K}

theorem kept_init [Inhabited V] (strs : V → List (List UInt8)) (home : K → Nat)
    {alloc : Nat → Bool} {initsize : Nat} {h : Heap} {c : Cache K}
    (hinit : cacheInit alloc .empty initsize = some (h, c)) :
    ∃ tv, Silksocks.cacheInit alloc initsize = some tv ∧ Kept strs home tv 0 ⟨h, c, 0⟩ := by
  rw [cacheInit] at hinit
  split at hinit
  · cases hinit
  rename_i hn
  split at hinit
  · rename_i halloc
    cases hinit
    have hvalue : Silksocks.cacheInit alloc initsize = some (Table.zeroed initsize : Table K V) := by
      rw [Silksocks.cacheInit, if_neg hn, if_pos halloc]
    refine ⟨_, hvalue, cacheInit_inv hvalue, shows_zeroed _, ?_⟩
    have hacc := (account_empty.malloc ([] : List UInt8)).1
    simpa [Table.zeroed, strings_replicate] using hacc
  · cases hinit

theorem Kept.strdup (hk : Kept strs home tv lost s) (str : List UInt8) :
    Kept strs home tv lost ⟨(s.heap.malloc str).2, s.cache, s.heap.next ::ₘ s.held⟩ := by
  obtain ⟨hacc, -, hsame⟩ := hk.account.malloc str
  refine ⟨hk.inv, ⟨hk.shows.elements, slotsShow_same hk.shows.slots hsame
    fun p hp => Multiset.mem_add.mpr (.inl hp)⟩, ?_⟩
  simpa only [Multiset.add_cons, Multiset.cons_swap s.heap.next] using hacc

theorem Kept.free {h : Heap} {c : Cache K} {p : Nat} {held : Multiset Nat}
    (hk : Kept strs home tv lost ⟨h, c, p ::ₘ held⟩) :
    ∃ h', h.free p = some h' ∧ Kept strs home tv lost ⟨h', c, held⟩ := by
  have hacc := hk.account
  simp only [Multiset.add_cons, Multiset.cons_swap c.addr] at hacc
  obtain ⟨h', hfree, hacc', hsame⟩ := hacc.free
  refine ⟨h', hfree, hk.inv, ⟨hk.shows.elements, slotsShow_same hk.shows.slots hsame
    fun q hq => Multiset.mem_cons_of_mem (Multiset.mem_add.mpr (.inl hq))⟩, ?_⟩
  simpa only [Multiset.add_cons] using hacc'

theorem Kept.get (hk : Kept strs home tv lost s) (key : K) :
    ∃ r r' h', tv.get home key = some r ∧ cacheGet home s.heap s.cache key = some (r', h') ∧
      r'.isSome = r.isSome ∧ (∀ v ∈ r, h'.Reads (r'.getD []) (strs v)) ∧
      Kept strs home tv lost ⟨h', s.cache, ((r'.getD [] : List Nat) : Multiset Nat) + s.held⟩ := by
  obtain ⟨r, hr⟩ := hk.inv.get_total key
  obtain ⟨r', h', hget, hsome, hacc, hsame, hreads⟩ :=
    cacheGet_spec hk.shows hk.account hk.inv.size hr
  refine ⟨r, r', h', hr, hget, hsome, hreads, hk.inv, ⟨hk.shows.elements,
    slotsShow_same hk.shows.slots hsame fun p hp => Multiset.mem_add.mpr (.inl hp)⟩, ?_⟩
  have heq : strings s.cache.table.map + (s.cache.addr ::ₘ
      (lost + (((r'.getD [] : List Nat) : Multiset Nat) + s.held))) =
      ((r'.getD [] : List Nat) : Multiset Nat) +
        (strings s.cache.table.map + (s.cache.addr ::ₘ (lost + s.held))) := by
    simp only [← Multiset.singleton_add]
    abel
  rw [heq]
  exact hacc

/-- A put by a caller that holds the strings. -/
theorem Kept.put [Inhabited V] (alloc : Nat → Bool) (key : K)
    {put : Heap → Cache K → K → List Nat → Option (Heap × Cache K)}
    (hput : ∀ h c key src, cacheFull c.table = false → put h c key src = store home h c key src)
    (hk : Kept strs home tv lost s) {val : V} {src : List Nat}
    (hsrc : ∀ p ∈ src, p ∈ s.held) (hr : s.heap.Reads src (strs val)) :
    ∃ tv' h' c' lost', cachePut (cacheResize alloc put) (fun h c => store home h c key src) s.heap
        s.cache = some (h', c') ∧
      Silksocks.cachePut (Silksocks.cacheResize alloc (Table.insert home))
        (fun c => c.insert home key val) tv = some tv' ∧ tv.size ≤ tv'.size ∧
      Kept strs home tv' (lost' + lost) ⟨h', c', s.held⟩ ∧
      (key ≠ 0 → tv.size ≤ intSlots → lost' = 0) := by
  obtain ⟨tv', h', c', lost', hrun, hvalue, hshow, hacc, -, hlost⟩ := cachePut_spec hput
    hk.inv hk.shows hk.account (fun p hp => Multiset.mem_add.mpr (.inr (hsrc p hp))) hr
  have hinv : CacheInv home tv' ∧ tv.size ≤ tv'.size := by
    rcases Silksocks.cachePut_spec hk.inv alloc key val rfl with ⟨-, h⟩ | ⟨tv1, -, h, hst⟩
    · cases hvalue.symm.trans h
      exact ⟨hk.inv, Nat.le_refl _⟩
    · cases hvalue.symm.trans h
      exact ⟨hst.inv hk.inv, hst.size_le⟩
  rw [← add_assoc] at hacc
  exact ⟨tv', h', c', lost', hrun, hvalue, hinv.2, ⟨hinv.1, hshow, hacc⟩, fun hkey hbound =>
    hlost hkey (hk.shows.size ▸ hbound)⟩

variable {key : A → K} {tv : Table K V} {s0 : State K} {ls : List (Act A V)}
  {put : (Nat → Bool) → Heap → Cache K → A → List Nat → Heap × Cache K → Prop}
  {get : Heap → Cache K → A → Option (Option (List Nat) × Heap)}
  {vput : (Nat → Bool) → Table K V → A → V → Table K V → Prop}

/-- What the calls do at a state: none of them fails, and they do on the heap what they do on the
values. -/
structure Works (strs : V → List (List UInt8)) (home : K → Nat) (key : A → K)
    (put : (Nat → Bool) → Heap → Cache K → A → List Nat → Heap × Cache K → Prop)
    (get : Heap → Cache K → A → Option (Option (List Nat) × Heap))
    (vput : (Nat → Bool) → Table K V → A → V → Table K V → Prop) (tv : Table K V) (s : State K) :
    Prop where
  put : ∀ alloc a val src, (∀ p ∈ src, p ∈ s.held) → s.heap.Reads src (strs val) →
    (∃ r, put alloc s.heap s.cache a src r) ∧ ∀ h' c', put alloc s.heap s.cache a src (h', c') →
      ∃ tv', vput alloc tv a val tv' ∧ Shows strs h' c'.table tv'
  get : ∀ a, ∃ r r' h', tv.get home (key a) = some r ∧ get s.heap s.cache a = some (r', h') ∧
    r'.isSome = r.isSome ∧ ∀ v ∈ r, h'.Reads (r'.getD []) (strs v)
  free : ∀ p ∈ s.held, ∃ h', s.heap.free p = some h'

/-- A put at a table that is kept, by a caller that holds the strings: it ends, and what it leaves
shows what the put of the values does. -/
def KeepsPuts (strs : V → List (List UInt8)) (home : K → Nat) (key : A → K)
    (put : (Nat → Bool) → Heap → Cache K → A → List Nat → Heap × Cache K → Prop)
    (vput : (Nat → Bool) → Table K V → A → V → Table K V → Prop) : Prop :=
  ∀ tv lost s alloc a val src, Kept strs home tv lost s → (∀ p ∈ src, p ∈ s.held) →
    s.heap.Reads src (strs val) → (∃ r, put alloc s.heap s.cache a src r) ∧
      ∀ h' c', put alloc s.heap s.cache a src (h', c') → ∃ tv' lost', vput alloc tv a val tv' ∧
        tv.size ≤ tv'.size ∧ Kept strs home tv' (lost' + lost) ⟨h', c', s.held⟩ ∧
        (key a ≠ 0 → tv.size ≤ intSlots → lost' = 0)

/-- What one call does on the heap and on the values, a run does. -/
theorem run_kept (hput : KeepsPuts strs home key put vput)
    (hget : ∀ h c a, get h c a = cacheGet home h c (key a)) (hk0 : Kept strs home tv 0 s0)
    (hrun : Lts.Run (Step strs put get) s0 ls s) :
    ∃ tv' lost, Lts.Run (ValueStep vput) tv ls tv' ∧ Kept strs home tv' lost s ∧
      ((∀ alloc a val, .put alloc a val ∈ ls → key a ≠ 0) → tv'.size ≤ intSlots → lost = 0) := by
  refine hrun.invariant (I := fun ls s => ∃ tv' lost, Lts.Run (ValueStep vput) tv ls tv' ∧
    Kept strs home tv' lost s ∧ ((∀ alloc a val, .put alloc a val ∈ ls → key a ≠ 0) →
      tv'.size ≤ intSlots → lost = 0)) ⟨tv, 0, .nil, hk0, fun _ _ => rfl⟩ ?_
  rintro ls s1 l s2 - ⟨tv1, lost, hvalues, hk, hlost⟩ hs
  have hbefore : (∀ alloc a val, .put alloc a val ∈ ls ++ [l] → key a ≠ 0) →
      ∀ alloc a val, .put alloc a val ∈ ls → key a ≠ 0 :=
    fun h alloc a val hmem => h alloc a val (List.mem_append_left _ hmem)
  cases hs with
  | strdup str =>
    exact ⟨tv1, lost, hvalues.snoc (.strdup str), hk.strdup str, fun hkeys => hlost (hbefore hkeys)⟩
  | free hfree =>
    obtain ⟨h', hfree', hk'⟩ := hk.free
    cases hfree.symm.trans hfree'
    exact ⟨tv1, lost, hvalues.snoc .free, hk', fun hkeys => hlost (hbefore hkeys)⟩
  | @put alloc h h' c c' held a val src hsrc hr hrun =>
    obtain ⟨tv2, lost', hvalue, hsize, hk', hlost'⟩ :=
      (hput _ _ _ alloc a val src hk hsrc hr).2 _ _ hrun
    refine ⟨tv2, lost' + lost, hvalues.snoc (.put hvalue), hk', fun hkeys hbound => ?_⟩
    have hold := hsize.trans hbound
    rw [hlost' (hkeys alloc a val (by simp)) hold, hlost (hbefore hkeys) hold, zero_add]
  | @get h h' c held a r hcall =>
    obtain ⟨r1, r2, h2, -, hcall', -, -, hk'⟩ := hk.get (key a)
    rw [hget] at hcall
    cases hcall.symm.trans hcall'
    exact ⟨tv1, lost, hvalues.snoc (.get a), hk', fun hkeys => hlost (hbefore hkeys)⟩

theorem Kept.works (hk : Kept strs home tv lost s) (hput : KeepsPuts strs home key put vput)
    (hget : ∀ h c a, get h c a = cacheGet home h c (key a)) :
    Works strs home key put get vput tv s := by
  refine ⟨fun alloc a val src hsrc hr => ?_, fun a => ?_, fun p hp => ?_⟩
  · obtain ⟨hends, hshows⟩ := hput _ _ _ alloc a val src hk hsrc hr
    refine ⟨hends, fun h' c' hrun => ?_⟩
    obtain ⟨tv', lost', hvalue, -, hk', -⟩ := hshows h' c' hrun
    exact ⟨tv', hvalue, hk'.shows⟩
  · obtain ⟨r, r', h', hr, hcall, hsome, hreads, -⟩ := hk.get (key a)
    exact ⟨r, r', h', hr, (hget ..).trans hcall, hsome, hreads⟩
  · obtain ⟨heap, cache, held⟩ := s
    obtain ⟨held, rfl⟩ := Multiset.exists_cons_of_mem hp
    obtain ⟨h', hfree, -⟩ := hk.free
    exact ⟨h', hfree⟩

end Runs

/-! ### The two caches -/

section Caches

open Heap

variable {initsize : Nat}

def credsStrings (creds : Creds) : List (List UInt8) := [creds.user, creds.passwd]

def passwdStrings (passwd : List UInt8) : List (List UInt8) := [passwd]

/-- `cache_putip` ends with `r`. -/
def PutsIp (alloc : Nat → Bool) (h : Heap) (c : Cache UInt32) (key : UInt32) (src : List Nat)
    (r : Heap × Cache UInt32) : Prop := ∃ depth, cachePutip alloc depth h c key src = some r

/-- `cache_putapp` ends with `r`. -/
def PutsApp (alloc : Nat → Bool) (h : Heap) (c : Cache UInt64) (app : List UInt8) (src : List Nat)
    (r : Heap × Cache UInt64) : Prop := cachePutapp alloc h c app src = some r

/-- The put of `cacheip` on the values. -/
def PutsIpValue (alloc : Nat → Bool) (tv : CacheIp) (key : UInt32) (creds : Creds) (tv' : CacheIp) :
    Prop := ∃ depth, Silksocks.cachePutip alloc depth tv key creds = some tv'

/-- The put of `cacheapp` on the values. -/
def PutsAppValue (alloc : Nat → Bool) (tv : CacheAp) (app passwd : List UInt8) (tv' : CacheAp) :
    Prop := Silksocks.cachePutapp alloc tv app passwd = some tv'

abbrev CacheipStep : State UInt32 → Act UInt32 Creds → State UInt32 → Prop :=
  Step credsStrings PutsIp cacheGetip

abbrev CacheappStep : State UInt64 → Act (List UInt8) (List UInt8) → State UInt64 → Prop :=
  Step passwdStrings PutsApp cacheGetapp

theorem cachePutip_of_not_full (alloc : Nat → Bool) (depth : Nat) (h : Heap) (c : Cache UInt32)
    (key : UInt32) (src : List Nat) (hfull : cacheFull c.table = false) :
    cachePutip alloc depth h c key src = store ipHome h c key src := by
  cases depth <;> simp [cachePutip, cachePut, hfull]

/-- A put that ends may as well resize. -/
theorem cachePutip_resizes {alloc : Nat → Bool} {depth : Nat} {h : Heap} {c : Cache UInt32}
    {key : UInt32} {src : List Nat} {r : Heap × Cache UInt32}
    (hput : cachePutip alloc depth h c key src = some r) :
    ∃ depth, cachePutip alloc (depth + 1) h c key src = some r := by
  cases depth with
  | succ depth => exact ⟨depth, hput⟩
  | zero =>
    cases hfull : cacheFull c.table with
    | true => simp [cachePutip, cachePut, hfull] at hput
    | false =>
      rw [cachePutip_of_not_full alloc 0 h c key src hfull] at hput
      exact ⟨0, (cachePutip_of_not_full alloc 1 h c key src hfull).trans hput⟩

theorem cacheip_keepsPuts : KeepsPuts credsStrings ipHome id PutsIp PutsIpValue := by
  intro tv lost s alloc key creds src hk hsrc hr
  have hput (depth : Nat) := hk.put alloc key (cachePutip_of_not_full alloc depth) hsrc hr
  refine ⟨?_, fun h' c' ⟨depth, hrun⟩ => ?_⟩
  · obtain ⟨tv', h', c', lost', hrun, -⟩ := hput 0
    exact ⟨(h', c'), 1, hrun⟩
  · obtain ⟨depth, hrun⟩ := cachePutip_resizes hrun
    obtain ⟨tv', h2, c2, lost', hrun', hvalue, hafter⟩ := hput depth
    cases hrun.symm.trans hrun'
    refine ⟨tv', lost', ⟨1, ?_⟩, hafter⟩
    have heq := cacheResizeip_eq hk.inv alloc 0
    rw [cacheResizeip] at heq
    rw [Silksocks.cachePutip, Silksocks.cachePut, heq, ← Silksocks.cachePut]
    exact hvalue

theorem cacheapp_keepsPuts : KeepsPuts passwdStrings appHome hashStr PutsApp PutsAppValue := by
  intro tv lost s alloc app passwd src hk hsrc hr
  obtain ⟨tv', h', c', lost', hrun, hvalue, hafter⟩ :=
    hk.put alloc (hashStr app) (fun _ _ _ _ _ => rfl) hsrc hr
  refine ⟨⟨(h', c'), hrun⟩, fun h2 c2 hrun' => ?_⟩
  cases hrun.symm.trans hrun'
  exact ⟨tv', lost', hvalue, hafter⟩

theorem valueRun_cacheip {alloc : Nat → Bool} {tv0 tv : CacheIp} {ls : List (Act UInt32 Creds)}
    (hinit : cacheInitip alloc initsize = some tv0)
    (hrun : Lts.Run (ValueStep PutsIpValue) tv0 ls tv) : ∃ log, CacheipRun initsize tv log := by
  refine hrun.invariant (I := fun _ tv => ∃ log, CacheipRun initsize tv log) ⟨[], .init hinit⟩ ?_
  rintro ls tv1 l tv2 - ⟨log, hlog⟩ hs
  cases hs with
  | strdup | free | get => exact ⟨log, hlog⟩
  | put hput =>
    obtain ⟨depth, hput⟩ := hput
    exact ⟨_, hlog.put hput⟩

theorem valueRun_cacheapp {alloc : Nat → Bool} {tv0 tv : CacheAp}
    {ls : List (Act (List UInt8) (List UInt8))}
    (hinit : cacheInitapp alloc initsize = some tv0)
    (hrun : Lts.Run (ValueStep PutsAppValue) tv0 ls tv) : ∃ log, CacheappRun initsize tv log := by
  refine hrun.invariant (I := fun _ tv => ∃ log, CacheappRun initsize tv log) ⟨[], .init hinit⟩ ?_
  rintro ls tv1 l tv2 - ⟨log, hlog⟩ hs
  cases hs with
  | strdup | free | get => exact ⟨log, hlog⟩
  | put hput => exact ⟨_, hlog.put hput⟩

/-- In every run of either cache no string or array is freed twice, used after it was freed, or owned
twice: the blocks in use are the strings of the slots in use, the array, what the callers hold, and
what was lost, which is nothing unless there was a put under the key 0 or a resize from more than
`intSlots` slots.  The table that the cache shows is the one that the same puts lead to on the values,
and every call goes through, and does what it does on the values. -/
theorem caches_keepBlocks (alloc : Nat → Bool) (initsize : Nat) :
    (∀ h c ls s, cacheInit alloc .empty initsize = some (h, c) →
      Lts.Run CacheipStep ⟨h, c, 0⟩ ls s →
      ∃ tv0 tv lost, cacheInitip alloc initsize = some tv0 ∧
        Lts.Run (ValueStep PutsIpValue) tv0 ls tv ∧ (∃ log, CacheipRun initsize tv log) ∧
        Kept credsStrings ipHome tv lost s ∧
        Works credsStrings ipHome id PutsIp cacheGetip PutsIpValue tv s ∧
        ((∀ alloc key creds, .put alloc key creds ∈ ls → key ≠ 0) → tv.size ≤ intSlots →
          lost = 0)) ∧
    (∀ h c ls s, cacheInit alloc .empty initsize = some (h, c) →
      Lts.Run CacheappStep ⟨h, c, 0⟩ ls s →
      ∃ tv0 tv lost, cacheInitapp alloc initsize = some tv0 ∧
        Lts.Run (ValueStep PutsAppValue) tv0 ls tv ∧ (∃ log, CacheappRun initsize tv log) ∧
        Kept passwdStrings appHome tv lost s ∧
        Works passwdStrings appHome hashStr PutsApp cacheGetapp PutsAppValue tv s ∧
        ((∀ alloc app passwd, .put alloc app passwd ∈ ls → hashStr app ≠ 0) → tv.size ≤ intSlots →
          lost = 0)) := by
  refine ⟨fun h c ls s hinit hrun => ?_, fun h c ls s hinit hrun => ?_⟩
  · obtain ⟨tv0, htv, hk⟩ := kept_init credsStrings ipHome hinit
    obtain ⟨tv, lost, hvalues, hk, hlost⟩ :=
      run_kept cacheip_keepsPuts (fun _ _ _ => rfl) hk hrun
    exact ⟨tv0, tv, lost, htv, hvalues, valueRun_cacheip htv hvalues, hk,
      hk.works cacheip_keepsPuts fun _ _ _ => rfl, hlost⟩
  · obtain ⟨tv0, htv, hk⟩ := kept_init passwdStrings appHome hinit
    obtain ⟨tv, lost, hvalues, hk, hlost⟩ :=
      run_kept cacheapp_keepsPuts (fun _ _ _ => rfl) hk hrun
    exact ⟨tv0, tv, lost, htv, hvalues, valueRun_cacheapp htv hvalues, hk,
      hk.works cacheapp_keepsPuts fun _ _ _ => rfl, hlost⟩

theorem cacheip_runPut {s0 s : State UInt32} {ls : List (Act UInt32 Creds)}
    {r : Heap × Cache UInt32} (hrun : Lts.Run CacheipStep s0 ls s) (alloc : Nat → Bool)
    (key : UInt32) (creds : Creds) (src : List Nat) (hsrc : ∀ p ∈ src, p ∈ s.held)
    (hr : s.heap.Reads src (credsStrings creds))
    (hput : PutsIp alloc s.heap s.cache key src r) :
    Lts.Run CacheipStep s0 (ls ++ [.put alloc key creds]) ⟨r.1, r.2, s.held⟩ :=
  hrun.snoc (.put hsrc hr hput)

/-- Credentials that are put into a cache, then some of another address whose probe starts at the same
slot, and other ones of the first address, for which the table is resized. -/
theorem caches_keepBlocks_reput : ∃ h c ls s, cacheInit (fun _ => true) .empty 2 = some (h, c) ∧
    Lts.Run CacheipStep ⟨h, c, 0⟩ ls s ∧ s.held = {17, 18, 2, 1} ∧
    s.heap.Reads [17, 18] [[112], [117]] ∧
    ∃ tv, Lts.Run (ValueStep PutsIpValue) (Table.zeroed 2) ls tv ∧
      Kept credsStrings ipHome tv 0 s := by
  have hrun : Lts.Run CacheipStep ⟨(Heap.malloc .empty []).2, ⟨0, Table.zeroed 2⟩, 0⟩ [] _ := .nil
  have hrun := (hrun.snoc (.strdup [117])).snoc (.strdup [112])
  have hrun := cacheip_runPut hrun (fun _ => true) 7 ⟨[117], [112]⟩ [1, 2] (by decide) rfl
    ⟨1, rfl⟩
  have hrun := cacheip_runPut hrun (fun _ => true) 13 ⟨[117], [112]⟩ [1, 2] (by decide) rfl
    ⟨1, rfl⟩
  have hrun := cacheip_runPut hrun (fun _ => true) 7 ⟨[112], [117]⟩ [2, 1] (by decide) rfl
    ⟨1, rfl⟩
  have hrun := hrun.snoc (l := .get 7) (.get rfl)
  obtain ⟨tv0, tv, lost, hinit, hvalues, -, hk, -, hlost⟩ :=
    (caches_keepBlocks (fun _ => true) 2).1 _ _ _ _ rfl hrun
  cases hinit
  obtain rfl : lost = 0 := hlost (fun alloc key creds hmem => by
      simp at hmem
      rcases hmem with ⟨-, rfl, -⟩ | ⟨-, rfl, -⟩ | ⟨-, rfl, -⟩ <;> decide)
    (by rw [← hk.shows.size]; decide)
  exact ⟨_, _, _, _, rfl, hrun, rfl, rfl, tv, hvalues, hk⟩

end Caches

end CacheHeap

end Silksocks
