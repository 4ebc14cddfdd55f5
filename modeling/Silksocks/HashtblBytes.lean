import Mathlib.Tactic.IntervalCases
import Silksocks.HashtblTtl
import Silksocks.Lib.ByteBlock

/-! The entries of the table of resolved names as bytes in memory, for any record size.  On an LP64
machine of either byte order, `hashtbl_init` gets a block of zero bytes from `calloc` and links the
entries in it.  With a record size of 4 these are the entries of `hashtblInit`.  With any other one
`he_idx` is neither where `empty_entry` points to nor as far from the next entry as the record
needs. -/

namespace Silksocks

open Chains ByteBlock

/-- `sizeof(struct hash_entry)`. -/
def entrySize : Nat := 32

/-- The offset of `next` in a `struct hash_entry`. -/
def nextOffset : Nat := 16

/-- The offset of `value` in a `struct hash_entry`. -/
def valueOffset : Nat := 24

/-- `struct hash_table` with the block that `entries` points to.  The list heads at `table` are all
`NULL`. -/
structure RawTable where
  size : Nat
  recordSize : Nat
  table : Nat
  entries : Block
  emptyEntry : Nat

/-- `he_idx(i)`.  The record size is added to the address and not to the size of an entry. -/
def heIdx (entries recordSize i : Nat) : Nat :=
  (entries + (i * entrySize + recordSize + (2 ^ 64 - 4))) % 2 ^ 64

/-- `sizeof(struct hash_entry)+record_size-4`, the bytes that are allocated for an entry. -/
def entryAlloc (recordSize : Nat) : Nat := (entrySize + recordSize + (2 ^ 64 - 4)) % 2 ^ 64

/-- The loop of `hashtbl_init` over the first `n` entries. -/
def linkRaw (order : ByteOrder) (entries recordSize n : Nat) (b : Block) : Option Block :=
  (List.range n).foldlM (fun b i => b.storeWord order (heIdx entries recordSize i + nextOffset)
    (heIdx entries recordSize (i + 1))) b

/-- `hashtbl_init` with what its two calls of `calloc` return.  The result is `none` when one of
them fails, when a link is stored outside of the block, and where `hashtblInit` is undefined. -/
def hashtblInitRaw (order : ByteOrder) (table entries : Option Nat) (size recordSize : Nat) :
    Option RawTable :=
  match table, entries with
  | some table, some entries =>
    if size = 0 ∨ intSlots < size then none
    else
      (linkRaw order entries recordSize (size - 1)
        (Block.zeroed entries (size * entryAlloc recordSize))).map fun b =>
          { size, recordSize, table, entries := b, emptyEntry := entries }
  | _, _ => none

/-- The entries that `next` leads to from `p`.  It is `none` when an entry is outside of the block,
and when there are more than `fuel`. -/
def RawTable.follow (order : ByteOrder) (t : RawTable) : (fuel p : Nat) → Option (List Nat)
  | 0, p => if p = 0 then some [] else none
  | fuel + 1, p =>
    if p = 0 then some []
    else
      (t.entries.loadWord order (p + nextOffset)).bind fun q =>
        (t.follow order fuel q).map (p :: ·)

/-- The bytes of an entry that `hashtbl_put` and `hashtbl_get` use. -/
def RawTable.entryBytes (t : RawTable) : Nat := valueOffset + t.recordSize

/-- The free list is `l`, and its entries do not overlap and are in the block. -/
structure Carved (order : ByteOrder) (t : RawTable) (l : List Nat) : Prop where
  visited : t.follow order t.size t.emptyEntry = some l
  length : l.length = t.size
  disjoint : l.Pairwise fun p q => p + t.entryBytes ≤ q ∨ q + t.entryBytes ≤ p
  inside : ∀ p ∈ l, t.entries.Within p t.entryBytes

/-- What `calloc` may return for `n` bytes. -/
def Allocated (p n : Nat) : Prop := 0 < p ∧ p % 16 = 0 ∧ p + n ≤ 2 ^ 64

/-- What the two calls of `calloc` in `hashtbl_init` may return. -/
structure Allocations (size recordSize table entries : Nat) : Prop where
  tableAt : Allocated table (size * 8)
  entriesAt : Allocated entries (size * entryAlloc recordSize)
  apart : table + size * 8 ≤ entries ∨ entries + size * entryAlloc recordSize ≤ table

section Layout

variable {order : ByteOrder} {size recordSize table entries i n : Nat} {b : Block}

/-- A block for `size` entries with no arithmetic that wraps around. -/
structure Roomy (size recordSize entries : Nat) : Prop where
  record : 4 ≤ recordSize
  small : recordSize + 28 < 2 ^ 64
  fits : entries + size * (28 + recordSize) ≤ 2 ^ 64

theorem entryAlloc_eq (hrecord : 4 ≤ recordSize) (hsmall : recordSize + 28 < 2 ^ 64) :
    entryAlloc recordSize = 28 + recordSize := by
  rw [entryAlloc, entrySize]
  omega

theorem Roomy.entry_le (h : Roomy size recordSize entries) (hi : i < size) :
    32 * i + (28 + recordSize) ≤ size * (28 + recordSize) := by
  have hstride : 32 ≤ 28 + recordSize := by
    have := h.record
    omega
  calc 32 * i + (28 + recordSize) ≤ (28 + recordSize) * i + (28 + recordSize) :=
        Nat.add_le_add_right (Nat.mul_le_mul_right i hstride) _
    _ = (i + 1) * (28 + recordSize) := by rw [Nat.succ_mul, Nat.mul_comm]
    _ ≤ size * (28 + recordSize) := Nat.mul_le_mul_right _ hi

theorem Roomy.heIdx_eq (h : Roomy size recordSize entries) (hi : i < size) :
    heIdx entries recordSize i = entries + 32 * i + (recordSize - 4) := by
  have := h.record
  have := h.fits
  have := h.entry_le hi
  rw [heIdx, entrySize]
  omega

/-- The bytes of a block after the links of the first `n` entries have been stored in it. -/
structure LinkedBytes (order : ByteOrder) (size recordSize entries n : Nat) (b : Block) : Prop where
  base : b.base = entries
  blockSize : b.size = size * (28 + recordSize)
  link : ∀ i < n, ∀ j < 8, b.bytes (entries + 32 * i + (recordSize - 4) + nextOffset + j) =
    byteAt order (entries + 32 * (i + 1) + (recordSize - 4)) j
  zero : ∀ q, (∀ i < n, q < entries + 32 * i + (recordSize - 4) + nextOffset ∨
    entries + 32 * i + (recordSize - 4) + nextOffset + 8 ≤ q) → b.bytes q = 0

theorem linkRaw_spec (order : ByteOrder) (h : Roomy size recordSize entries) (hn : n < size) :
    ∃ b, linkRaw order entries recordSize n
        (Block.zeroed entries (size * (28 + recordSize))) = some b ∧
      LinkedBytes order size recordSize entries n b := by
  induction n with
  | zero => exact ⟨_, rfl, rfl, rfl, fun i hi => absurd hi (Nat.not_lt_zero i), fun _ _ => rfl⟩
  | succ n ih =>
    obtain ⟨b, hb, hlinked⟩ := ih (by omega)
    have hidx := h.heIdx_eq (i := n) (by omega)
    have hidx' := h.heIdx_eq hn
    have hwithin : b.Within (heIdx entries recordSize n + nextOffset) 8 := by
      have := h.entry_le hn
      have := h.record
      rw [Block.Within, hlinked.base, hlinked.blockSize, hidx, nextOffset]
      omega
    obtain ⟨b', hb'⟩ :=
      Block.storeWord_within order (heIdx entries recordSize (n + 1)) hwithin
    obtain ⟨hbase, hsize⟩ := Block.storeWord_base hb'
    have hbytes := Block.storeWord_bytes hb'
    rw [hidx, hidx'] at hbytes
    refine ⟨b', ?_, hbase.trans hlinked.base, hsize.trans hlinked.blockSize, fun i hi j hj => ?_,
      fun q hq => ?_⟩
    · rw [linkRaw, List.range_succ, List.foldlM_append, ← linkRaw, hb]
      simpa using hb'
    · rw [hbytes]
      by_cases hin : i = n
      · subst hin
        rw [if_pos (by omega)]
        exact congrArg (byteAt order _) (by omega)
      · rw [if_neg (by omega)]
        exact hlinked.link i (by omega) j hj
    · rw [hbytes, if_neg]
      · exact hlinked.zero q fun i hi => hq i (by omega)
      · have := hq n (by omega)
        omega

/-! ### Following the links -/

variable {t : RawTable} {p q : Nat} {l : List Nat}

theorem hashtblInitRaw_of_roomy (h : Roomy size recordSize entries) (hsize : 1 ≤ size)
    (hint : size ≤ intSlots) (order : ByteOrder) (table : Nat) :
    ∃ b, hashtblInitRaw order (some table) (some entries) size recordSize =
        some ⟨size, recordSize, table, b, entries⟩ ∧
      LinkedBytes order size recordSize entries (size - 1) b := by
  obtain ⟨b, hb, hlinked⟩ := linkRaw_spec order h (n := size - 1) (by omega)
  refine ⟨b, ?_, hlinked⟩
  simp only [hashtblInitRaw, entryAlloc_eq h.record h.small, hb]
  rw [if_neg (by omega), Option.map_some]

theorem follow_null (t : RawTable) (order : ByteOrder) (fuel : Nat) :
    t.follow order fuel 0 = some [] := by
  cases fuel <;> simp [RawTable.follow]

theorem follow_entry {fuel : Nat} (hp : p ≠ 0)
    (hload : t.entries.loadWord order (p + nextOffset) = some q) :
    t.follow order (fuel + 1) p = (t.follow order fuel q).map (p :: ·) := by
  rw [RawTable.follow, if_neg hp, hload, Option.bind_some]

theorem follow_outside {fuel : Nat} (hp : p ≠ 0) (h : ¬ t.entries.Within (p + nextOffset) 8) :
    t.follow order fuel p = none := by
  cases fuel with
  | zero => rw [RawTable.follow, if_neg hp]
  | succ fuel => rw [RawTable.follow, if_neg hp, Block.loadWord, if_neg h, Option.bind_none]

/-- What the free list starts with is in it. -/
theorem follow_head {fuel : Nat} (hp : p ≠ 0) (h : t.follow order fuel p = some l) : p ∈ l := by
  cases fuel with
  | zero =>
    rw [RawTable.follow, if_neg hp] at h
    cases h
  | succ fuel =>
    rw [RawTable.follow, if_neg hp] at h
    obtain ⟨q, -, hq⟩ := Option.bind_eq_some_iff.mp h
    obtain ⟨l', -, rfl⟩ := Option.map_eq_some_iff.mp hq
    exact List.mem_cons_self

namespace LinkedBytes

theorem within_next (h : LinkedBytes order size recordSize entries n b)
    (hroom : Roomy size recordSize entries) (hi : i < size) :
    b.Within (entries + 32 * i + nextOffset) 8 := by
  have := hroom.entry_le hi
  rw [Block.Within, h.base, h.blockSize, nextOffset]
  omega

/-- With a record size of 12 or more the first link is behind the `next` of the first entry. -/
theorem load_null (h : LinkedBytes order size recordSize entries n b)
    (hroom : Roomy size recordSize entries) (hfirst : n = 0 ∨ 12 ≤ recordSize) (hsize : 0 < size) :
    b.loadWord order (entries + nextOffset) = some 0 := by
  refine Block.loadWord_of_bytes (h.within_next hroom hsize) (by decide) fun j hj => ?_
  rw [byteAt_zero]
  refine h.zero _ fun i hi => .inl ?_
  rw [nextOffset]
  omega

/-- The first `next` holds the part of the first link that is stored there. -/
theorem load_part (h : LinkedBytes order size recordSize entries n b)
    (hroom : Roomy size recordSize entries) (hn : 0 < n) (hsize : 0 < size) :
    b.loadWord order (entries + nextOffset) = some (wordOf order fun j =>
      if j < recordSize - 4 then 0
      else byteAt order (entries + 32 + (recordSize - 4)) (j - (recordSize - 4))) := by
  refine Block.loadWord_eq (h.within_next hroom hsize) fun j hj => ?_
  have := hroom.record
  split
  · refine h.zero _ fun i hi => .inl ?_
    rw [nextOffset]
    omega
  · have hlink := h.link 0 hn (j - (recordSize - 4)) (by omega)
    rw [nextOffset] at hlink ⊢
    rw [← hlink]
    congr 1
    omega

end LinkedBytes

/-! ### The record size 4 -/

/-- The address that a link holds: that of the entry, or `NULL`. -/
def linkAddr (entries : Nat) (link : Option Nat) : Nat := (link.map (heIdx entries 4)).getD 0

@[simp] theorem linkAddr_none (entries : Nat) : linkAddr entries none = 0 := rfl

@[simp] theorem linkAddr_some (entries i : Nat) :
    linkAddr entries (some i) = heIdx entries 4 i := by
  rw [linkAddr, Option.map_some, Option.getD_some]

/-- With a record size of 4 the bytes hold the links of `hashtblInit`. -/
theorem hashtblInitRaw_refines {t : HashTable} (h : hashtblInit true size = some t)
    (hroom : Roomy size 4 entries) (order : ByteOrder) (table : Nat) :
    ∃ r, hashtblInitRaw order (some table) (some entries) size 4 = some r ∧ r.size = size ∧
      r.recordSize = 4 ∧ r.entries.base = entries ∧ r.entries.size = size * 32 ∧
      r.emptyEntry = linkAddr entries t.store.free ∧ ∀ i < size,
        r.entries.loadWord order (heIdx entries 4 i + nextOffset) =
          some (linkAddr entries (t.store.next i)) := by
  rw [hashtblInit] at h
  split at h
  · cases h
  rename_i hsize
  cases h
  obtain ⟨b, hinit, hlinked⟩ :=
    hashtblInitRaw_of_roomy hroom (by omega) (by omega) order table
  have hfits := hroom.fits
  have hnone (j : Nat) (hj : size - 1 ≤ j) (k : Nat) (hk : k < 8) :
      b.bytes (entries + 32 * j + (4 - 4) + nextOffset + k) = 0 := by
    refine hlinked.zero _ fun i hi => .inr ?_
    omega
  refine ⟨_, hinit, rfl, rfl, hlinked.base, by simpa using hlinked.blockSize, ?_, fun i hi => ?_⟩
  · simp only [linkAddr_some, hroom.heIdx_eq (i := 0) (by omega)]
    rfl
  · rw [hroom.heIdx_eq hi]
    have hwithin := hlinked.within_next hroom hi
    simp only [linkEntries]
    split
    · rename_i hnext
      rw [linkAddr_some, hroom.heIdx_eq (by omega)]
      have := hroom.entry_le (i := i + 1) (by omega)
      exact Block.loadWord_of_bytes hwithin (by omega) fun j hj => hlinked.link i hnext j hj
    · rename_i hlast
      rw [linkAddr_none]
      refine Block.loadWord_of_bytes hwithin (by decide) fun j hj => ?_
      rw [byteAt_zero]
      exact hnone i (by omega) j hj

theorem follow_linked (order : ByteOrder) {next : Nat → Option Nat} {link : Option Nat}
    (h : Linked next link l)
    (hne : ∀ i ∈ l, heIdx entries 4 i ≠ 0)
    (hload : ∀ i ∈ l, t.entries.loadWord order (heIdx entries 4 i + nextOffset) =
      some (linkAddr entries (next i))) :
    t.follow order l.length (linkAddr entries link) = some (l.map (heIdx entries 4)) := by
  induction l generalizing link with
  | nil =>
    rw [h, linkAddr_none]
    exact follow_null t order 0
  | cons i l ih =>
    obtain ⟨rfl, hl⟩ := h
    obtain ⟨hne, hne'⟩ := List.forall_mem_cons.mp hne
    obtain ⟨hload, hload'⟩ := List.forall_mem_cons.mp hload
    rw [List.length_cons, linkAddr_some, follow_entry hne hload, ih hl hne' hload', Option.map_some,
      List.map_cons]

theorem carved_of_four (hroom : Roomy size 4 entries) (hentries : 0 < entries) (hsize : 1 ≤ size)
    (hint : size ≤ intSlots) (order : ByteOrder) (table : Nat) :
    ∃ r l, hashtblInitRaw order (some table) (some entries) size 4 = some r ∧ Carved order r l := by
  obtain ⟨t, ht⟩ : ∃ t, hashtblInit true size = some t :=
    ⟨_, by rw [hashtblInit, if_neg (by omega), if_pos rfl]⟩
  obtain ⟨r, hr, hrsize, hrecord, hbase, hblock, hempty, hload⟩ :=
    hashtblInitRaw_refines ht hroom order table
  have hidx (i : Nat) (hi : i ∈ List.range size) : heIdx entries 4 i = entries + 32 * i :=
    hroom.heIdx_eq (List.mem_range.mp hi)
  have hfollow := follow_linked order (t := r) (HashInv.init ht).1.repr.free
    (fun i hi => by rw [hidx i hi]; omega) fun i hi => hload i (List.mem_range.mp hi)
  have hbytes : r.entryBytes = 28 := by rw [RawTable.entryBytes, valueOffset, hrecord]
  refine ⟨r, (List.range size).map (heIdx entries 4), hr, ?_, by simpa using hrsize.symm, ?_,
    fun p hp => ?_⟩
  · rw [hrsize, hempty]
    simpa using hfollow
  · rw [List.pairwise_map, hbytes]
    refine List.Pairwise.imp_of_mem (fun {i j} hi hj hlt => ?_) List.pairwise_lt_range
    rw [hidx i hi, hidx j hj]
    omega
  · obtain ⟨i, hi, rfl⟩ := List.mem_map.mp hp
    have := hroom.entry_le (List.mem_range.mp hi)
    rw [Block.Within, hbase, hblock, hbytes, hidx i hi]
    omega

/-! ### One entry -/

theorem carved_of_one (hroom : Roomy 1 recordSize entries) (hentries : 0 < entries)
    (order : ByteOrder) (table : Nat) :
    ∃ r l, hashtblInitRaw order (some table) (some entries) 1 recordSize = some r ∧
      Carved order r l := by
  obtain ⟨b, hr, hlinked⟩ := hashtblInitRaw_of_roomy hroom (by decide) (by decide) order table
  refine ⟨_, [entries], hr, ?_, rfl, List.pairwise_singleton _ _, fun p hp => ?_⟩
  · have hload := hlinked.load_null hroom (.inl rfl) (by decide)
    refine (follow_entry (Nat.ne_of_gt hentries) hload).trans ?_
    rw [follow_null, Option.map_some]
  · obtain rfl := List.mem_singleton.mp hp
    rw [Block.Within, hlinked.base, hlinked.blockSize]
    show p ≤ p ∧ p + (24 + recordSize) ≤ p + 1 * (28 + recordSize)
    omega

/-! ### The other sizes -/

theorem linkRaw_block {b' : Block} (h : linkRaw order entries recordSize n b = some b') :
    b'.base = b.base ∧ b'.size = b.size := by
  induction n generalizing b' with
  | zero =>
    cases h
    exact ⟨rfl, rfl⟩
  | succ n ih =>
    rw [linkRaw, List.range_succ, List.foldlM_append, ← linkRaw] at h
    obtain ⟨b1, h1, hlast⟩ := Option.bind_eq_some_iff.mp h
    obtain ⟨hbase, hsize⟩ := Block.storeWord_base (by simpa using hlast)
    exact ⟨hbase.trans (ih h1).1, hsize.trans (ih h1).2⟩

theorem hashtblInitRaw_block
    (h : hashtblInitRaw order (some table) (some entries) size recordSize = some t) :
    size ≤ intSlots ∧ t.size = size ∧ t.recordSize = recordSize ∧ t.emptyEntry = entries ∧
      t.entries.base = entries ∧ t.entries.size = size * entryAlloc recordSize := by
  simp only [hashtblInitRaw] at h
  split at h
  · cases h
  rename_i hsize
  obtain ⟨b, hb, rfl⟩ := Option.map_eq_some_iff.mp h
  obtain ⟨hbase, hblock⟩ := linkRaw_block hb
  exact ⟨by omega, rfl, rfl, rfl, hbase, hblock⟩

theorem Allocated.roomy (h : Allocated entries (size * entryAlloc recordSize))
    (hrecord : 4 ≤ recordSize) (hsmall : recordSize + 28 < 2 ^ 64) :
    Roomy size recordSize entries := by
  have hend := h.2.2
  rw [entryAlloc_eq hrecord hsmall] at hend
  exact ⟨hrecord, hsmall, hend⟩

/-- The first entry is in the block with its record, so that nothing wraps around. -/
theorem Carved.small (hc : Carved order t l)
    (halloc : Allocated entries (size * entryAlloc recordSize))
    (h : hashtblInitRaw order (some table) (some entries) size recordSize = some t) :
    recordSize + 28 < 2 ^ 64 := by
  obtain ⟨-, -, hrecord, hempty, hbase, hblock⟩ := hashtblInitRaw_block h
  obtain ⟨hpos, haligned, hend⟩ := halloc
  have hmem : entries ∈ l := follow_head (by omega) (hempty ▸ hc.visited)
  have hinside := (hc.inside entries hmem).2
  rw [hbase, hblock, RawTable.entryBytes, hrecord, valueOffset] at hinside
  omega

/-- A first `next` that is null, or leads out of the block, does not lead to a second entry. -/
theorem not_carved_of_next
    (h : hashtblInitRaw order (some table) (some entries) size recordSize = some t)
    (hentries : 0 < entries) (hsize : 2 ≤ size)
    (hload : t.entries.loadWord order (entries + nextOffset) = some q)
    (hnext : q = 0 ∨ ¬ t.entries.Within (q + nextOffset) 8) : ¬ Carved order t l := by
  intro hc
  obtain ⟨-, hsame, -, hempty, -⟩ := hashtblInitRaw_block h
  have hvisited := hc.visited
  have hlength := hc.length
  obtain ⟨fuel, rfl⟩ : ∃ fuel, size = fuel + 1 := ⟨size - 1, by omega⟩
  rw [hsame, hempty, follow_entry (by omega) hload] at hvisited
  by_cases hq : q = 0
  · rw [hq, follow_null] at hvisited
    cases hvisited
    rw [List.length_singleton] at hlength
    omega
  · rw [follow_outside hq (hnext.resolve_left hq)] at hvisited
    cases hvisited

/-- With a record size of 12 or more the free list is one entry. -/
theorem not_carved_of_large (hroom : Roomy size recordSize entries) (hentries : 0 < entries)
    (hsize : 2 ≤ size) (hlarge : 12 ≤ recordSize)
    (h : hashtblInitRaw order (some table) (some entries) size recordSize = some t) :
    ¬ Carved order t l := by
  obtain ⟨hint, -⟩ := hashtblInitRaw_block h
  obtain ⟨b, hr, hlinked⟩ := hashtblInitRaw_of_roomy hroom (by omega) hint order table
  obtain rfl := Option.some.inj (h.symm.trans hr)
  exact not_carved_of_next h hentries hsize (hlinked.load_null hroom (.inr hlarge) (by omega))
    (.inl rfl)

/-- An address at which no part of the first link points into the block. -/
theorem part_outside (order : ByteOrder) (hrecord : 4 < recordSize) (hlt : recordSize < 12) :
    ∃ q, (wordOf order fun j => if j < recordSize - 4 then 0
        else byteAt order (2 ^ 46 + 32 + (recordSize - 4)) (j - (recordSize - 4))) = q ∧
      (q = 0 ∨ q + 16 < 2 ^ 46 ∨ 2 ^ 46 + 2 ^ 40 ≤ q) := by
  refine ⟨_, rfl, ?_⟩
  cases order <;> interval_cases recordSize <;> decide +kernel

theorem not_carved_of_small (hroom : Roomy size recordSize (2 ^ 46)) (hsize : 2 ≤ size)
    (hrecord : 4 < recordSize) (hlt : recordSize < 12)
    (h : hashtblInitRaw order (some table) (some (2 ^ 46)) size recordSize = some t) :
    ¬ Carved order t l := by
  obtain ⟨hint, -⟩ := hashtblInitRaw_block h
  obtain ⟨b, hr, hlinked⟩ := hashtblInitRaw_of_roomy hroom (by omega) hint order table
  obtain rfl := Option.some.inj (h.symm.trans hr)
  obtain ⟨q, hq, houtside⟩ := part_outside order hrecord hlt
  refine not_carved_of_next h (by omega) hsize
    ((hlinked.load_part hroom (by omega) (by omega)).trans (congrArg some hq)) ?_
  have hblock : size * (28 + recordSize) ≤ intSlots * 39 := Nat.mul_le_mul hint (by omega)
  refine houtside.imp_right fun houtside => ?_
  rw [Block.Within, hlinked.base, hlinked.blockSize, nextOffset]
  rw [intSlots] at hblock
  omega

end Layout

/-! ### What `hashtbl_init` carves -/

/-- Allocations at which the entries of a table with a small record size can be. -/
theorem allocations_at {size recordSize : Nat} (hint : size ≤ intSlots) (hrecord : 4 ≤ recordSize)
    (hlt : recordSize < 12) : Allocations size recordSize (2 ^ 50) (2 ^ 46) := by
  have halloc := entryAlloc_eq hrecord (by omega)
  have hblock : size * (28 + recordSize) ≤ intSlots * 39 := Nat.mul_le_mul hint (by omega)
  rw [intSlots] at hint hblock
  refine ⟨⟨by decide, by decide, by omega⟩, ⟨by decide, by decide, ?_⟩, .inr ?_⟩ <;>
    · rw [halloc]
      omega

/-- Wherever its allocations are, `hashtbl_init` makes a free list of all entries, which do not
overlap, if and only if the index of an entry fits an `int` and the record size is 4, or there is
one entry.  From a record size of 12 on it does so nowhere. -/
theorem hashtbl_init_carves (order : ByteOrder) (size recordSize : Nat) (hsize : 1 ≤ size)
    (hrecord : 4 ≤ recordSize) (h : ∃ table entries, Allocations size recordSize table entries) :
    ((∀ table entries, Allocations size recordSize table entries →
        ∃ t l, hashtblInitRaw order (some table) (some entries) size recordSize = some t ∧
          Carved order t l) ↔
      size ≤ intSlots ∧ (recordSize = 4 ∨ size = 1 ∧ recordSize + 28 < 2 ^ 64)) ∧
    (2 ≤ size → 12 ≤ recordSize → ∀ table entries t l,
      Allocations size recordSize table entries →
      hashtblInitRaw order (some table) (some entries) size recordSize = some t →
      ¬ Carved order t l) := by
  refine ⟨⟨fun hall => ?_, ?_⟩, fun hsize hlarge table entries t l halloc hinit hc => ?_⟩
  · obtain ⟨table, entries, halloc⟩ := h
    obtain ⟨t, l, hinit, hc⟩ := hall table entries halloc
    have hint := (hashtblInitRaw_block hinit).1
    have hsmall := hc.small halloc.entriesAt hinit
    refine ⟨hint, ?_⟩
    by_contra hno
    by_cases hlarge : 12 ≤ recordSize
    · have hroom := halloc.entriesAt.roomy hrecord hsmall
      exact not_carved_of_large hroom halloc.entriesAt.1 (by omega) hlarge hinit hc
    · have halloc' := allocations_at hint hrecord (by omega)
      obtain ⟨t, l, hinit, hc⟩ := hall _ _ halloc'
      have hroom := halloc'.entriesAt.roomy hrecord hsmall
      exact not_carved_of_small hroom (by omega) (by omega) (by omega) hinit hc
  · rintro ⟨hint, hcond⟩ table entries halloc
    have hpos := halloc.entriesAt.1
    rcases hcond with rfl | ⟨rfl, hsmall⟩
    · exact carved_of_four (halloc.entriesAt.roomy hrecord (by decide)) hpos hsize hint order table
    · exact carved_of_one (halloc.entriesAt.roomy hrecord hsmall) hpos order table
  · have hsmall := hc.small halloc.entriesAt hinit
    have hroom := halloc.entriesAt.roomy hrecord hsmall
    exact not_carved_of_large hroom halloc.entriesAt.1 hsize hlarge hinit hc

/-- `hashtbl_init_carves` at a table of two entries for addresses of four bytes. -/
theorem hashtbl_init_carves_four : ∃ t l,
    hashtblInitRaw .little (some (2 ^ 50)) (some (2 ^ 46)) 2 4 = some t ∧ Carved .little t l := by
  have halloc : Allocations 2 4 (2 ^ 50) (2 ^ 46) :=
    allocations_at (by decide) (by decide) (by decide)
  exact (hashtbl_init_carves .little 2 4 (by decide) (by decide) ⟨_, _, halloc⟩).1.mpr
    ⟨by decide, .inl rfl⟩ _ _ halloc

/-- A table of two entries for addresses of sixteen bytes has a free list of one entry. -/
theorem hashtbl_init_carves_counterexample :
    ¬ ∀ (order : ByteOrder) (size recordSize table entries : Nat), 1 ≤ size → 4 ≤ recordSize →
      Allocations size recordSize table entries →
      ∃ t l, hashtblInitRaw order (some table) (some entries) size recordSize = some t ∧
        Carved order t l := by
  intro h
  have halloc : Allocations 2 16 (2 ^ 50) (2 ^ 46) :=
    ⟨⟨by decide, by decide, by decide⟩, ⟨by decide, by decide, by decide⟩, .inr (by decide)⟩
  obtain ⟨t, l, hinit, hc⟩ := h .little 2 16 _ _ (by decide) (by decide) halloc
  exact not_carved_of_large (halloc.entriesAt.roomy (by decide) (by decide)) halloc.entriesAt.1
    (by decide) (by decide) hinit hc

end Silksocks
