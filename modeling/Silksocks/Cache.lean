import Silksocks.Common
import Silksocks.Lib.OpenAddressing

/-! The two caches of `cache.c`.  `cacheip` maps the address of an upstream proxy to the credentials
for it, and `cacheapp` maps the hash of a user name to the password of that user.  Both are arrays
of slots with open addressing, where the key 0 marks an empty slot; a slot's value is meaningless
while its key is 0.  A pointer to a C string is the list of its bytes.

Every function takes the mutex of its cache for the whole call, so a call is one atomic step. -/

namespace Silksocks

open OpenAddressing

/-- The credentials of an upstream proxy, the value of a `struct ip2creds`. -/
structure Creds where
  user : List UInt8
  passwd : List UInt8
  deriving DecidableEq, Repr, Inhabited

/-- `struct cache_ip`. -/
abbrev CacheIp := Table UInt32 Creds

/-- `struct cache_ap`. -/
abbrev CacheAp := Table UInt64 (List UInt8)

section Common

variable {K V : Type} [DecidableEq K] [OfNat K 0] [Inhabited V]

/-- The body shared by `cache_initip` and `cache_initapp`: `none` when the function returns 0. -/
def cacheInit (alloc : Nat → Bool) (initsize : Nat) : Option (Table K V) :=
  if initsize < 1 then none else if alloc initsize then some (Table.zeroed initsize) else none

/-- The body shared by `cache_resizeip` and `cache_resizeapp`.  The outer `none` is a loop that does
not end, the inner one a failed allocation.  The loop over the old slots counts in an `int`; past
`intSlots` slots it stops, as it does where the counter wraps. -/
def cacheResize (alloc : Nat → Bool) (put : Table K V → K → V → Option (Table K V))
    (c : Table K V) (newsize : Nat) : Option (Option (Table K V)) :=
  match cacheInit alloc newsize with
  | none => some none
  | some temp => (Table.rehash put temp (c.map.take intSlots)).map some

/-- The load check at the start of a put. -/
def cacheFull (c : Table K V) : Bool := decide (c.size / 2 ≤ c.elements)

/-- A put that ends with the failed allocation of its resize, before it stores anything. -/
def putDropped (alloc : Nat → Bool) (c : Table K V) : Bool := cacheFull c && !alloc (c.size * 2)

/-- The body shared by `cache_putip` and `cache_putapp`: the load check, the resize to twice the
size, and the store. -/
def cachePut (resize : Table K V → Nat → Option (Option (Table K V)))
    (store : Table K V → Option (Table K V)) (c : Table K V) : Option (Table K V) :=
  if cacheFull c then
    match resize c (c.size * 2) with
    | none => none
    | some none => some c
    | some (some c) => store c
  else store c

end Common

/-! ### The upstream credentials -/

/-- Where the probe for an address starts, before the reduction by the table's size. -/
def ipHome (key : UInt32) : Nat := (hash32 key).toNat

/-- `cache_initip`. -/
def cacheInitip (alloc : Nat → Bool) (initsize : Nat) : Option CacheIp := cacheInit alloc initsize

/-- `cache_putip`.  A resize puts every pair of the old table into the new one with `cache_putip`
again, and each of these puts checks the load of the new table.  `depth` bounds how deep such
resizes may nest, and `alloc n` says whether the allocation of `n` slots succeeds. -/
def cachePutip (alloc : Nat → Bool) :
    (depth : Nat) → CacheIp → (key : UInt32) → Creds → Option CacheIp
  | 0, c, key, creds => cachePut (fun _ _ => none) (fun c => c.insert ipHome key creds) c
  | depth + 1, c, key, creds =>
    cachePut (cacheResize alloc (cachePutip alloc depth)) (fun c => c.insert ipHome key creds) c

/-- `cache_resizeip`. -/
def cacheResizeip (alloc : Nat → Bool) (depth : Nat) (c : CacheIp) (newsize : Nat) :
    Option (Option CacheIp) :=
  cacheResize alloc (cachePutip alloc depth) c newsize

/-- `cache_getip`. -/
def cacheGetip (c : CacheIp) (key : UInt32) : Option (Option Creds) := c.get ipHome key

/-! ### The passwords of the users -/

/-- Where the probe for a hash starts. -/
def appHome (hash : UInt64) : Nat := hash.toNat

/-- `cache_initapp`. -/
def cacheInitapp (alloc : Nat → Bool) (initsize : Nat) : Option CacheAp := cacheInit alloc initsize

/-- `cache_putapp_hash`, which checks no load. -/
def cachePutappHash (c : CacheAp) (hash : UInt64) (passwd : List UInt8) : Option CacheAp :=
  c.insert appHome hash passwd

/-- `cache_resizeapp`. -/
def cacheResizeapp (alloc : Nat → Bool) (c : CacheAp) (newsize : Nat) : Option (Option CacheAp) :=
  cacheResize alloc cachePutappHash c newsize

/-- `cache_putapp`. -/
def cachePutapp (alloc : Nat → Bool) (c : CacheAp) (app passwd : List UInt8) : Option CacheAp :=
  cachePut (cacheResizeapp alloc) (fun c => cachePutappHash c (hashStr app) passwd) c

/-- `cache_getapp`. -/
def cacheGetapp (c : CacheAp) (app : List UInt8) : Option (Option (List UInt8)) :=
  c.get appHome (hashStr app)

/-! ### The invariant -/

section Invariant

variable {K V : Type} [DecidableEq K] [OfNat K 0] {home : K → Nat} {c c' : Table K V}
  {alloc : Nat → Bool} {key : K} {val : V}

/-- The invariant of a cache: stored keys are found where they are, the element count bounds the
slots in use, and at most half of the slots are in use. -/
structure CacheInv (home : K → Nat) (c : Table K V) : Prop where
  wf : c.WF home
  elements : Table.occupied c.map ≤ c.elements
  half : 2 * Table.occupied c.map ≤ c.size
  size : 0 < c.size

theorem CacheInv.room (h : CacheInv home c) : Table.occupied c.map < c.size := by
  have := h.half
  have := h.size
  omega

omit [DecidableEq K] in
theorem cacheInit_cases [Inhabited V] {n : Nat} (h : cacheInit alloc n = some c) :
    0 < n ∧ c = Table.zeroed n := by
  rw [cacheInit] at h
  split at h
  · cases h
  split at h
  · cases h
    exact ⟨by omega, rfl⟩
  · cases h

theorem cacheInit_inv [Inhabited V] {n : Nat} (h : cacheInit alloc n = some c) :
    CacheInv home c := by
  obtain ⟨hn, rfl⟩ := cacheInit_cases h
  exact ⟨Table.zeroed_wf home n, by simp, by simp, by simpa using hn⟩

omit [DecidableEq K] in
theorem cacheInit_has [Inhabited V] {n : Nat} (h : cacheInit alloc n = some c) (hkey : key ≠ 0) :
    ¬ c.Has key val := by
  obtain ⟨-, rfl⟩ := cacheInit_cases h
  exact Table.zeroed_has hkey

/-- A table after a resize: it has twice the slots, no more pairs, and the pairs of the first
`intSlots` slots. -/
structure Resized (home : K → Nat) (c c' : Table K V) : Prop where
  wf : c'.WF home
  size : c'.size = c.size * 2
  elements : c'.elements = Table.occupied c'.map
  room : Table.occupied c'.map ≤ Table.occupied c.map
  has : ∀ key val, key ≠ 0 → (c'.Has key val ↔ ⟨key, val⟩ ∈ c.map.take intSlots)

theorem occupied_take (n : Nat) (slots : List (Slot K V)) :
    Table.occupied (slots.take n) ≤ Table.occupied slots :=
  List.Sublist.countP_le (List.take_sublist n slots)

theorem cacheResize_spec [Inhabited V] (h : CacheInv home c) (alloc : Nat → Bool) :
    (alloc (c.size * 2) = false ∧
      cacheResize alloc (Table.insert home) c (c.size * 2) = some none) ∨
    ∃ c', alloc (c.size * 2) = true ∧
      cacheResize alloc (Table.insert home) c (c.size * 2) = some (some c') ∧
      Resized home c c' := by
  have hSize := h.size
  have hRoom := h.room
  have hTake := occupied_take intSlots c.map
  rw [cacheResize, cacheInit, if_neg (by omega)]
  cases hAlloc : alloc (c.size * 2) with
  | false => exact .inl ⟨rfl, rfl⟩
  | true =>
    right
    have hDistinct := h.wf.pairwise.sublist (List.take_sublist intSlots c.map)
    obtain ⟨c', hrun, hc'⟩ := Table.rehash_spec (T := (Table.zeroed (c.size * 2) : Table K V))
      (Table.zeroed_wf home _) (by simp) (by simp; omega) hDistinct
    refine ⟨c', rfl, ?_, hc'.wf, by simpa using hc'.size, hc'.elements, ?_, fun key val hkey => ?_⟩
    · simp only [if_true, hrun, Option.map_some]
    · have := hc'.room
      simp at this
      omega
    · rw [hc'.has key val hkey]
      simp [Table.zeroed_has hkey]

/-- The puts of a rehash never find the new table full, so it is as good to rehash with a `put` that
checks the load as with one that does not. -/
theorem cacheResize_congr [Inhabited V] (h : CacheInv home c)
    {put : Table K V → K → V → Option (Table K V)}
    (hput : ∀ T key val, cacheFull T = false → put T key val = T.insert home key val) :
    cacheResize alloc put c (c.size * 2) =
      cacheResize alloc (Table.insert home) c (c.size * 2) := by
  rw [cacheResize, cacheResize, cacheInit, if_neg (by have := h.size; omega)]
  cases alloc (c.size * 2) with
  | false => rfl
  | true =>
    simp only [if_true]
    have hTake := occupied_take intSlots c.map
    have hRoom := h.room
    rw [Table.rehash_congr (c.size * 2) c.size
      (fun T key val hsize hlt => hput T key val ?_) (by simp) (by simp; omega)]
    simp only [cacheFull, decide_eq_false_iff_not]
    omega

theorem Resized.inv (h : Resized home c c') (hc : CacheInv home c) : CacheInv home c' := by
  have := h.size
  have := h.room
  have := hc.half
  have := hc.size
  exact ⟨h.wf, h.elements.ge, by omega, by omega⟩

theorem Resized.has_old (h : Resized home c c') (hkey : key ≠ 0) (hHas : c'.Has key val) :
    c.Has key val :=
  List.mem_of_mem_take ((h.has key val hkey).mp hHas)

/-- Below `intSlots` slots a resize keeps every pair. -/
theorem Resized.has_iff (h : Resized home c c') (hBound : c.size < intSlots) (hkey : key ≠ 0) :
    c'.Has key val ↔ c.Has key val := by
  rw [h.has key val hkey, List.take_of_length_le (by rw [Table.size] at hBound; omega)]
  rfl

/-- What a put that is not dropped does: an insertion, into the table itself when its load allows
it and into the resized table otherwise. -/
def Stored (home : K → Nat) (c : Table K V) (key : K) (val : V) (c' : Table K V) : Prop :=
  ∃ c1, ((c1 = c ∧ cacheFull c = false) ∨ Resized home c c1) ∧ c1.insert home key val = some c'

namespace Stored

theorem inv (h : Stored home c key val c') (hc : CacheInv home c) : CacheInv home c' := by
  obtain ⟨c1, h1, hi⟩ := h
  have hc1 : CacheInv home c1 ∧ 2 * (Table.occupied c1.map + 1) ≤ c1.size := by
    rcases h1 with ⟨rfl, hfull⟩ | h1
    · have hlt : ¬ c1.size / 2 ≤ c1.elements := by simpa [cacheFull] using hfull
      have := hc.elements
      exact ⟨hc, by omega⟩
    · have := h1.room
      have := h1.size
      have := hc.half
      have := hc.size
      exact ⟨h1.inv hc, by omega⟩
  obtain ⟨hc1, hhalf⟩ := hc1
  have hocc := (Table.insert_occupied hc1.size hi).1
  have hgrow := Table.insert_elements hi
  have hsize := Table.insert_size hi
  have := hc1.elements
  refine ⟨Table.insert_wf hc1.wf hc1.size hi, by omega, by omega, ?_⟩
  rw [hsize]
  exact hc1.size

theorem size_le (h : Stored home c key val c') : c.size ≤ c'.size := by
  obtain ⟨c1, h1, hi⟩ := h
  rw [Table.insert_size hi]
  rcases h1 with ⟨rfl, -⟩ | h1
  · exact Nat.le_refl _
  · have := h1.size
    omega

/-- A pair in the table after a put is the new one, or has another key and was there before. -/
theorem has_old (h : Stored home c key val c') (hc : CacheInv home c) {k : K} {v : V} (hk : k ≠ 0)
    (hHas : c'.Has k v) : (k = key ∧ v = val) ∨ (k ≠ key ∧ c.Has k v) := by
  obtain ⟨c1, h1, hi⟩ := h
  have hc1 : CacheInv home c1 := by
    rcases h1 with ⟨rfl, -⟩ | h1
    · exact hc
    · exact h1.inv hc
  have := (Table.insert_has hc1.wf hc1.size hi hk).mp hHas
  split at this
  · rename_i hkey
    exact .inl ⟨hkey, this⟩
  · rename_i hkey
    rcases h1 with ⟨rfl, -⟩ | h1
    · exact .inr ⟨hkey, this⟩
    · exact .inr ⟨hkey, h1.has_old hk this⟩

/-- Below `intSlots` slots a put changes the value of its own key only. -/
theorem has_iff (h : Stored home c key val c') (hc : CacheInv home c) (hBound : c.size < intSlots)
    {k : K} {v : V} (hk : k ≠ 0) : c'.Has k v ↔ if k = key then v = val else c.Has k v := by
  obtain ⟨c1, h1, hi⟩ := h
  rcases h1 with ⟨rfl, -⟩ | h1
  · exact Table.insert_has hc.wf hc.size hi hk
  · have hc1 := h1.inv hc
    rw [Table.insert_has hc1.wf hc1.size hi hk, h1.has_iff hBound hk]

end Stored

/-- The two ways in which a put ends. -/
def PutSpec (home : K → Nat) (alloc : Nat → Bool) (c : Table K V) (key : K) (val : V)
    (result : Option (Table K V)) : Prop :=
  (putDropped alloc c = true ∧ result = some c) ∨
    ∃ c', putDropped alloc c = false ∧ result = some c' ∧ Stored home c key val c'

theorem cachePut_spec [Inhabited V] (hc : CacheInv home c) (alloc : Nat → Bool) (key : K)
    (val : V) {resize : Table K V → Nat → Option (Option (Table K V))}
    (hresize : resize c (c.size * 2) = cacheResize alloc (Table.insert home) c (c.size * 2)) :
    PutSpec home alloc c key val (cachePut resize (fun c => c.insert home key val) c) := by
  rw [cachePut, hresize]
  cases hfull : cacheFull c with
  | false =>
    obtain ⟨c', hi⟩ := Table.insert_total home hc.room key val
    refine .inr ⟨c', by simp [putDropped, hfull], ?_, c, .inl ⟨rfl, hfull⟩, hi⟩
    rw [if_neg (by decide), hi]
  | true =>
    rw [if_pos rfl]
    rcases cacheResize_spec hc alloc with ⟨hAlloc, hr⟩ | ⟨c1, hAlloc, hr, h1⟩
    · exact .inl ⟨by simp [putDropped, hfull, hAlloc], by rw [hr]⟩
    · obtain ⟨c', hi⟩ := Table.insert_total home (h1.inv hc).room key val
      exact .inr ⟨c', by simp [putDropped, hfull, hAlloc], by rw [hr]; exact hi, c1, .inr h1, hi⟩

end Invariant

theorem cachePutip_of_not_full {alloc : Nat → Bool} (depth : Nat) {c : CacheIp} {key : UInt32}
    {creds : Creds} (h : cacheFull c = false) :
    cachePutip alloc depth c key creds = c.insert ipHome key creds := by
  cases depth <;> simp [cachePutip, cachePut, h]

/-- A rehash of the upstream cache never resizes the new table: it is the same at every depth. -/
theorem cacheResizeip_eq {c : CacheIp} (hc : CacheInv ipHome c) (alloc : Nat → Bool) (depth : Nat) :
    cacheResizeip alloc depth c (c.size * 2) =
      cacheResize alloc (Table.insert ipHome) c (c.size * 2) :=
  cacheResize_congr hc fun _ _ _ hfull => cachePutip_of_not_full depth hfull

theorem cachePutip_spec {c : CacheIp} (hc : CacheInv ipHome c) (alloc : Nat → Bool) (depth : Nat)
    (key : UInt32) (creds : Creds) :
    PutSpec ipHome alloc c key creds (cachePutip alloc (depth + 1) c key creds) :=
  cachePut_spec hc alloc key creds (cacheResizeip_eq hc alloc depth)

/-- One level of resizing is enough for `cache_putip`. -/
theorem cachePutip_depth {c : CacheIp} (hc : CacheInv ipHome c) (alloc : Nat → Bool) (depth : Nat)
    (key : UInt32) (creds : Creds) :
    cachePutip alloc (depth + 1) c key creds = cachePutip alloc 1 c key creds := by
  have h := (cacheResizeip_eq hc alloc depth).trans (cacheResizeip_eq hc alloc 0).symm
  simp only [cacheResizeip] at h
  rw [cachePutip, cachePutip, cachePut, cachePut, h]

/-- A put that ends within some depth is one of the two of `PutSpec`. -/
theorem cachePutip_of_some {alloc : Nat → Bool} {depth : Nat} {c c' : CacheIp} {key : UInt32}
    {creds : Creds} (hc : CacheInv ipHome c) (h : cachePutip alloc depth c key creds = some c') :
    PutSpec ipHome alloc c key creds (some c') := by
  cases depth with
  | succ depth => exact h ▸ cachePutip_spec hc alloc depth key creds
  | zero =>
    cases hfull : cacheFull c with
    | true => simp [cachePutip, cachePut, hfull] at h
    | false =>
      rw [cachePutip_of_not_full 0 hfull, ← cachePutip_of_not_full 1 hfull] at h
      exact h ▸ cachePutip_spec hc alloc 0 key creds

theorem cachePutapp_spec {c : CacheAp} (hc : CacheInv appHome c) (alloc : Nat → Bool)
    (app passwd : List UInt8) :
    PutSpec appHome alloc c (hashStr app) passwd (cachePutapp alloc c app passwd) :=
  cachePut_spec hc alloc (hashStr app) passwd rfl

end Silksocks
