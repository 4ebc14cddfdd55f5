import Mathlib.Data.List.Dedup
import Mathlib.Data.List.Induction
import Mathlib.Data.List.Perm.Subperm
import Silksocks.CacheMap

/-! How far `cacheip` grows with the keys that are put into it.  The element count and the size are
bounded by the number of different keys, unless the key 0 is put again: a put never finds this key,
so that it counts one more element each time. -/

namespace Silksocks

open OpenAddressing

/-- `cacheip` after an initialisation and puts, all of whose allocations succeed. -/
def cacheipPuts (depth initsize : Nat) (puts : List (UInt32 × Creds)) : Option CacheIp :=
  (cacheInitip (fun _ => true) initsize).bind fun c =>
    puts.foldlM (fun c put => cachePutip (fun _ => true) depth c put.1 put.2) c

/-- The number of different keys. -/
def distinct (keys : List UInt32) : Nat := keys.dedup.length

/-- What the keys that were put allow of a table. -/
structure GrowthBound (initsize : Nat) (keys : List UInt32) (c : CacheIp) : Prop where
  elements : c.elements ≤ distinct keys
  size : c.size ≤ max initsize (4 * distinct keys + 2)

/-- All tables up to the one that `puts` lead to are within the bound. -/
def PutsBounded (depth initsize : Nat) (puts : List (UInt32 × Creds)) : Prop :=
  ∀ before, before <+: puts → ∃ c, cacheipPuts depth initsize before = some c ∧
    GrowthBound initsize (before.map Prod.fst) c

/-- A put that does not count the key 0 again: its key is another one, or it resizes the table, or
the table counts no more elements than it has slots in use. -/
def CountsOnce (c : CacheIp) (key : UInt32) : Prop :=
  key ≠ 0 ∨ cacheFull c = true ∨ c.elements ≤ Table.occupied c.map

/-- No put of `puts` counts the key 0 again. -/
def PutsCountOnce (depth initsize : Nat) (puts : List (UInt32 × Creds)) : Prop :=
  ∀ before put, before ++ [put] <+: puts → ∀ c, cacheipPuts depth initsize before = some c →
    CountsOnce c put.1

section Growth

variable {depth initsize : Nat} {keys l : List UInt32} {key : UInt32} {creds : Creds}
  {c c' : CacheIp} {puts : List (UInt32 × Creds)}

theorem length_le_distinct (hnodup : l.Nodup) (h : ∀ k ∈ l, k ∈ keys) : l.length ≤ distinct keys :=
  (hnodup.subperm fun k hk => List.mem_dedup.mpr (h k hk)).length_le

theorem distinct_le_length (h : ∀ k ∈ keys, k ∈ l) : distinct keys ≤ l.length :=
  ((List.nodup_dedup keys).subperm fun k hk => h k (List.mem_dedup.mp hk)).length_le

theorem distinct_mono (h : l ⊆ keys) : distinct l ≤ distinct keys :=
  length_le_distinct (List.nodup_dedup l) fun _ hk => h (List.mem_dedup.mp hk)

/-! ### The bound -/

/-- A table whose keys are among those that were put, and whose element count is that of its slots
in use, and one more at most for the key 0. -/
structure Grown (initsize : Nat) (keys : List UInt32) (c : CacheIp) : Prop where
  inv : CacheInv ipHome c
  stored : ∀ k ∈ c.keys, k ∈ keys
  counted : c.elements ≤ Table.occupied c.map + if 0 ∈ keys then 1 else 0
  size : c.size ≤ max initsize (4 * distinct keys + 2)

theorem Grown.elements (h : Grown initsize keys c) : c.elements ≤ distinct keys := by
  have hcounted := h.counted
  rw [← Table.length_keys] at hcounted
  split at hcounted
  · rename_i hzero
    have hnodup : (0 :: c.keys).Nodup :=
      List.nodup_cons.mpr ⟨fun hmem => (Table.mem_keys.mp hmem).1 rfl, h.inv.wf.nodup_keys⟩
    have hle := length_le_distinct hnodup (List.forall_mem_cons.mpr ⟨hzero, h.stored⟩)
    exact Nat.le_trans hcounted hle
  · exact Nat.le_trans hcounted (length_le_distinct h.inv.wf.nodup_keys h.stored)

/-- An insertion into a table whose count is exact but for the key 0, which it does not count
twice. -/
theorem counted_insert (hSize : 0 < c.size) (hi : c.insert ipHome key creds = some c')
    (hcounted : c.elements ≤ Table.occupied c.map + if 0 ∈ keys then 1 else 0)
    (honce : key ≠ 0 ∨ c.elements ≤ Table.occupied c.map) :
    c'.elements ≤ Table.occupied c'.map + if 0 ∈ keys ++ [key] then 1 else 0 := by
  by_cases hkey : key = 0
  · subst hkey
    obtain ⟨helements, hocc⟩ := Table.insert_zero hSize hi
    have hexact := honce.resolve_left fun hne => hne rfl
    rw [if_pos (by simp), helements, hocc]
    exact Nat.succ_le_succ hexact
  · have hocc := (Table.insert_occupied hSize hi).2 hkey
    have hmem : 0 ∈ keys ++ [key] ↔ 0 ∈ keys := by simp [Ne.symm hkey]
    simp only [hmem]
    omega

theorem Grown.init (h : cacheInitip (fun _ => true) initsize = some c) : Grown initsize [] c := by
  have hinv : CacheInv ipHome c := cacheInit_inv h
  obtain ⟨-, rfl⟩ := cacheInit_cases h
  refine ⟨hinv, fun k hk => ?_, by simp, ?_⟩
  · obtain ⟨hne, v, hv⟩ := Table.mem_keys.mp hk
    exact absurd hv (Table.zeroed_has hne)
  · rw [Table.zeroed_size]
    exact Nat.le_max_left _ _

theorem Grown.stored_put (h : Grown initsize keys c) (hst : Stored ipHome c key creds c')
    {k : UInt32} (hk : k ∈ c'.keys) : k ∈ keys ++ [key] := by
  obtain ⟨hne, v, hv⟩ := Table.mem_keys.mp hk
  rcases hst.has_old h.inv hne hv with ⟨rfl, -⟩ | ⟨-, hold⟩
  · exact List.mem_append_right _ (List.mem_singleton.mpr rfl)
  · exact List.mem_append_left _ (h.stored k (Table.mem_keys.mpr ⟨hne, v, hold⟩))

/-- A put into a table that is not full. -/
theorem Grown.insert (h : Grown initsize keys c) (hfull : cacheFull c = false)
    (honce : CountsOnce c key) (hi : c.insert ipHome key creds = some c') :
    Grown initsize (keys ++ [key]) c' := by
  have hst : Stored ipHome c key creds c' := ⟨c, .inl ⟨rfl, hfull⟩, hi⟩
  have hexact := honce.imp_right fun honce => honce.resolve_left (by simp [hfull])
  refine ⟨hst.inv h.inv, fun _ => h.stored_put hst,
    counted_insert h.inv.size hi h.counted hexact, ?_⟩
  have hmono := distinct_mono (List.subset_append_left keys [key])
  have hsize := h.size
  rw [Table.insert_size hi]
  omega

/-- A put into a full table.  The resize counts the elements afresh, without the key 0. -/
theorem Grown.resized (h : Grown initsize keys c) (hfull : cacheFull c = true) {c1 : CacheIp}
    (hres : Resized ipHome c c1) (hi : c1.insert ipHome key creds = some c') :
    Grown initsize (keys ++ [key]) c' := by
  have hst : Stored ipHome c key creds c' := ⟨c1, .inr hres, hi⟩
  have hexact : c1.elements ≤ Table.occupied c1.map := hres.elements.le
  refine ⟨hst.inv h.inv, fun _ => h.stored_put hst,
    counted_insert (hres.inv h.inv).size hi (Nat.le_add_right_of_le hexact) (.inr hexact), ?_⟩
  -- a full table has at most one slot more than twice the elements it counts
  have helements := h.elements
  have hmono := distinct_mono (List.subset_append_left keys [key])
  rw [cacheFull, decide_eq_true_eq] at hfull
  rw [Table.insert_size hi, hres.size]
  omega

theorem Grown.put (h : Grown initsize keys c) (creds : Creds) (honce : CountsOnce c key) :
    ∃ c', cachePutip (fun _ => true) (depth + 1) c key creds = some c' ∧
      Grown initsize (keys ++ [key]) c' := by
  rcases cachePutip_spec h.inv (fun _ => true) depth key creds with ⟨hdrop, -⟩ | ⟨c', -, hc', hst⟩
  · simp [putDropped] at hdrop
  refine ⟨c', hc', ?_⟩
  cases hfull : cacheFull c with
  | false =>
    rw [cachePutip_of_not_full _ hfull] at hc'
    exact h.insert hfull honce hc'
  | true =>
    obtain ⟨c1, ⟨rfl, hnot⟩ | hres, hi⟩ := hst
    · rw [hfull] at hnot
      cases hnot
    · exact h.resized hfull hres hi

/-! ### Runs of puts -/

theorem cacheipPuts_append_singleton (depth initsize : Nat) (puts : List (UInt32 × Creds))
    (put : UInt32 × Creds) :
    cacheipPuts depth initsize (puts ++ [put]) = (cacheipPuts depth initsize puts).bind fun c =>
      cachePutip (fun _ => true) depth c put.1 put.2 := by
  simp only [cacheipPuts, List.foldlM_append, Option.bind_assoc]
  congr
  funext c
  cases puts.foldlM (fun c put => cachePutip (fun _ => true) depth c put.1 put.2) c <;> simp

theorem PutsCountOnce.of_prefix {before : List (UInt32 × Creds)}
    (h : PutsCountOnce depth initsize puts) (hbefore : before <+: puts) :
    PutsCountOnce depth initsize before :=
  fun earlier put hearlier => h earlier put (hearlier.trans hbefore)

/-- Puts of which none counts the key 0 again lead to a table within the bound. -/
theorem cacheipPuts_grown (hinit : 1 ≤ initsize) (h : PutsCountOnce (depth + 1) initsize puts) :
    ∃ c, cacheipPuts (depth + 1) initsize puts = some c ∧
      Grown initsize (puts.map Prod.fst) c := by
  induction puts using List.reverseRecOn with
  | nil =>
    have hc : cacheInitip (fun _ => true) initsize = some (Table.zeroed initsize) := by
      rw [cacheInitip, cacheInit, if_neg (by omega), if_pos rfl]
    exact ⟨_, by simp [cacheipPuts, hc], Grown.init hc⟩
  | append_singleton puts put ih =>
    obtain ⟨c, hc, hgrown⟩ := ih (h.of_prefix (List.prefix_append _ _))
    obtain ⟨c', hc', hgrown'⟩ := hgrown.put put.2 (h puts put (List.prefix_refl _) c hc)
    refine ⟨c', ?_, by simpa using hgrown'⟩
    rw [cacheipPuts_append_singleton, hc]
    exact hc'

/-! ### The bound fails otherwise -/

theorem cacheipPuts_run (h : cacheipPuts (depth + 1) initsize puts = some c) :
    CacheipRun initsize c puts.reverse := by
  induction puts using List.reverseRecOn generalizing c with
  | nil => exact .init (by simpa [cacheipPuts] using h)
  | append_singleton puts put ih =>
    rw [cacheipPuts_append_singleton, Option.bind_eq_some_iff] at h
    obtain ⟨c', hc', hput⟩ := h
    simpa [putDropped] using (ih hc').put hput

/-- Below `intSlots` slots a table stores all the keys that were put into it, but for 0. -/
theorem keys_of_cacheipPuts (h : cacheipPuts (depth + 1) initsize puts = some c)
    (hbound : c.size < intSlots) {put : UInt32 × Creds} (hput : put ∈ puts) (hne : put.1 ≠ 0) :
    put.1 ∈ c.keys := by
  have hsome : (puts.reverse.lookup put.1).isSome := by
    rw [List.lookup_isSome_iff]
    exact ⟨put, List.mem_reverse.mpr hput, beq_self_eq_true _⟩
  obtain ⟨creds, hcreds⟩ := Option.isSome_iff_exists.mp hsome
  exact Table.mem_keys.mpr ⟨hne, creds, ((cacheipPuts_run h).inv.2 hbound _ _ hne).mpr hcreds⟩

/-- A put of the key 0 that counts it again leaves more elements than there are different keys. -/
theorem countsOnce_of_elements (h : cacheipPuts (depth + 1) initsize puts = some c)
    (hbound : c.size < intSlots)
    (hput : cachePutip (fun _ => true) (depth + 1) c key creds = some c')
    (helements : c'.elements ≤ distinct (puts.map Prod.fst ++ [key])) : CountsOnce c key := by
  by_cases hkey : key = 0
  · subst hkey
    refine .inr ?_
    by_contra hagain
    rw [not_or, Bool.not_eq_true] at hagain
    obtain ⟨hfull, hcounted⟩ := hagain
    rw [cachePutip_of_not_full _ hfull] at hput
    have hgrow := (Table.insert_zero (cacheipPuts_run h).inv.1.size hput).1
    have hle : distinct (puts.map Prod.fst ++ [0]) ≤ (0 :: c.keys).length := by
      refine distinct_le_length fun k hk => ?_
      by_cases hne : k = 0
      · exact hne ▸ List.mem_cons_self
      · have hk : k ∈ puts.map Prod.fst := by simpa [hne] using hk
        obtain ⟨put, hmem, rfl⟩ := List.mem_map.mp hk
        exact List.mem_cons_of_mem _ (keys_of_cacheipPuts h hbound hmem hne)
    rw [List.length_cons, Table.length_keys] at hle
    omega
  · exact .inl hkey

theorem PutsBounded.countOnce (h : PutsBounded (depth + 1) initsize puts)
    (hbound : max initsize (4 * distinct (puts.map Prod.fst) + 2) < intSlots) :
    PutsCountOnce (depth + 1) initsize puts := by
  intro before put hprefix c hc
  have hbefore : before <+: puts := (List.prefix_append _ _).trans hprefix
  obtain ⟨c', hc', hgrown'⟩ := h _ hprefix
  obtain ⟨_, hsame, hgrown⟩ := h before hbefore
  obtain rfl : c = _ := Option.some.inj (hc.symm.trans hsame)
  have hsize := hgrown.size
  have hmono := distinct_mono (hbefore.map Prod.fst).subset
  rw [cacheipPuts_append_singleton, hc] at hc'
  exact countsOnce_of_elements hc (by omega) hc' (by simpa using hgrown'.elements)

end Growth

/-! ### The growth of `cacheip` -/

/-- Puts of which none counts the key 0 again keep the table within the bound, whatever their keys
are.  As long as the bound is less than `intSlots`, no other puts do. -/
theorem cacheip_growth (depth initsize : Nat) (hinit : 1 ≤ initsize)
    (puts : List (UInt32 × Creds)) :
    (PutsCountOnce (depth + 1) initsize puts → PutsBounded (depth + 1) initsize puts) ∧
    (max initsize (4 * distinct (puts.map Prod.fst) + 2) < intSlots →
      PutsBounded (depth + 1) initsize puts → PutsCountOnce (depth + 1) initsize puts) := by
  refine ⟨fun h before hbefore => ?_, fun hbound h => h.countOnce hbound⟩
  obtain ⟨c, hc, hgrown⟩ := cacheipPuts_grown hinit (h.of_prefix hbefore)
  exact ⟨c, hc, hgrown.elements, hgrown.size⟩

/-- `cacheip_growth` at two puts of one key other than 0. -/
theorem cacheip_growth_twice :
    PutsBounded 1 1 [(1, ⟨[97], [98]⟩), (1, ⟨[97], [99]⟩)] := by
  refine (cacheip_growth 0 1 (by decide) _).1 fun before put hprefix c _ => .inl ?_
  have hmem : put ∈ [((1 : UInt32), (⟨[97], [98]⟩ : Creds)), (1, ⟨[97], [99]⟩)] :=
    hprefix.subset (by simp)
  rcases List.mem_pair.mp hmem with rfl | rfl <;> decide

/-- Four puts of the key 0 alone lead from one slot to eight. -/
theorem cacheip_growth_counterexample :
    ¬ ∀ (initsize : Nat) (puts : List (UInt32 × Creds)), 1 ≤ initsize →
      PutsBounded 1 initsize puts := by
  intro h
  obtain ⟨c, hc, hbound⟩ :=
    h 1 (List.replicate 4 (0, ⟨[97], [98]⟩)) (by decide) _ (List.prefix_refl _)
  have hsize : c.size = 8 := by
    cases hc
    rfl
  have := hbound.size
  have hdistinct : distinct ((List.replicate 4 ((0 : UInt32), (⟨[97], [98]⟩ : Creds))).map
      Prod.fst) = 1 := rfl
  omega

end Silksocks
