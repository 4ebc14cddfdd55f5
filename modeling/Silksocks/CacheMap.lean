import Silksocks.Cache

/-! The two caches as finite maps.  A run starts with an initialised table and puts pairs into it,
with any allocations of its resizes failing; its log holds the puts that were not dropped.  At every
table of a run a get answers from the log, every call ends, a dropped put changes nothing, and a
resize changes the answer of no get. -/

namespace Silksocks

open OpenAddressing

section Gets

variable {K V : Type} [DecidableEq K] [OfNat K 0] {home : K → Nat} {c c' : Table K V} {key : K}

theorem CacheInv.get_total (hc : CacheInv home c) (key : K) : ∃ r, c.get home key = some r := by
  obtain ⟨id, hid⟩ := Table.find_total home hc.room key
  exact ⟨_, by rw [Table.get, hid, Option.map_some]⟩

/-- A get of the key that marks empty slots misses. -/
theorem CacheInv.get_zero (hc : CacheInv home c) : c.get home 0 = some none := by
  obtain ⟨r, hr⟩ := hc.get_total 0
  cases r with
  | none => exact hr
  | some v => exact absurd rfl (Table.has_of_get hr).1

/-- A table that stores what `m` says about a key answers so. -/
theorem CacheInv.get_eq (hc : CacheInv home c) (hkey : key ≠ 0) {m : Option V}
    (h : ∀ v, c.Has key v ↔ m = some v) : c.get home key = some m := by
  obtain ⟨r, hr, hspec⟩ := Table.get_spec hc.wf hc.room hkey
  rw [hr]
  exact congrArg some (Option.ext fun v => (hspec v).trans (h v))

/-- Below `intSlots` slots a resize changes the answer of no get. -/
theorem Resized.get_eq (h : Resized home c c') (hc : CacheInv home c) (hBound : c.size < intSlots)
    (key : K) : c'.get home key = c.get home key := by
  by_cases hkey : key = 0
  · rw [hkey, (h.inv hc).get_zero, hc.get_zero]
  · obtain ⟨r, hr, hspec⟩ := Table.get_spec hc.wf hc.room hkey
    rw [hr]
    exact (h.inv hc).get_eq hkey fun v => (h.has_iff hBound hkey).trans (hspec v).symm

theorem lookup_put {log : List (K × V)} {val : V} (hc : CacheInv home c) (hBound : c.size < intSlots)
    (hlog : ∀ k v, k ≠ 0 → (c.Has k v ↔ log.lookup k = some v)) (h : Stored home c key val c')
    {k : K} {v : V} (hk : k ≠ 0) :
    c'.Has k v ↔ ((key, val) :: log).lookup k = some v := by
  rw [h.has_iff hc hBound hk, List.lookup_cons]
  by_cases hkey : k = key
  · simp [hkey, eq_comm]
  · simp only [hkey, if_false, beq_eq_false_iff_ne.mpr hkey]
    exact hlog k v hk

end Gets

/-! ### The upstream credentials -/

/-- The tables of `cacheip` from an initialised one on, with the puts that stored their pair, the
latest first. -/
inductive CacheipRun (initsize : Nat) : CacheIp → List (UInt32 × Creds) → Prop
  | init {alloc : Nat → Bool} {c : CacheIp} (h : cacheInitip alloc initsize = some c) :
      CacheipRun initsize c []
  | put {alloc : Nat → Bool} {depth : Nat} {c c' : CacheIp} {log : List (UInt32 × Creds)}
      {key : UInt32} {creds : Creds} (run : CacheipRun initsize c log)
      (h : cachePutip alloc depth c key creds = some c') :
      CacheipRun initsize c' (if putDropped alloc c then log else (key, creds) :: log)

/-- What the functions of `cacheip` do at a table `c` that the puts of `log` led to. -/
structure CacheipRefines (c : CacheIp) (log : List (UInt32 × Creds)) : Prop where
  get : ∀ key, key ≠ 0 → cacheGetip c key = some (log.lookup key)
  dropped : ∀ alloc depth key creds, putDropped alloc c = true →
    cachePutip alloc (depth + 1) c key creds = some c
  emptySlot : ∃ id < c.size, c.keyAt id = 0
  getEnds : ∀ key, ∃ r, cacheGetip c key = some r
  putEnds : ∀ alloc key creds, ∃ c', ∀ depth, cachePutip alloc (depth + 1) c key creds = some c'
  /-- A rehash runs to its end even when none of its puts may resize. -/
  rehashEnds : ∀ alloc, ∃ r, cacheResizeip alloc 0 c (c.size * 2) = some r
  resize : ∀ alloc depth c', cacheResizeip alloc depth c (c.size * 2) = some (some c') →
    ∀ key, cacheGetip c' key = cacheGetip c key

theorem CacheipRun.inv {initsize : Nat} {c : CacheIp} {log : List (UInt32 × Creds)}
    (run : CacheipRun initsize c log) :
    CacheInv ipHome c ∧ (c.size < intSlots →
      ∀ key creds, key ≠ 0 → (c.Has key creds ↔ log.lookup key = some creds)) := by
  induction run with
  | init h =>
    refine ⟨cacheInit_inv h, fun _ key creds hkey => ?_⟩
    simp [cacheInit_has h hkey]
  | put run h ih =>
    obtain ⟨hc, hlog⟩ := ih
    rcases cachePutip_of_some hc h with ⟨hdrop, hsame⟩ | ⟨c', hdrop, hc', hst⟩
    · rw [if_pos hdrop]
      cases hsame
      exact ⟨hc, hlog⟩
    · rw [if_neg (by simp [hdrop])]
      cases hc'
      refine ⟨hst.inv hc, fun hBound key creds hkey => ?_⟩
      have hold : _ < intSlots := Nat.lt_of_le_of_lt hst.size_le hBound
      exact lookup_put hc hold (hlog hold) hst hkey

theorem CacheipRun.refines {initsize : Nat} {c : CacheIp} {log : List (UInt32 × Creds)}
    (run : CacheipRun initsize c log) (hBound : c.size < intSlots) : CacheipRefines c log := by
  obtain ⟨hc, hlog⟩ := run.inv
  refine ⟨fun key hkey => hc.get_eq hkey (hlog hBound key · hkey),
    fun alloc depth key creds hdrop => ?_, Table.exists_empty hc.room, hc.get_total,
    fun alloc key creds => ?_, fun alloc => ?_, fun alloc depth c' hr key => ?_⟩
  · rcases cachePutip_spec hc alloc depth key creds with ⟨-, h⟩ | ⟨_, hno, -⟩
    · exact h
    · simp [hdrop] at hno
  · rcases cachePutip_spec hc alloc 0 key creds with ⟨-, h⟩ | ⟨c', -, h, -⟩
    · exact ⟨c, fun depth => (cachePutip_depth hc alloc depth key creds).trans h⟩
    · exact ⟨c', fun depth => (cachePutip_depth hc alloc depth key creds).trans h⟩
  · rw [cacheResizeip_eq hc]
    rcases cacheResize_spec hc alloc with ⟨-, h⟩ | ⟨c', -, h, -⟩
    · exact ⟨_, h⟩
    · exact ⟨_, h⟩
  · rw [cacheResizeip_eq hc] at hr
    rcases cacheResize_spec hc alloc with ⟨-, h⟩ | ⟨c1, -, h, hres⟩
    · rw [h] at hr
      cases hr
    · rw [h] at hr
      cases hr
      exact hres.get_eq hc hBound key

/-! ### The passwords of the users -/

/-- The tables of `cacheapp` from an initialised one on, with the puts that stored their pair, the
latest first.  The keys are the hashes of the user names. -/
inductive CacheappRun (initsize : Nat) : CacheAp → List (UInt64 × List UInt8) → Prop
  | init {alloc : Nat → Bool} {c : CacheAp} (h : cacheInitapp alloc initsize = some c) :
      CacheappRun initsize c []
  | put {alloc : Nat → Bool} {c c' : CacheAp} {log : List (UInt64 × List UInt8)}
      {app passwd : List UInt8} (run : CacheappRun initsize c log)
      (h : cachePutapp alloc c app passwd = some c') :
      CacheappRun initsize c' (if putDropped alloc c then log else (hashStr app, passwd) :: log)

/-- What the functions of `cacheapp` do at a table `c` that the puts of `log` led to. -/
structure CacheappRefines (c : CacheAp) (log : List (UInt64 × List UInt8)) : Prop where
  get : ∀ app, hashStr app ≠ 0 → cacheGetapp c app = some (log.lookup (hashStr app))
  dropped : ∀ alloc app passwd, putDropped alloc c = true →
    cachePutapp alloc c app passwd = some c
  emptySlot : ∃ id < c.size, c.keyAt id = 0
  getEnds : ∀ app, ∃ r, cacheGetapp c app = some r
  putEnds : ∀ alloc app passwd, ∃ c', cachePutapp alloc c app passwd = some c'
  rehashEnds : ∀ alloc, ∃ r, cacheResizeapp alloc c (c.size * 2) = some r
  resize : ∀ alloc c', cacheResizeapp alloc c (c.size * 2) = some (some c') →
    ∀ app, cacheGetapp c' app = cacheGetapp c app

theorem CacheappRun.inv {initsize : Nat} {c : CacheAp} {log : List (UInt64 × List UInt8)}
    (run : CacheappRun initsize c log) :
    CacheInv appHome c ∧ (c.size < intSlots →
      ∀ key passwd, key ≠ 0 → (c.Has key passwd ↔ log.lookup key = some passwd)) := by
  induction run with
  | init h =>
    refine ⟨cacheInit_inv h, fun _ key passwd hkey => ?_⟩
    simp [cacheInit_has h hkey]
  | put run h ih =>
    obtain ⟨hc, hlog⟩ := ih
    rcases h ▸ cachePutapp_spec hc _ _ _ with ⟨hdrop, hsame⟩ | ⟨c', hdrop, hc', hst⟩
    · rw [if_pos hdrop]
      cases hsame
      exact ⟨hc, hlog⟩
    · rw [if_neg (by simp [hdrop])]
      cases hc'
      refine ⟨hst.inv hc, fun hBound key passwd hkey => ?_⟩
      have hold : _ < intSlots := Nat.lt_of_le_of_lt hst.size_le hBound
      exact lookup_put hc hold (hlog hold) hst hkey

theorem CacheappRun.refines {initsize : Nat} {c : CacheAp} {log : List (UInt64 × List UInt8)}
    (run : CacheappRun initsize c log) (hBound : c.size < intSlots) : CacheappRefines c log := by
  obtain ⟨hc, hlog⟩ := run.inv
  refine ⟨fun app hkey => hc.get_eq hkey (hlog hBound _ · hkey),
    fun alloc app passwd hdrop => ?_, Table.exists_empty hc.room, fun app => hc.get_total _,
    fun alloc app passwd => ?_, fun alloc => ?_, fun alloc c' hr app => ?_⟩
  · rcases cachePutapp_spec hc alloc app passwd with ⟨-, h⟩ | ⟨_, hno, -⟩
    · exact h
    · simp [hdrop] at hno
  · rcases cachePutapp_spec hc alloc app passwd with ⟨-, h⟩ | ⟨c', -, h, -⟩
    · exact ⟨_, h⟩
    · exact ⟨_, h⟩
  · rcases cacheResize_spec hc alloc with ⟨-, h⟩ | ⟨c', -, h, -⟩
    · exact ⟨_, h⟩
    · exact ⟨_, h⟩
  · rcases cacheResize_spec hc alloc with ⟨-, h⟩ | ⟨c1, -, h, hres⟩
    · exact absurd (h.symm.trans hr) (by simp)
    · obtain rfl : c1 = c' := by simpa using h.symm.trans hr
      exact hres.get_eq hc hBound _

/-- Both caches refine finite maps: at every table of every run, with fewer than `intSlots` slots,
a get answers with the value of the latest put that was not dropped, a dropped put leaves the
table as it was, every probe and every rehash ends, and a resize changes the answer of no get. -/
theorem caches_refine_maps (initsize : Nat) :
    (∀ c log, CacheipRun initsize c log → c.size < intSlots → CacheipRefines c log) ∧
    (∀ c log, CacheappRun initsize c log → c.size < intSlots → CacheappRefines c log) :=
  ⟨fun _ _ run hBound => run.refines hBound, fun _ _ run hBound => run.refines hBound⟩

/-- Both caches from size 1 on, after a put, one of a key whose probe starts at the same slot, and
one of the first key again; each put resized the table. -/
theorem caches_refine_maps_three : ∃ (cip : CacheIp) (cap : CacheAp),
    cip.size = 8 ∧ CacheipRefines cip [(7, ⟨[118], [112]⟩), (13, ⟨[117], [113]⟩),
      (7, ⟨[117], [112]⟩)] ∧
    cap.size = 8 ∧ CacheappRefines cap [(hashStr [97], [114]), (hashStr [105], [113]),
      (hashStr [97], [112])] := by
  have hip1 : CacheipRun 1 _ [(7, ⟨[117], [112]⟩)] :=
    .put (.init (rfl : cacheInitip (fun _ => true) 1 = _))
      (rfl : cachePutip (fun _ => true) 1 _ 7 ⟨[117], [112]⟩ = some _)
  have hip2 : CacheipRun 1 _ [(13, ⟨[117], [113]⟩), (7, ⟨[117], [112]⟩)] :=
    hip1.put (rfl : cachePutip (fun _ => true) 1 _ 13 ⟨[117], [113]⟩ = some _)
  have hip3 : CacheipRun 1 _ [(7, ⟨[118], [112]⟩), (13, ⟨[117], [113]⟩), (7, ⟨[117], [112]⟩)] :=
    hip2.put (rfl : cachePutip (fun _ => true) 1 _ 7 ⟨[118], [112]⟩ = some _)
  have hap1 : CacheappRun 1 _ [(hashStr [97], [112])] :=
    .put (.init (rfl : cacheInitapp (fun _ => true) 1 = _))
      (rfl : cachePutapp (fun _ => true) _ [97] [112] = some _)
  have hap2 : CacheappRun 1 _ [(hashStr [105], [113]), (hashStr [97], [112])] :=
    hap1.put (rfl : cachePutapp (fun _ => true) _ [105] [113] = some _)
  have hap3 : CacheappRun 1 _ [(hashStr [97], [114]), (hashStr [105], [113]),
      (hashStr [97], [112])] :=
    hap2.put (rfl : cachePutapp (fun _ => true) _ [97] [114] = some _)
  exact ⟨_, _, rfl, (caches_refine_maps 1).1 _ _ hip3 (by decide), rfl,
    (caches_refine_maps 1).2 _ _ hap3 (by decide)⟩

end Silksocks
