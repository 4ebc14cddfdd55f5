import Silksocks.HashtblTtl

/-! The entries of the table of resolved names, under calls whose clocks may do anything.  Whatever
`hashtbl_put` and `hashtbl_get` are called with, the free list and the buckets stay finite lists
that hold every preallocated entry once.  A put that finds the free list empty refuses before it
looks at its bucket, so that it refuses also when there are entries in it that it would recycle. -/

namespace Silksocks

open Chains

/-- A call to the table with its arguments and the clocks that it reads. -/
inductive HashtblOp
  | put (key val : List UInt8) (expires checkNow now : Int)
  | get (key : List UInt8) (now : Int)
  deriving DecidableEq, Repr

/-- The table after a call; `none` is a call that does not return. -/
def HashtblOp.apply (t : HashTable) : HashtblOp → Option HashTable
  | .put key val expires checkNow now =>
    (hashtblPut t key val expires checkNow now).map fun r => r.2
  | .get key now => (hashtblGet t key now).map fun r => r.2

/-- The table after a sequence of calls. -/
def hashtblCalls (t : HashTable) (ops : List HashtblOp) : Option HashTable :=
  ops.foldlM HashtblOp.apply t

/-- The buckets `B` and the free list `F` are the lists that start at the heads of the table: each
ends, they hold each of the `size` entries once, and a bucket holds the hashes that belong there,
none of them twice. -/
structure EntriesKept (size : Nat) (t : HashTable) (B : Nat → List Nat) (F : List Nat) : Prop where
  buckets : ∀ b < size, Linked t.store.next (t.store.head b) (B b)
  free : Linked t.store.next t.store.free F
  once : ((List.range size).flatMap B ++ F).Perm (List.range size)
  hash : ∀ b < size, ∀ e ∈ B b, (t.store.data e).hash.toNat % size = b
  distinct : ∀ b < size, ∀ e ∈ B b, ∀ f ∈ B b,
    (t.store.data e).hash = (t.store.data f).hash → e = f

section Size

variable {t t' : HashTable}

theorem walk_size {drop stop : HashEntry → Bool} {hash : UInt64} {r : Option Nat}
    (h : t.walk drop stop hash = some (r, t')) : t'.size = t.size := by
  unfold HashTable.walk at h
  obtain ⟨s, -, hs⟩ := Option.map_eq_some_iff.mp h
  cases hs
  rfl

theorem hashtblGet_size {key : List UInt8} {now : Int} {r : Option (List UInt8)}
    (h : hashtblGet t key now = some (r, t')) : t'.size = t.size := by
  unfold hashtblGet at h
  obtain ⟨⟨found, t1⟩, hwalk, hs⟩ := Option.map_eq_some_iff.mp h
  cases hs
  exact walk_size hwalk

theorem hashtblInit_size {alloc : Bool} {size : Nat} (h : hashtblInit alloc size = some t) :
    t.size = size := by
  unfold hashtblInit at h
  split at h
  · cases h
  split at h <;> cases h
  rfl

theorem hashtblPut_size {key val : List UInt8} {expires checkNow now : Int} {r : Int}
    (h : hashtblPut t key val expires checkNow now = some (r, t')) : t'.size = t.size := by
  unfold hashtblPut at h
  split at h
  · cases h
    rfl
  split at h
  · cases h
  · cases h
    rfl
  · obtain ⟨⟨found, t1⟩, hwalk, hs⟩ := Option.map_eq_some_iff.mp h
    cases hs
    have hsize := walk_size hwalk
    exact hsize

end Size

/-- Every call returns and keeps the invariant, whatever the clocks are. -/
theorem HashInv.apply {t : HashTable} {B : Nat → List Nat} {F : List Nat} (h : HashInv t B F [])
    (op : HashtblOp) :
    ∃ t' B' F', op.apply t = some t' ∧ t'.size = t.size ∧ HashInv t' B' F' [] := by
  cases op with
  | get key now =>
    obtain ⟨r, t', B', F', hget, hinv, -⟩ := h.get key now
    exact ⟨t', B', F', by rw [HashtblOp.apply, hget]; rfl, hashtblGet_size hget, hinv⟩
  | put key val expires checkNow now =>
    rcases h.put key val expires checkNow now with
      ⟨-, hput⟩ | ⟨-, hput, -⟩ | ⟨hentry, t', B', F', -, -, hput, -, hinv, -⟩
    · exact ⟨t, B, F, by rw [HashtblOp.apply, hput]; rfl, rfl, h⟩
    · exact ⟨t, B, F, by rw [HashtblOp.apply, hput]; rfl, rfl, h⟩
    · exact ⟨t', B', F', by rw [HashtblOp.apply, hput]; rfl, hashtblPut_size hput, hinv⟩

theorem HashInv.calls {t : HashTable} {B : Nat → List Nat} {F : List Nat} (h : HashInv t B F [])
    (ops : List HashtblOp) :
    ∃ t' B' F', hashtblCalls t ops = some t' ∧ t'.size = t.size ∧ HashInv t' B' F' [] := by
  induction ops generalizing t B F with
  | nil => exact ⟨t, B, F, rfl, rfl, h⟩
  | cons op ops ih =>
    obtain ⟨t1, B1, F1, hop, hsize1, h1⟩ := h.apply op
    obtain ⟨t', B', F', hops, hsize, h'⟩ := ih h1
    refine ⟨t', B', F', ?_, hsize.trans hsize1, h'⟩
    rw [hashtblCalls, List.foldlM_cons, hop]
    exact hops

theorem HashInv.entriesKept {t : HashTable} {B : Nat → List Nat} {F : List Nat}
    (h : HashInv t B F []) : EntriesKept t.size t B F where
  buckets := h.repr.heads
  free := h.repr.free
  once := by simpa using h.repr.perm
  hash := h.bucket
  distinct := h.distinct

/-- No entry of a table is ever lost or shared: every sequence of calls returns, and the lists of
the table that it leaves hold each entry once. -/
theorem hashtbl_entries_kept (alloc : Bool) (size : Nat) (t : HashTable)
    (h : hashtblInit alloc size = some t) (ops : List HashtblOp) :
    ∃ t' B F, hashtblCalls t ops = some t' ∧ EntriesKept size t' B F := by
  obtain ⟨t', B, F, hcalls, hsize, hinv⟩ := (HashInv.init h).1.calls ops
  refine ⟨t', B, F, hcalls, ?_⟩
  rw [← hashtblInit_size h, ← hsize]
  exact hinv.entriesKept

/-- A put, and a get for which the entry has expired, with a clock that goes back in between. -/
theorem hashtbl_entries_kept_two : ∃ t t' B F, hashtblInit true 2 = some t ∧
    hashtblCalls t [.put [97] [10, 0, 0, 1] 300 1000 900, .get [97] 400] = some t' ∧
    EntriesKept 2 t' B F := by
  have hinit : hashtblInit true 2 = some _ := rfl
  obtain ⟨t', B, F, h⟩ := hashtbl_entries_kept true 2 _ hinit
    [.put [97] [10, 0, 0, 1] 300 1000 900, .get [97] 400]
  exact ⟨_, t', B, F, hinit, h⟩

/-! ### What a put refuses -/

/-- An entry that a put of a key with this hash may reuse: it has expired, or it is an entry of the
hash that does not expire after `now`. -/
def Recyclable (hash : UInt64) (now : Int) (e : HashEntry) : Prop :=
  e.expires < now ∨ (e.hash = hash ∧ e.expires ≤ now)

/-- Nothing in the bucket of `hash` can be reused. -/
def BucketInUse (t : HashTable) (B : Nat → List Nat) (hash : UInt64) (now : Int) : Prop :=
  ∀ e ∈ B (t.idx hash), ¬ Recyclable hash now (t.store.data e)

/-- A put with the result `r` refused only because nothing could be reused. -/
def RefusedInNeed (t : HashTable) (B : Nat → List Nat) (F : List Nat) (hash : UInt64)
    (now r : Int) : Prop :=
  r = 0 → F = [] ∧ BucketInUse t B hash now

namespace HashInv

variable {t : HashTable} {B : Nat → List Nat} {F : List Nat}

theorem free_eq_none (h : HashInv t B F []) : t.store.free = none ↔ F = [] := by
  have hfree := h.repr.free
  cases F with
  | nil => exact ⟨fun _ => rfl, fun _ => hfree⟩
  | cons i F =>
    rw [hfree.1]
    simp

/-- When the check of a put has not found the key, its purge recycles what is recyclable. -/
theorem recyclable_iff (h : HashInv t B F []) {key : List UInt8} {now : Int}
    (hcheck : hashtblCheck t key now = some false) {e : Nat} (he : e ∈ B (t.idx (hashStr key))) :
    Recyclable (hashStr key) now (t.store.data e) ↔
      hashStr key = (t.store.data e).hash ∨ (t.store.data e).expires < now := by
  obtain ⟨b, hb, hlive⟩ := h.check key now
  obtain rfl : b = false := Option.some.inj (hb.symm.trans hcheck)
  have hdead (hhash : (t.store.data e).hash = hashStr key) : (t.store.data e).expires ≤ now := by
    by_contra hlt
    have := hlive.mpr ⟨_, ⟨e, by rwa [hhash], rfl⟩, hhash, by omega⟩
    cases this
  constructor
  · rintro (hold | ⟨hhash, -⟩)
    · exact .inr hold
    · exact .inl hhash.symm
  · rintro (hhash | hold)
    · exact .inr ⟨hhash.symm, hdead hhash.symm⟩
    · exact .inl hold

theorem put_refuses (h : HashInv t B F []) (key val : List UInt8) (expires checkNow now : Int) :
    ∃ r t', hashtblPut t key val expires checkNow now = some (r, t') ∧ (r = 0 ↔ F = []) := by
  rcases h.put key val expires checkNow now with
    ⟨hfree, hput⟩ | ⟨hfree, hput, -⟩ | ⟨hentry, t', B', F', hfree, -, hput, -⟩
  · exact ⟨0, t, hput, by simp [h.free_eq_none.mp hfree]⟩
  · exact ⟨1, t, hput, by simp [← h.free_eq_none, hfree]⟩
  · exact ⟨1, t', hput, by simp [← h.free_eq_none, hfree]⟩

end HashInv

/-- At every table that calls lead to, a put that refuses does so in need if and only if an entry is
free or nothing in its bucket can be reused.  What can be reused is what the purge of the put
recycles once it is reached. -/
theorem hashtbl_put_refuses (alloc : Bool) (size : Nat) (t₀ : HashTable)
    (h : hashtblInit alloc size = some t₀) (ops : List HashtblOp) :
    ∃ t B F, hashtblCalls t₀ ops = some t ∧ EntriesKept size t B F ∧
      ∀ key val expires checkNow now,
        (∃ r t', hashtblPut t key val expires checkNow now = some (r, t') ∧
          (RefusedInNeed t B F (hashStr key) now r ↔
            F ≠ [] ∨ BucketInUse t B (hashStr key) now)) ∧
        (hashtblCheck t key now = some false → ∀ e ∈ B (t.idx (hashStr key)),
          (Recyclable (hashStr key) now (t.store.data e) ↔
            hashStr key = (t.store.data e).hash ∨ (t.store.data e).expires < now)) := by
  obtain ⟨t, B, F, hcalls, hsize, hinv⟩ := (HashInv.init h).1.calls ops
  refine ⟨t, B, F, hcalls, ?_, fun key val expires checkNow now =>
    ⟨?_, fun hcheck e he => hinv.recyclable_iff hcheck he⟩⟩
  · rw [← hashtblInit_size h, ← hsize]
    exact hinv.entriesKept
  obtain ⟨r, t', hput, hr⟩ := hinv.put_refuses key val expires checkNow now
  refine ⟨r, t', hput, ?_⟩
  rw [RefusedInNeed, hr]
  tauto

/-- A table of two entries that two puts into one bucket have used up. -/
theorem hashtbl_put_refuses_full : ∃ t₀ t B F, hashtblInit true 2 = some t₀ ∧
    hashtblCalls t₀ [.put [97] [10, 0, 0, 1] 300 100 100, .put [99] [10, 0, 0, 2] 310 110 110] =
      some t ∧ t.store.free = none ∧ EntriesKept 2 t B F ∧ ∀ key val expires checkNow now,
        (∃ r t', hashtblPut t key val expires checkNow now = some (r, t') ∧
          (RefusedInNeed t B F (hashStr key) now r ↔
            F ≠ [] ∨ BucketInUse t B (hashStr key) now)) ∧
        (hashtblCheck t key now = some false → ∀ e ∈ B (t.idx (hashStr key)),
          (Recyclable (hashStr key) now (t.store.data e) ↔
            hashStr key = (t.store.data e).hash ∨ (t.store.data e).expires < now)) := by
  have hinit : hashtblInit true 2 = some _ := rfl
  obtain ⟨t, B, F, hcalls, hkept, hputs⟩ := hashtbl_put_refuses true 2 _ hinit
    [.put [97] [10, 0, 0, 1] 300 100 100, .put [99] [10, 0, 0, 2] 310 110 110]
  have hfree : t.store.free = none := by
    cases hcalls
    rfl
  exact ⟨_, t, B, F, hinit, hcalls, hfree, hkept, hputs⟩

/-- In a table of one entry, which a name holds until 100, no name can be put at 200. -/
theorem hashtbl_put_refuses_counterexample : ∃ t₀ t B F, hashtblInit true 1 = some t₀ ∧
    hashtblCalls t₀ [.put [97] [10, 0, 0, 1] 100 50 50] = some t ∧ EntriesKept 1 t B F ∧
    ∃ r t', hashtblPut t [98] [10, 0, 0, 2] 300 200 200 = some (r, t') ∧
      ¬ RefusedInNeed t B F (hashStr [98]) 200 r := by
  have hinit : hashtblInit true 1 = some _ := rfl
  obtain ⟨t, B, F, hcalls, hsize, hinv⟩ :=
    (HashInv.init hinit).1.calls [.put [97] [10, 0, 0, 1] 100 50 50]
  have hsize : t.size = 1 := hsize
  have hput : hashtblPut t [98] [10, 0, 0, 2] 300 200 200 = some (0, t) := by
    cases hcalls
    rfl
  refine ⟨_, t, B, F, hinit, hcalls, hsize ▸ hinv.entriesKept, 0, t, hput, fun hneed => ?_⟩
  have hidx : t.idx (hashStr [98]) = 0 := by rw [HashTable.idx, hsize, Nat.mod_one]
  have hlinked := hinv.repr.heads 0 (by omega)
  have hhead : t.store.head 0 = some 0 := by
    cases hcalls
    rfl
  have hexpires : (t.store.data 0).expires = 100 := by
    cases hcalls
    rfl
  -- the bucket starts with the entry that expired at 100
  cases hbucket : B 0 with
  | nil =>
    rw [hbucket, hhead] at hlinked
    cases hlinked
  | cons i l =>
    rw [hbucket, hhead] at hlinked
    obtain rfl : 0 = i := Option.some.inj hlinked.1
    refine (hneed rfl).2 0 ?_ (.inl (by omega))
    rw [hidx, hbucket]
    exact List.mem_cons_self

end Silksocks
