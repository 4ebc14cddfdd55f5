import Silksocks.CacheMap

/-! A cache in front of the database.  The database answers queries, and the cache stores answers
under a key that is computed from the query; two queries may have the same key.  A lookup through
the cache agrees with the database as long as what the cache has under the key of the query is not
the answer to another one that differs. -/

namespace Silksocks

open OpenAddressing

section CacheDb

variable {K V Q : Type} [DecidableEq K] [OfNat K 0] (key : Q → K) (db : Q → Option V)

/-- The query whose answer was the latest to be stored under a key. -/
def latestStored (stored : List Q) (k : K) : Option Q := stored.find? fun q => key q = k

/-- Where a cache has an entry under the key of a query, it is no other answer.  The key 0 is never
found. -/
def NoClash (c : Table K V) (stored : List Q) (q : Q) : Prop :=
  key q ≠ 0 → (∃ v, c.Has (key q) v) →
    ∀ q', latestStored key stored (key q) = some q' → db q' = db q

/-- Every pair in a cache is the database's answer to the query that was the latest to be stored
under its key. -/
structure CacheAgrees (home : K → Nat) (c : Table K V) (stored : List Q) : Prop where
  inv : CacheInv home c
  has : ∀ k v, k ≠ 0 → c.Has k v → ∃ q, latestStored key stored k = some q ∧ db q = some v

variable {key db} {home : K → Nat} {c c' : Table K V} {stored : List Q} {q : Q} {v : V}

theorem cacheInit_agrees [Inhabited V] {alloc : Nat → Bool} {n : Nat}
    (h : cacheInit alloc n = some c) : CacheAgrees key db home c [] :=
  ⟨cacheInit_inv h, fun _ _ hk hHas => absurd hHas (cacheInit_has h hk)⟩

/-- A lookup without a clash finds the database's answer, if it finds one. -/
theorem CacheAgrees.get (h : CacheAgrees key db home c stored) (hclash : NoClash key db c stored q)
    (hget : c.get home (key q) = some (some v)) : db q = some v := by
  obtain ⟨hk, hHas⟩ := Table.has_of_get hget
  obtain ⟨q', hlatest, hq'⟩ := h.has _ _ hk hHas
  rw [← hclash hk ⟨v, hHas⟩ q' hlatest, hq']

theorem CacheAgrees.put (h : CacheAgrees key db home c stored) (hdb : db q = some v)
    {alloc : Nat → Bool} (hput : PutSpec home alloc c (key q) v (some c')) :
    CacheAgrees key db home c' (if putDropped alloc c then stored else q :: stored) := by
  rcases hput with ⟨hdrop, hsame⟩ | ⟨c1, hdrop, hc1, hst⟩
  · cases hsame
    rwa [if_pos hdrop]
  · cases hc1
    rw [if_neg (by simp [hdrop])]
    refine ⟨hst.inv h.inv, fun k w hk hHas => ?_⟩
    rcases hst.has_old h.inv hk hHas with ⟨rfl, rfl⟩ | ⟨hne, hold⟩
    · exact ⟨q, by simp [latestStored], hdb⟩
    · obtain ⟨q', hlatest, hq'⟩ := h.has k w hk hold
      exact ⟨q', by simpa [latestStored, Ne.symm hne] using hlatest, hq'⟩

end CacheDb

end Silksocks
