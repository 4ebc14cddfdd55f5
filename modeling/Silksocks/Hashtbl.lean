import Silksocks.Common
import Silksocks.Lib.Chains

/-! The table of resolved names of `hashtbl.c`.  `table` and `empty_entry` are the list heads and
the free list of a `Chains.Store`, and the nodes are the preallocated entries.  Entries are kept
under the hash of a name, and expired ones are recycled when a call walks over them.

Each call of `hashtbl_put` and `hashtbl_get` is one atomic step under `hmutex`; the values that
`time(NULL)` returns to it are arguments. -/

namespace Silksocks

open Chains

/-- `struct hash_entry` without its link; `value` is the `record_size` bytes of the value. -/
structure HashEntry where
  hash : UInt64
  expires : Int
  value : List UInt8
  deriving DecidableEq, Repr

/-- `struct hash_table`. -/
structure HashTable where
  size : Nat
  recordSize : Nat
  store : Store HashEntry

/-- `hashtbl_init` with a record size of 4, where `he_idx(i)` is entry `i`.  The result is `none`
when an allocation fails, and when the loop that links the entries runs past the last one: it is
undefined for a size of 0 and past the range of `int i`. -/
def hashtblInit (alloc : Bool) (size : Nat) : Option HashTable :=
  if size = 0 ∨ intSlots < size then none
  else if alloc then
    some
      { size
        recordSize := 4
        store :=
          { head := fun _ => none
            next := (List.range (size - 1)).foldl
              (fun next i => Function.update next i (some (i + 1))) fun _ => none
            data := fun _ => ⟨0, 0, [0, 0, 0, 0]⟩
            free := some 0 } }
  else none

/-- What becomes of an entry that is recycled. -/
def recycle (e : HashEntry) : HashEntry := { e with expires := 0 }

namespace HashTable

/-- The bucket of a hash. -/
def idx (t : HashTable) (hash : UInt64) : Nat := hash.toNat % t.size

/-- The loop over the bucket of `hash`: recycle what meets `drop`, stop at what meets `stop`.  The
loop is given one step more than there are entries; `none` is a bucket that does not end. -/
def walk (drop stop : HashEntry → Bool) (t : HashTable) (hash : UInt64) :
    Option (Option Nat × HashTable) :=
  (t.store.walk recycle drop stop (t.size + 1) (.head (t.idx hash))).map fun r =>
    (r.1, { t with store := r.2 })

end HashTable

/-- `hashtbl_check`: whether an entry for the hash of `key` expires after `now`. -/
def hashtblCheck (t : HashTable) (key : List UInt8) (now : Int) : Option Bool :=
  let hash := hashStr key
  (t.walk (fun _ => false) (fun e => e.hash = hash && now < e.expires) hash).map fun r =>
    r.1.isSome

/-- `hashtbl_put`; `checkNow` is the clock that its `hashtbl_check` reads and `now` the one it reads
itself. -/
def hashtblPut (t : HashTable) (key val : List UInt8) (expires checkNow now : Int) :
    Option (Int × HashTable) :=
  match t.store.free with
  | none => some (0, t)
  | some hentry =>
    match hashtblCheck t key checkNow with
    | none => none
    | some true => some (1, t)
    | some false =>
      let hash := hashStr key
      let popped : HashTable :=
        { t with
          store :=
            { t.store with
              data := Function.update t.store.data hentry ⟨hash, expires, val.take t.recordSize⟩
              next := Function.update t.store.next hentry none
              free := t.store.next hentry } }
      (popped.walk (fun e => hash = e.hash || e.expires < now) (fun _ => false) hash).map
        fun (_, t) => (1,
          { t with
            store :=
              { t.store with
                next := Function.update t.store.next hentry (t.store.head (t.idx hash))
                head := Function.update t.store.head (t.idx hash) (some hentry) } })

/-- `hashtbl_get`: the bytes that it copies into the caller's buffer when it returns 1, and `none`
when it returns 0 and leaves the buffer as it is. -/
def hashtblGet (t : HashTable) (key : List UInt8) (now : Int) :
    Option (Option (List UInt8) × HashTable) :=
  let hash := hashStr key
  (t.walk (fun e => e.expires < now) (fun e => e.hash = hash) hash).map fun r =>
    (r.1.map fun phe => (r.2.store.data phe).value, r.2)

/-! ### The invariant -/

/-- The invariant of a table with buckets `B`, free list `F` and the entries `out` in no list: every
entry is in one place, each entry in a bucket belongs there, and no hash occurs twice. -/
structure HashInv (t : HashTable) (B : Nat → List Nat) (F out : List Nat) : Prop where
  size : 0 < t.size
  repr : t.store.Repr t.size t.size B F out
  bucket : ∀ b < t.size, ∀ e ∈ B b, t.idx (t.store.data e).hash = b
  distinct : ∀ b < t.size, ∀ e ∈ B b, ∀ f ∈ B b,
    (t.store.data e).hash = (t.store.data f).hash → e = f

/-- Some entry of a bucket has the contents `ent`. -/
def HashTable.Holds (t : HashTable) (B : Nat → List Nat) (ent : HashEntry) : Prop :=
  ∃ e ∈ B (t.idx ent.hash), t.store.data e = ent

namespace HashInv

variable {t : HashTable} {B : Nat → List Nat} {F out : List Nat}

theorem idx_lt (h : HashInv t B F out) (hash : UInt64) : t.idx hash < t.size :=
  Nat.mod_lt _ h.size

theorem walk (h : HashInv t B F out) (drop stop : HashEntry → Bool) (hash : UInt64) :
    ∃ t' B' F', t.walk drop stop hash =
        some (Store.hit (drop ∘ t.store.data) (stop ∘ t.store.data) (B (t.idx hash)), t') ∧
      HashInv t' B' F' out ∧ t'.size = t.size ∧ t'.recordSize = t.recordSize ∧
      (∀ ent, t'.Holds B' ent → t.Holds B ent) ∧
      (∀ ent, t.Holds B ent → t'.Holds B' ent ∨ drop ent = true) ∧
      ((∀ ent, stop ent = false) → ∀ ent, t'.Holds B' ent → t.idx ent.hash = t.idx hash →
        drop ent = false) ∧
      (∀ e ∈ B' (t.idx hash), e ∈ B (t.idx hash) ∧ t'.store.data e = t.store.data e) ∧
      ∀ e ∈ out, t'.store.data e = t.store.data e := by
  have hb := h.idx_lt hash
  obtain ⟨s', hrun, hrepr, hdata, hout⟩ :=
    h.repr.walk recycle drop stop hb
  set b := t.idx hash with hbdef
  set keep := Store.kept (drop ∘ t.store.data) (stop ∘ t.store.data) (B b) with hkeep
  refine ⟨{ t with store := s' }, Function.update B b keep, _, by rw [HashTable.walk, hrun]; rfl,
    ⟨h.size, hrepr, fun c hc e he => ?_, fun c hc e he f hf heq => ?_⟩, rfl, rfl, ?_, ?_, ?_, ?_,
    hout⟩
  · obtain ⟨he', hd⟩ := hdata c hc e he
    show t.idx (s'.data e).hash = c
    rw [hd]
    exact h.bucket c hc e he'
  · obtain ⟨he', hde⟩ := hdata c hc e he
    obtain ⟨hf', hdf⟩ := hdata c hc f hf
    refine h.distinct c hc e he' f hf' ?_
    rw [← hde, ← hdf]
    exact heq
  · rintro ent ⟨e, he, rfl⟩
    obtain ⟨he', hd⟩ := hdata _ (h.idx_lt _) e he
    exact ⟨e, he', hd.symm⟩
  · rintro ent ⟨e, he, rfl⟩
    by_cases hc : t.idx (t.store.data e).hash = b
    · rw [hc] at he
      rcases List.mem_append.mp ((Store.perm_kept_dropped _ _ _).mem_iff.mpr he) with hk | hd
      · left
        have hmem : e ∈ Function.update B b keep b := by rwa [Function.update_self]
        refine ⟨e, ?_, (hdata b hb e hmem).2⟩
        show e ∈ Function.update B b keep (t.idx (t.store.data e).hash)
        rwa [hc]
      · exact .inr (Store.drop_of_mem_dropped hd)
    · left
      have hmem : e ∈ Function.update B b keep (t.idx (t.store.data e).hash) := by
        rwa [Function.update_of_ne hc]
      exact ⟨e, hmem, (hdata _ (h.idx_lt _) e hmem).2⟩
  · rintro hnever ent ⟨e, he, rfl⟩ hc
    change e ∈ Function.update B b keep (t.idx (s'.data e).hash) at he
    change t.idx (s'.data e).hash = b at hc
    rw [hc] at he
    have hd := (hdata b hb e he).2
    rw [Function.update_self] at he
    show drop (s'.data e) = false
    rw [hd]
    exact Store.not_drop_of_kept (fun j => hnever _) he
  · exact fun e he => hdata b hb e he

end HashInv

end Silksocks
