import Mathlib.Data.List.Basic

/-! Hash tables with open addressing: a list of slots in which the key `0` marks an empty slot, and
linear probing that wraps around at the end.  The invariant `WF` says that the probe sequence of
every stored key leads to the slot that holds it; `get`, `insert` and `rehash` are then operations
on the set of stored pairs. -/

namespace OpenAddressing

/-! ### Probe sequences -/

/-- The first position that meets `stop`, starting at `id` and wrapping around at `size`.  The
result is `none` when `fuel` positions were tried; with `fuel = size` these are all positions, so
the loop without fuel does not end either. -/
def probe (stop : Nat → Bool) (size : Nat) : Nat → Nat → Option Nat
  | 0, _ => none
  | fuel + 1, id => if stop id then some id else probe stop size fuel ((id + 1) % size)

theorem probe_stop {stop : Nat → Bool} {size fuel start id : Nat}
    (h : probe stop size fuel start = some id) : stop id = true := by
  induction fuel generalizing start with
  | zero => simp [probe] at h
  | succ fuel ih =>
    rw [probe] at h
    split at h
    · rename_i hs
      cases h
      exact hs
    · exact ih h

theorem probe_lt {stop : Nat → Bool} {size fuel start id : Nat} (hStart : start < size)
    (h : probe stop size fuel start = some id) : id < size := by
  induction fuel generalizing start with
  | zero => simp [probe] at h
  | succ fuel ih =>
    rw [probe] at h
    split at h
    · cases h
      exact hStart
    · exact ih (Nat.mod_lt _ (by omega)) h

/-- Turning stops other than the one found into positions passed over changes nothing. -/
theorem probe_of_fewer_stops {stop stop' : Nat → Bool} {size fuel start id : Nat}
    (h : probe stop size fuel start = some id) (hid : stop' id = true)
    (hless : ∀ j, stop j = false → stop' j = false) : probe stop' size fuel start = some id := by
  induction fuel generalizing start with
  | zero => simp [probe] at h
  | succ fuel ih =>
    rw [probe] at h ⊢
    cases hs : stop start with
    | true =>
      rw [hs, if_pos rfl] at h
      cases h
      rw [if_pos hid]
    | false =>
      rw [hs, if_neg (by decide)] at h
      rw [hless start hs, if_neg (by decide)]
      exact ih h

/-- Position `(start + d) % size` is tried once `d` positions have been passed over. -/
theorem probe_ne_none {stop : Nat → Bool} {size fuel start d : Nat} (hd : d < fuel)
    (h : stop ((start + d) % size) = true) (hStart : start < size) :
    probe stop size fuel start ≠ none := by
  induction fuel generalizing start d with
  | zero => omega
  | succ fuel ih =>
    rw [probe]
    split
    · simp
    · rename_i hs
      cases d with
      | zero =>
        rw [Nat.add_zero, Nat.mod_eq_of_lt hStart] at h
        exact absurd h hs
      | succ d =>
        refine ih (d := d) (by omega) ?_ (Nat.mod_lt _ (by omega))
        rw [Nat.mod_add_mod, show start + 1 + d = start + (d + 1) by omega]
        exact h

theorem probe_total {stop : Nat → Bool} {size start id : Nat} (hStart : start < size)
    (hid : id < size) (h : stop id = true) : ∃ j, probe stop size size start = some j := by
  refine Option.ne_none_iff_exists'.mp ?_
  by_cases hle : start ≤ id
  · refine probe_ne_none (d := id - start) (by omega) ?_ hStart
    rwa [show start + (id - start) = id by omega, Nat.mod_eq_of_lt hid]
  · refine probe_ne_none (d := id + size - start) (by omega) ?_ hStart
    rwa [show start + (id + size - start) = id + size by omega, Nat.add_mod_right,
      Nat.mod_eq_of_lt hid]

/-! ### Tables -/

structure Slot (K V : Type) where
  key : K
  val : V
  deriving DecidableEq, Repr

/-- A table: its slots and the element count that its owner keeps. -/
structure Table (K V : Type) where
  elements : Nat
  map : List (Slot K V)
  deriving DecidableEq, Repr

namespace Table

section Slots

variable {K V : Type} {T : Table K V}

/-- The number of slots. -/
def size (T : Table K V) : Nat := T.map.length

/-- `T` stores `val` under `key`. -/
def Has (T : Table K V) (key : K) (val : V) : Prop := ⟨key, val⟩ ∈ T.map

theorem lt_size {id : Nat} {s : Slot K V} (h : T.map[id]? = some s) : id < T.size :=
  (List.getElem?_eq_some_iff.mp h).1

theorem getElem?_of_lt {id : Nat} (h : id < T.size) : ∃ s, T.map[id]? = some s :=
  ⟨_, List.getElem?_eq_getElem h⟩

theorem size_set {n id : Nat} {s : Slot K V} : size ⟨n, T.map.set id s⟩ = T.size := by
  simp [size]

variable [OfNat K 0]

/-- A table of `n` empty slots. -/
def zeroed [Inhabited V] (n : Nat) : Table K V := ⟨0, List.replicate n ⟨0, default⟩⟩

/-- The key in slot `id`. -/
def keyAt (T : Table K V) (id : Nat) : K := ((T.map[id]?).map Slot.key).getD 0

theorem keyAt_eq {id : Nat} {s : Slot K V} (h : T.map[id]? = some s) : T.keyAt id = s.key := by
  simp [keyAt, h]

theorem keyAt_set {n id j : Nat} {s : Slot K V} :
    keyAt ⟨n, T.map.set id s⟩ j = if id = j ∧ j < T.size then s.key else T.keyAt j := by
  simp only [keyAt, List.getElem?_set, size]
  by_cases h : id = j
  · subst h
    by_cases hlt : id < T.map.length
    · simp [hlt]
    · simp [hlt]
  · simp [h]

theorem zeroed_getElem? [Inhabited V] {n id : Nat} {s : Slot K V}
    (h : (zeroed n : Table K V).map[id]? = some s) : s.key = 0 := by
  simp only [zeroed, List.getElem?_replicate] at h
  split at h
  · cases h
    rfl
  · cases h

@[simp] theorem zeroed_size [Inhabited V] (n : Nat) : (zeroed n : Table K V).size = n := by
  simp [zeroed, size]

@[simp] theorem zeroed_elements [Inhabited V] (n : Nat) : (zeroed n : Table K V).elements = 0 := rfl

theorem zeroed_has [Inhabited V] {n : Nat} {key : K} {v : V} (hkey : key ≠ 0) :
    ¬ (zeroed n : Table K V).Has key v := by
  intro h
  obtain ⟨i, hi⟩ := List.mem_iff_getElem?.mp h
  exact hkey (zeroed_getElem? hi)

end Slots

variable {K V : Type} [DecidableEq K] [OfNat K 0]

/-- Whether a probe for `key` ends at slot `id`. -/
def stops (T : Table K V) (key : K) (id : Nat) : Bool := T.keyAt id = 0 || T.keyAt id = key

variable (home : K → Nat)

/-- The slot at which a probe for `key` ends: the first from its home slot on that is empty or
holds `key`. -/
def find (T : Table K V) (key : K) : Option Nat :=
  probe (T.stops key) T.size T.size (home key % T.size)

/-- The value stored under `key`.  The outer `none` is a probe that does not end. -/
def get (T : Table K V) (key : K) : Option (Option V) :=
  (T.find home key).map fun id =>
    if T.keyAt id = 0 then none else (T.map[id]?).map Slot.val

/-- Store `val` under `key`, in the slot where the probe for `key` ends.  The element count grows
when that slot was empty. -/
def insert (T : Table K V) (key : K) (val : V) : Option (Table K V) :=
  (T.find home key).map fun id =>
    { elements := if T.keyAt id = 0 then T.elements + 1 else T.elements
      map := T.map.set id ⟨key, val⟩ }

/-- The loop that copies the nonempty ones of `slots` into `T` with `put`. -/
def rehash (put : Table K V → K → V → Option (Table K V)) (T : Table K V) :
    List (Slot K V) → Option (Table K V)
  | [] => some T
  | s :: slots => if s.key = 0 then rehash put T slots else
      (put T s.key s.val).bind fun T' => rehash put T' slots

/-- Each stored key is found where it is stored. -/
def WF (T : Table K V) : Prop :=
  ∀ id, id < T.size → T.keyAt id ≠ 0 → T.find home (T.keyAt id) = some id

/-- The number of slots in use. -/
def occupied (slots : List (Slot K V)) : Nat := slots.countP fun s => s.key ≠ 0

/-- The keys in the slots in use. -/
def keys (T : Table K V) : List K := (T.map.map Slot.key).filter fun key => key ≠ 0

variable {home} {T : Table K V}

theorem stops_iff {key : K} {id : Nat} :
    T.stops key id = true ↔ T.keyAt id = 0 ∨ T.keyAt id = key := by
  simp [stops]

theorem find_lt {key : K} {id : Nat} (hSize : 0 < T.size) (h : T.find home key = some id) :
    id < T.size :=
  probe_lt (Nat.mod_lt _ hSize) h

theorem find_stops {key : K} {id : Nat} (h : T.find home key = some id) :
    T.keyAt id = 0 ∨ T.keyAt id = key :=
  stops_iff.mp (probe_stop h)

theorem find_total (home : K → Nat) (h : occupied T.map < T.size) (key : K) :
    ∃ id, T.find home key = some id := by
  obtain ⟨s, hs, hkey⟩ : ∃ s ∈ T.map, s.key = 0 := by
    by_contra hno
    have hall : occupied T.map = T.map.length :=
      List.countP_eq_length.mpr fun s hs => by simpa using fun hz => hno ⟨s, hs, hz⟩
    exact absurd h (by rw [hall, size]; omega)
  obtain ⟨id, hid⟩ := List.mem_iff_getElem?.mp hs
  have hlt := lt_size hid
  exact probe_total (Nat.mod_lt _ (by omega)) hlt
    (stops_iff.mpr (.inl ((keyAt_eq hid).trans hkey)))

theorem exists_empty (h : occupied T.map < T.size) : ∃ id < T.size, T.keyAt id = 0 := by
  obtain ⟨id, hid⟩ := find_total (fun _ => 0) h (0 : K)
  exact ⟨id, find_lt (by omega) hid, by simpa using find_stops hid⟩

theorem length_keys : T.keys.length = occupied T.map := by
  rw [keys, ← List.countP_eq_length_filter, List.countP_map]
  rfl

theorem mem_keys {key : K} : key ∈ T.keys ↔ key ≠ 0 ∧ ∃ v, T.Has key v := by
  rw [keys, List.mem_filter, List.mem_map, decide_eq_true_iff, and_comm]
  refine and_congr_right fun _ => ⟨?_, ?_⟩
  · rintro ⟨s, hs, rfl⟩
    exact ⟨s.val, hs⟩
  · rintro ⟨v, hv⟩
    exact ⟨_, hv, rfl⟩

namespace WF

theorem find_of_getElem? (hT : T.WF home) {id : Nat} {s : Slot K V} (h : T.map[id]? = some s)
    (hs : s.key ≠ 0) : T.find home s.key = some id := by
  have := hT id (lt_size h)
  rw [keyAt_eq h] at this
  exact this hs

theorem unique (hT : T.WF home) {i j : Nat} {a b : Slot K V} (ha : T.map[i]? = some a)
    (hb : T.map[j]? = some b) (hkey : a.key = b.key) (h0 : a.key ≠ 0) : i = j := by
  have h1 := hT.find_of_getElem? ha h0
  have h2 := hT.find_of_getElem? hb (hkey ▸ h0)
  rw [hkey, h2] at h1
  exact (Option.some.inj h1).symm

theorem get_of_has (hT : T.WF home) {key : K} {v : V} (hkey : key ≠ 0) (h : T.Has key v) :
    T.get home key = some (some v) := by
  obtain ⟨i, hi⟩ := List.mem_iff_getElem?.mp h
  simp [get, hT.find_of_getElem? hi hkey, keyAt_eq hi, hkey, hi]

theorem pairwise (hT : T.WF home) :
    T.map.Pairwise fun a b => a.key ≠ 0 → a.key ≠ b.key := by
  rw [List.pairwise_iff_getElem]
  intro i j hi hj hij h0 hab
  have := hT.unique (List.getElem?_eq_getElem hi) (List.getElem?_eq_getElem hj) hab h0
  omega

theorem nodup_keys (hT : T.WF home) : T.keys.Nodup := by
  rw [keys, List.Nodup, List.pairwise_filter, List.pairwise_map]
  refine hT.pairwise.imp fun hab ha _ => ?_
  exact hab (by simpa using ha)

end WF

theorem has_of_get {key : K} {v : V} (h : T.get home key = some (some v)) :
    key ≠ 0 ∧ T.Has key v := by
  simp only [get, Option.map_eq_some_iff] at h
  obtain ⟨id, hid, hv⟩ := h
  split at hv
  · cases hv
  · rename_i h0
    obtain ⟨s, hs, rfl⟩ := Option.map_eq_some_iff.mp hv
    have hkey := (find_stops hid).resolve_left h0
    rw [keyAt_eq hs] at hkey h0
    subst hkey
    exact ⟨h0, List.mem_of_getElem? hs⟩

/-- On a table with an empty slot, `get` finds exactly the stored pairs. -/
theorem get_spec (hT : T.WF home) (hRoom : occupied T.map < T.size) {key : K} (hkey : key ≠ 0) :
    ∃ r, T.get home key = some r ∧ ∀ v, r = some v ↔ T.Has key v := by
  obtain ⟨id, hid⟩ := find_total home hRoom key
  refine ⟨_, by rw [get, hid, Option.map_some], fun v => ⟨fun h => ?_, fun h => ?_⟩⟩
  · have hget : T.get home key = some (some v) := by rw [get, hid, Option.map_some, h]
    exact (has_of_get hget).2
  · have := hT.get_of_has hkey h
    rw [get, hid, Option.map_some] at this
    exact Option.some.inj this

/-! ### Insertion -/

section Insert

variable {T' : Table K V} {key : K} {val : V}

theorem insert_total (home : K → Nat) (h : occupied T.map < T.size) (key : K) (val : V) :
    ∃ T', T.insert home key val = some T' := by
  obtain ⟨id, hid⟩ := find_total home h key
  exact ⟨_, by rw [insert, hid, Option.map_some]⟩

/-- What an insertion does: the slot it fills, the key that slot had, and the new table. -/
theorem insert_cases (h : T.insert home key val = some T') :
    ∃ id n, T.find home key = some id ∧ (T.keyAt id = 0 ∨ T.keyAt id = key) ∧
      n = (if T.keyAt id = 0 then T.elements + 1 else T.elements) ∧
      T' = ⟨n, T.map.set id ⟨key, val⟩⟩ := by
  obtain ⟨id, hid, rfl⟩ := Option.map_eq_some_iff.mp h
  exact ⟨id, _, hid, find_stops hid, rfl, rfl⟩

theorem insert_size (h : T.insert home key val = some T') : T'.size = T.size := by
  obtain ⟨id, n, -, -, -, rfl⟩ := insert_cases h
  exact size_set

theorem insert_elements (h : T.insert home key val = some T') :
    T.elements ≤ T'.elements ∧ T'.elements ≤ T.elements + 1 := by
  obtain ⟨id, n, -, -, rfl, rfl⟩ := insert_cases h
  simp only
  split <;> omega

/-- The element count stays an upper bound of the slots in use. -/
theorem insert_occupied (hSize : 0 < T.size) (h : T.insert home key val = some T') :
    occupied T'.map + T.elements ≤ occupied T.map + T'.elements ∧
      (key ≠ 0 → occupied T'.map + T.elements = occupied T.map + T'.elements) := by
  obtain ⟨id, n, hid, hstop, rfl, rfl⟩ := insert_cases h
  have hlt := find_lt hSize hid
  obtain ⟨s, hs⟩ := getElem?_of_lt hlt
  have hget : T.map[id] = s := (List.getElem?_eq_some_iff.mp hs).2
  rw [keyAt_eq hs] at hstop ⊢
  simp only [occupied, List.countP_set hlt, hget]
  by_cases h0 : s.key = 0
  · by_cases hk : key = 0
    · simp [h0, hk]
    · simp [h0, hk]
      omega
  · have hkey : s.key = key := hstop.resolve_left h0
    have hpos : 0 < T.map.countP fun s => s.key ≠ 0 :=
      List.countP_pos_iff.mpr ⟨s, List.mem_of_getElem? hs, by simpa using h0⟩
    simp only [ne_eq, decide_not, hkey ▸ h0, decide_false, Bool.not_false, if_true, if_false,
      h0] at hpos ⊢
    omega

/-- The key 0 is never found: a slot is counted for it, and stays empty. -/
theorem insert_zero (hSize : 0 < T.size) (h : T.insert home 0 val = some T') :
    T'.elements = T.elements + 1 ∧ occupied T'.map = occupied T.map := by
  obtain ⟨id, n, hid, hstop, rfl, rfl⟩ := insert_cases h
  have hzero : T.keyAt id = 0 := by simpa using hstop
  have hlt := find_lt hSize hid
  obtain ⟨s, hs⟩ := getElem?_of_lt hlt
  have hget : T.map[id] = s := (List.getElem?_eq_some_iff.mp hs).2
  have hkey : s.key = 0 := (keyAt_eq hs).symm.trans hzero
  refine ⟨if_pos hzero, ?_⟩
  simp [occupied, List.countP_set hlt, hget, hkey]

theorem insert_wf (hT : T.WF home) (hSize : 0 < T.size) (h : T.insert home key val = some T') :
    T'.WF home := by
  obtain ⟨id, n, hid, hstop, -, rfl⟩ := insert_cases h
  have hlt := find_lt hSize hid
  intro j hj h0
  rw [size_set] at hj
  rw [keyAt_set] at h0 ⊢
  rw [find, size_set]
  by_cases hij : id = j
  · -- the slot just filled: the same probe finds it, and nothing before it has changed
    subst hij
    rw [if_pos ⟨rfl, hj⟩] at h0 ⊢
    refine probe_of_fewer_stops hid ?_ fun i hi => ?_
    · rw [stops_iff, keyAt_set, if_pos ⟨rfl, hj⟩]
      exact .inr rfl
    · have hne : id ≠ i := by
        rintro rfl
        exact absurd (probe_stop hid) (by rw [hi]; decide)
      rw [← hi]
      simp only [stops, keyAt_set, hne, false_and, if_false]
  · -- another stored key: its probe never passed the slot just filled, or passes it still
    rw [if_neg (fun hc => hij hc.1)] at h0 ⊢
    have hfind := hT j hj h0
    refine probe_of_fewer_stops hfind ?_ fun i hi => ?_
    · rw [stops_iff, keyAt_set, if_neg (fun hc => hij hc.1)]
      exact .inr rfl
    · by_cases hi' : id = i
      · subst hi'
        have hn : T.keyAt id ≠ 0 ∧ T.keyAt id ≠ T.keyAt j := by
          simpa [stops] using hi
        have hkey : T.keyAt id = key := hstop.resolve_left hn.1
        rw [← hi]
        simp only [stops, keyAt_set, hlt, and_self, if_true, hkey]
      · rw [← hi]
        simp only [stops, keyAt_set, hi', false_and, if_false]

/-- After `insert key val`, the table stores `val` under `key` and what it stored before under
the other keys. -/
theorem insert_has (hT : T.WF home) (hSize : 0 < T.size) (h : T.insert home key val = some T')
    {k : K} {v : V} (hk : k ≠ 0) :
    T'.Has k v ↔ if k = key then v = val else T.Has k v := by
  obtain ⟨id, n, hid, hstop, -, rfl⟩ := insert_cases h
  have hlt := find_lt hSize hid
  simp only [Has, List.mem_iff_getElem?]
  by_cases hkey : k = key
  · subst hkey
    rw [if_pos rfl]
    constructor
    · rintro ⟨j, hj⟩
      by_cases hij : id = j
      · subst hij
        rw [List.getElem?_set_self hlt] at hj
        cases hj
        rfl
      · rw [List.getElem?_set_ne hij] at hj
        have := hT.find_of_getElem? hj hk
        rw [hid] at this
        exact absurd (Option.some.inj this) hij
    · rintro rfl
      exact ⟨id, List.getElem?_set_self hlt⟩
  · rw [if_neg hkey]
    constructor
    · rintro ⟨j, hj⟩
      by_cases hij : id = j
      · subst hij
        rw [List.getElem?_set_self hlt] at hj
        cases hj
        exact absurd rfl hkey
      · exact ⟨j, by rwa [List.getElem?_set_ne hij] at hj⟩
    · rintro ⟨j, hj⟩
      have hij : id ≠ j := by
        rintro rfl
        rw [keyAt_eq hj] at hstop
        exact hstop.elim hk hkey
      exact ⟨j, by rwa [List.getElem?_set_ne hij]⟩

end Insert

theorem zeroed_wf [Inhabited V] (home : K → Nat) (n : Nat) : (zeroed n : Table K V).WF home := by
  intro id hid h0
  obtain ⟨s, hs⟩ := getElem?_of_lt hid
  exact absurd ((keyAt_eq hs).trans (zeroed_getElem? hs)) h0

@[simp] theorem zeroed_occupied [Inhabited V] (n : Nat) :
    occupied (zeroed n : Table K V).map = 0 := by
  simp [zeroed, occupied]

/-! ### Rehashing -/

section Rehash

variable {slots : List (Slot K V)}

theorem occupied_cons (s : Slot K V) (slots : List (Slot K V)) :
    occupied (s :: slots) = if s.key = 0 then occupied slots else occupied slots + 1 := by
  simp only [occupied, List.countP_cons, ne_eq, decide_not, Bool.not_eq_true', decide_eq_false_iff_not]
  by_cases h : s.key = 0 <;> simp [h]

/-- A `put` that is `insert` on tables with few elements rehashes as `insert` does. -/
theorem rehash_congr {put : Table K V → K → V → Option (Table K V)} (n bound : Nat)
    (hput : ∀ T key val, T.size = n → T.elements < bound →
      put T key val = T.insert home key val)
    (hSize : T.size = n) (h : T.elements + occupied slots ≤ bound) :
    rehash put T slots = rehash (insert home) T slots := by
  induction slots generalizing T with
  | nil => rfl
  | cons s slots ih =>
    rw [occupied_cons] at h
    rw [rehash, rehash]
    split
    · rename_i h0
      rw [if_pos h0] at h
      exact ih hSize h
    · rename_i h0
      rw [if_neg h0] at h
      rw [hput T s.key s.val hSize (by omega)]
      cases hi : T.insert home s.key s.val with
      | none => rfl
      | some T1 => exact ih ((insert_size hi).trans hSize) (by have := insert_elements hi; omega)

/-- What copying `slots` into `T` gives: the pairs of `slots`, and those of `T` under other keys. -/
structure Rehashed (home : K → Nat) (T : Table K V) (slots : List (Slot K V)) (T' : Table K V) :
    Prop where
  wf : T'.WF home
  size : T'.size = T.size
  elements : T'.elements = occupied T'.map
  room : occupied T'.map ≤ occupied T.map + occupied slots
  has : ∀ key val, key ≠ 0 →
    (T'.Has key val ↔ ⟨key, val⟩ ∈ slots ∨ T.Has key val ∧ ∀ s ∈ slots, s.key ≠ key)

theorem rehash_spec (hT : T.WF home) (hElements : T.elements = occupied T.map)
    (hRoom : occupied T.map + occupied slots < T.size)
    (hDistinct : slots.Pairwise fun a b => a.key ≠ 0 → a.key ≠ b.key) :
    ∃ T', rehash (insert home) T slots = some T' ∧ Rehashed home T slots T' := by
  induction slots generalizing T with
  | nil => exact ⟨T, rfl, hT, rfl, hElements, by simp, by simp⟩
  | cons s slots ih =>
    obtain ⟨hHead, hTail⟩ := List.pairwise_cons.mp hDistinct
    rw [occupied_cons] at hRoom
    rw [rehash]
    split
    · rename_i h0
      rw [if_pos h0] at hRoom
      obtain ⟨T', hrun, h⟩ := ih hT hElements hRoom hTail
      refine ⟨T', hrun, h.wf, h.size, h.elements, ?_, fun key val hkey => ?_⟩
      · rw [occupied_cons, if_pos h0]
        exact h.room
      · have hne : s.key ≠ key := fun he => hkey (he ▸ h0)
        have hne' : (⟨key, val⟩ : Slot K V) ≠ s := fun he => hne (by rw [← he])
        rw [h.has key val hkey]
        simp [hne, hne']
    · rename_i h0
      rw [if_neg h0] at hRoom
      have hSize : 0 < T.size := by omega
      obtain ⟨T1, h1⟩ := insert_total (T := T) home (by omega) s.key s.val
      have hocc := (insert_occupied hSize h1).2 h0
      have hgrow := insert_elements h1
      have hsize1 := insert_size h1
      obtain ⟨T', hrun, h⟩ := ih (insert_wf hT hSize h1) (by omega) (by omega) hTail
      refine ⟨T', by rw [h1]; exact hrun, h.wf, by rw [h.size, hsize1], h.elements, ?_,
        fun key val hkey => ?_⟩
      · have := h.room
        rw [occupied_cons, if_neg h0]
        omega
      · rw [h.has key val hkey, insert_has hT hSize h1 hkey]
        by_cases hs : key = s.key
        · have hfresh : ∀ v, (⟨key, v⟩ : Slot K V) ∉ slots := fun v hv =>
            hHead _ hv h0 hs.symm
          have hother : ∀ r ∈ slots, r.key ≠ key := fun r hr he =>
            hHead r hr h0 (hs ▸ he.symm)
          obtain ⟨skey, sval⟩ := s
          subst hs
          simp only [hfresh, if_true, false_or, List.mem_cons, Slot.mk.injEq, true_and, or_false,
            and_iff_left hother]
          simp
        · have hne' : (⟨key, val⟩ : Slot K V) ≠ s := fun he => hs (by rw [← he])
          have hs' : s.key ≠ key := fun he => hs he.symm
          simp [hs, hs', hne']

end Rehash

end Table

end OpenAddressing
