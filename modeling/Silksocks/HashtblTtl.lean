import Silksocks.Hashtbl

/-! The table of resolved names as a map whose entries expire.  A run makes the table and calls
`hashtbl_put` and `hashtbl_get` with clock readings that never go back; its log holds the entries
that the puts linked into their buckets.  A get answers with the latest entry of its hash in the
log as long as that has not expired. -/

namespace Silksocks

open Chains

/-! ### The first table -/

/-- The loop of `hashtbl_init` links each entry but the last to the one after it. -/
theorem linkEntries (n j : Nat) :
    (List.range n).foldl (fun next i => Function.update next i (some (i + 1))) (fun _ => none) j =
      if j < n then some (j + 1) else none := by
  induction n with
  | zero => rfl
  | succ n ih =>
    rw [List.range_succ, List.foldl_append, List.foldl_cons, List.foldl_nil,
      Function.update_apply, ih]
    split
    · subst j
      rw [if_pos (by omega)]
    · by_cases hj : j < n
      · rw [if_pos hj, if_pos (by omega)]
      · rw [if_neg hj, if_neg (by omega)]

/-- The free list that starts at entry `i` when `k` entries come after it. -/
theorem linked_range' {next : Nat → Option Nat} {n : Nat}
    (hnext : ∀ j, next j = if j < n then some (j + 1) else none) (k : Nat) :
    ∀ i, i + k = n → Linked next (some i) (List.range' i (k + 1)) := by
  induction k with
  | zero =>
    intro i hi
    exact ⟨rfl, by rw [hnext, if_neg (by omega)]; rfl⟩
  | succ k ih =>
    intro i hi
    exact ⟨rfl, by rw [hnext, if_pos (by omega)]; exact ih (i + 1) (by omega)⟩

/-! ### What the calls do to the stored entries -/

namespace HashInv

variable {t : HashTable} {B : Nat → List Nat} {F out : List Nat}

theorem init {alloc : Bool} {size : Nat} (h : hashtblInit alloc size = some t) :
    HashInv t (fun _ => []) (List.range size) [] ∧ t.recordSize = 4 := by
  rw [hashtblInit] at h
  split at h
  · cases h
  rename_i hsize
  split at h
  · cases h
    obtain ⟨n, rfl⟩ : ∃ n, size = n + 1 := ⟨size - 1, by omega⟩
    refine ⟨⟨Nat.succ_pos n, ⟨fun _ _ => rfl, ?_, ?_⟩, fun _ _ _ he => (by cases he),
      fun _ _ _ he => (by cases he)⟩, rfl⟩
    · have hall := linked_range' (linkEntries n) n 0 (by omega)
      rwa [← List.range_eq_range'] at hall
    · simp [List.flatMap_eq_nil_iff.mpr]
  · cases h

theorem check (h : HashInv t B F out) (key : List UInt8) (now : Int) :
    ∃ b, hashtblCheck t key now = some b ∧
      (b = true ↔ ∃ e, t.Holds B e ∧ e.hash = hashStr key ∧ now < e.expires) := by
  obtain ⟨t', B', F', hrun, -⟩ :=
    h.walk (fun _ => false) (fun e => e.hash = hashStr key && now < e.expires) (hashStr key)
  refine ⟨_, by rw [hashtblCheck]; simp only [hrun, Option.map_some]; rfl, ?_⟩
  simp only [Option.isSome_iff_exists]
  constructor
  · rintro ⟨e, he⟩
    obtain ⟨hmem, -, hstop⟩ := Store.hit_spec he
    have hstop : (t.store.data e).hash = hashStr key ∧ now < (t.store.data e).expires := by
      simpa using hstop
    exact ⟨t.store.data e, ⟨e, by rwa [hstop.1], rfl⟩, hstop⟩
  · rintro ⟨_, ⟨e, he, rfl⟩, hhash, hnow⟩
    rw [hhash] at he
    refine ⟨e, (Store.hit_eq_some fun f hf _ hs => ?_).mpr ⟨he, rfl, by simp [hhash, hnow]⟩⟩
    have hs : (t.store.data f).hash = hashStr key ∧ now < (t.store.data f).expires := by
      simpa using hs
    exact h.distinct _ (h.idx_lt _) f hf e he (hs.1.trans hhash.symm)

theorem get (h : HashInv t B F out) (key : List UInt8) (now : Int) :
    ∃ r t' B' F', hashtblGet t key now = some (r, t') ∧ HashInv t' B' F' out ∧
      t'.recordSize = t.recordSize ∧
      (∀ v, r = some v ↔ ∃ x, now ≤ x ∧ t.Holds B ⟨hashStr key, x, v⟩) ∧
      (∀ ent, t'.Holds B' ent → t.Holds B ent) ∧
      ∀ ent, t.Holds B ent → t'.Holds B' ent ∨ ent.expires < now := by
  obtain ⟨t', B', F', hrun, hinv, hsize, hrec, hold, hkeep, -, hdata, -⟩ :=
    h.walk (fun e => e.expires < now) (fun e => e.hash = hashStr key) (hashStr key)
  have hidx : ∀ hash, t'.idx hash = t.idx hash := fun hash => by
    rw [HashTable.idx, hsize, HashTable.idx]
  have hkeep' : ∀ ent, t.Holds B ent → t'.Holds B' ent ∨ ent.expires < now := fun ent he => by
    simpa using hkeep ent he
  refine ⟨_, t', B', F', by rw [hashtblGet]; simp only [hrun, Option.map_some]; rfl, hinv, hrec,
    fun v => ?_, hold, hkeep'⟩
  simp only [Option.map_eq_some_iff]
  constructor
  · rintro ⟨e, he, rfl⟩
    obtain ⟨hmem, hlive, hhash⟩ := Store.hit_spec he
    have hlive : now ≤ (t.store.data e).expires := by simpa using hlive
    have hhash : (t.store.data e).hash = hashStr key := by simpa using hhash
    have hHolds : t.Holds B (t.store.data e) := ⟨e, by rwa [hhash], rfl⟩
    -- the entry is still in its bucket, so its value is the one it had
    obtain ⟨f, hf, hfe⟩ := (hkeep' _ hHolds).resolve_right (by omega)
    rw [hidx, hhash] at hf
    obtain ⟨hfB, hfd⟩ := hdata f hf
    obtain rfl := h.distinct _ (h.idx_lt _) f hfB e hmem (by rw [← hfd, hfe])
    exact ⟨_, hlive, by rw [hfe, ← hhash]; exact hHolds⟩
  · rintro ⟨x, hx, e, he, hent⟩
    have huniq : ∀ f ∈ B (t.idx (hashStr key)), ((fun e => decide (e.expires < now)) ∘
        t.store.data) f = false → ((fun e => decide (e.hash = hashStr key)) ∘ t.store.data) f =
        true → f = e := fun f hf _ hs => by
      refine h.distinct _ (h.idx_lt _) f hf e he ?_
      rw [hent]
      simpa using hs
    refine ⟨e, (Store.hit_eq_some huniq).mpr ⟨he, by simp [hent, hx], by simp [hent]⟩, ?_⟩
    obtain ⟨f, hf, hfe⟩ := (hkeep' _ ⟨e, he, hent⟩).resolve_right (by simp; omega)
    rw [hidx] at hf
    obtain ⟨hfB, hfd⟩ := hdata f hf
    obtain rfl := h.distinct _ (h.idx_lt _) f hfB e he (by rw [← hfd, hfe, hent])
    rw [hfe]

/-- What a put that links a fresh entry into its bucket leaves in the table. -/
structure Inserted (t : HashTable) (B : Nat → List Nat) (ent : HashEntry) (now : Int)
    (t' : HashTable) (B' : Nat → List Nat) : Prop where
  fresh : t'.Holds B' ent
  old : ∀ e, t'.Holds B' e → e = ent ∨ t.Holds B e ∧ e.hash ≠ ent.hash
  keep : ∀ e, t.Holds B e → e.hash ≠ ent.hash → t'.Holds B' e ∨ e.expires < now

/-- Taking the first free entry out of the free list, and writing it, changes no bucket. -/
theorem pop {hentry : Nat} (h : HashInv t B (hentry :: F) out) (ent : HashEntry) {t' : HashTable}
    (ht' : t' =
      { t with
        store :=
          { t.store with
            data := Function.update t.store.data hentry ent
            next := Function.update t.store.next hentry none
            free := t.store.next hentry } }) :
    HashInv t' B F (hentry :: out) ∧ ∀ e, t'.Holds B e ↔ t.Holds B e := by
  subst ht'
  have hne : ∀ b < t.size, ∀ e ∈ B b,
      Function.update t.store.data hentry ent e = t.store.data e := by
    intro b hb e he
    refine Function.update_of_ne ?_ _ _
    rintro rfl
    exact (h.repr.not_free hb he).1 List.mem_cons_self
  refine ⟨⟨h.size, h.repr.pop ent, fun b hb e he => ?_, fun b hb e he f hf heq => ?_⟩, fun e => ?_⟩
  · show t.idx (Function.update t.store.data hentry ent e).hash = b
    rw [hne b hb e he]
    exact h.bucket b hb e he
  · refine h.distinct b hb e he f hf ?_
    rw [← hne b hb e he, ← hne b hb f hf]
    exact heq
  · refine exists_congr fun i => and_congr_right fun hi => ?_
    show Function.update t.store.data hentry ent i = e ↔ _
    rw [hne _ (h.idx_lt _) i hi]

/-- Linking an entry from outside into its bucket, where no entry has its hash. -/
theorem push {hentry b : Nat} (h : HashInv t B F (hentry :: out))
    (hb : t.idx (t.store.data hentry).hash = b)
    (hfresh : ∀ e ∈ B b, (t.store.data e).hash ≠ (t.store.data hentry).hash) {t' : HashTable}
    (ht' : t' =
      { t with
        store :=
          { t.store with
            next := Function.update t.store.next hentry (t.store.head b)
            head := Function.update t.store.head b (some hentry) } }) :
    HashInv t' (Function.update B b (hentry :: B b)) F out ∧
      ∀ e, t'.Holds (Function.update B b (hentry :: B b)) e ↔
        e = t.store.data hentry ∨ t.Holds B e := by
  have hlt : b < t.size := hb ▸ h.idx_lt _
  have hmem : ∀ c e, e ∈ Function.update B b (hentry :: B b) c ↔
      (c = b ∧ e = hentry) ∨ e ∈ B c := by
    intro c e
    by_cases hcb : c = b
    · subst hcb
      simp
    · simp [hcb]
  subst ht'
  refine ⟨⟨h.size, h.repr.push hlt, fun c hc e he => ?_, fun c hc e he f hf heq => ?_⟩,
    fun e => ⟨?_, ?_⟩⟩
  · rcases (hmem c e).mp he with ⟨rfl, rfl⟩ | he
    · exact hb
    · exact h.bucket c hc e he
  · rcases (hmem c e).mp he with ⟨rfl, rfl⟩ | he' <;>
      rcases (hmem c f).mp hf with ⟨hcb, rfl⟩ | hf'
    · rfl
    · exact absurd heq.symm (hfresh f hf')
    · exact absurd heq (hfresh e (hcb ▸ he'))
    · exact h.distinct c hc e he' f hf' heq
  · rintro ⟨i, hi, rfl⟩
    rcases (hmem _ i).mp hi with ⟨-, rfl⟩ | hi
    · exact .inl rfl
    · exact .inr ⟨i, hi, rfl⟩
  · rintro (rfl | ⟨i, hi, rfl⟩)
    · exact ⟨hentry, (hmem _ _).mpr (.inl ⟨hb, rfl⟩), rfl⟩
    · exact ⟨i, (hmem _ _).mpr (.inr hi), rfl⟩

theorem put (h : HashInv t B F []) (key val : List UInt8) (expires checkNow now : Int) :
    (t.store.free = none ∧ hashtblPut t key val expires checkNow now = some (0, t)) ∨
    (t.store.free ≠ none ∧ hashtblPut t key val expires checkNow now = some (1, t) ∧
      ∃ e, t.Holds B e ∧ e.hash = hashStr key ∧ checkNow < e.expires) ∨
    ∃ hentry t' B' F', t.store.free = some hentry ∧
      (¬ ∃ e, t.Holds B e ∧ e.hash = hashStr key ∧ checkNow < e.expires) ∧
      hashtblPut t key val expires checkNow now = some (1, t') ∧
      t'.store.head (t.idx (hashStr key)) = some hentry ∧ HashInv t' B' F' [] ∧
      t'.recordSize = t.recordSize ∧
      Inserted t B ⟨hashStr key, expires, val.take t.recordSize⟩ now t' B' := by
  cases hfree : t.store.free with
  | none => exact .inl ⟨rfl, by rw [hashtblPut, hfree]⟩
  | some hentry =>
    obtain ⟨b, hcheck, hb⟩ := h.check key checkNow
    cases b with
    | true => exact .inr (.inl ⟨by simp, by rw [hashtblPut, hfree]; simp only [hcheck], hb.mp rfl⟩)
    | false =>
      obtain ⟨F, rfl⟩ : ∃ F', F = hentry :: F' := by
        have hF := h.repr.free
        rw [hfree] at hF
        cases F with
        | nil => cases hF
        | cons i F => exact ⟨F, by rw [Option.some.inj hF.1]⟩
      set ent : HashEntry := ⟨hashStr key, expires, val.take t.recordSize⟩ with hent
      obtain ⟨hpop, hsame⟩ := h.pop ent rfl
      set popped : HashTable :=
        { t with
          store :=
            { t.store with
              data := Function.update t.store.data hentry ent
              next := Function.update t.store.next hentry none
              free := t.store.next hentry } } with hpopped
      obtain ⟨t2, B2, F2, hrun, hinv, hsize, hrec, hold, hkeep, hdrop, -, hout⟩ :=
        hpop.walk (fun e => hashStr key = e.hash || e.expires < now) (fun _ => false) (hashStr key)
      have hdata : t2.store.data hentry = ent := by
        rw [hout hentry List.mem_cons_self]
        exact Function.update_self ..
      have hidx : ∀ hash, t2.idx hash = t.idx hash := fun hash => by
        rw [HashTable.idx, hsize, HashTable.idx]
      -- the walk has recycled every entry of the bucket that has the hash of the key
      have hfresh : ∀ e, t2.Holds B2 e → e.hash ≠ hashStr key := fun e he heq => by
        have := hdrop (fun _ => rfl) e he (by rw [heq])
        simp [heq] at this
      obtain ⟨hpush, hholds⟩ := hinv.push (b := t2.idx (hashStr key)) (by rw [hdata])
        (fun e he => by
          rw [hdata]
          exact hfresh _ ⟨e, by rwa [hinv.bucket _ (hinv.idx_lt _) e he], rfl⟩) rfl
      rw [hdata] at hholds
      refine .inr (.inr ⟨hentry, _, _, _, rfl, fun hex => by simpa using hb.mpr hex, ?_, ?_, hpush,
        hrec, (hholds ent).mpr (.inl rfl), fun e he => ?_, fun e he hne => ?_⟩)
      · rw [hashtblPut, hfree]
        simp only [hcheck]
        rw [← hent, ← hpopped, hrun]
        rfl
      · rw [hidx]
        exact Function.update_self ..
      · rcases (hholds e).mp he with he | he
        · exact .inl he
        · exact .inr ⟨(hsame e).mp (hold e he), hfresh e he⟩
      · rcases hkeep e ((hsame e).mpr he) with hk | hd
        · exact .inl ((hholds e).mpr (.inr hk))
        · have hd : hashStr key = e.hash ∨ e.expires < now := by simpa using hd
          exact .inr (hd.resolve_left (Ne.symm hne))

/-- The head of a bucket is not a free entry. -/
theorem head_ne_free (h : HashInv t B F out) (hash : UInt64) {hentry : Nat}
    (hfree : t.store.free = some hentry) : t.store.head (t.idx hash) ≠ some hentry := by
  intro hhead
  have hb := h.repr.heads _ (h.idx_lt hash)
  have hF := h.repr.free
  rw [hhead] at hb
  rw [hfree] at hF
  cases hB : B (t.idx hash) with
  | nil =>
    rw [hB] at hb
    cases hb
  | cons i l =>
    rw [hB] at hb
    have hi : i = hentry := (Option.some.inj hb.1).symm
    cases F with
    | nil => cases hF
    | cons j F =>
      have hj : j = hentry := (Option.some.inj hF.1).symm
      exact (h.repr.not_free (h.idx_lt hash) (by rw [hB]; exact List.mem_cons_self)).1
        (by rw [hi, hj]; exact List.mem_cons_self)

end HashInv

/-! ### Runs -/

/-- Whether a put of `key` that led from `t` to `t'` was an insertion: it took the first free entry
and linked it into the bucket of `key`. -/
def inserted (t t' : HashTable) (key : List UInt8) : Bool :=
  t.store.free.isSome && t'.store.head (t.idx (hashStr key)) == t.store.free

/-- The latest entry of `log` with this hash. -/
def latest (log : List HashEntry) (hash : UInt64) : Option HashEntry :=
  log.find? fun e => e.hash = hash

/-- The tables of a run, with the entries that the insertions stored, the latest first, and the
clock that was read last. -/
inductive HashtblRun (size : Nat) : HashTable → List HashEntry → Int → Prop
  | init {alloc : Bool} {t : HashTable} {clock : Int} (h : hashtblInit alloc size = some t) :
      HashtblRun size t [] clock
  | put {t t' : HashTable} {log : List HashEntry} {clock expires checkNow now r : Int}
      {key val : List UInt8} (run : HashtblRun size t log clock) (hCheck : clock ≤ checkNow)
      (hNow : checkNow ≤ now) (h : hashtblPut t key val expires checkNow now = some (r, t')) :
      HashtblRun size t'
        (if inserted t t' key then ⟨hashStr key, expires, val.take 4⟩ :: log else log) now
  | get {t t' : HashTable} {log : List HashEntry} {clock now : Int} {key : List UInt8}
      {r : Option (List UInt8)} (run : HashtblRun size t log clock) (hNow : clock ≤ now)
      (h : hashtblGet t key now = some (r, t')) : HashtblRun size t' log now

/-- What holds of every table of a run: the stored entries are the latest of their hash in the log,
and the latest entry of a hash is stored unless it has expired. -/
structure HashtblInv (t : HashTable) (log : List HashEntry) (clock : Int) (B : Nat → List Nat)
    (F : List Nat) : Prop where
  inv : HashInv t B F []
  recordSize : t.recordSize = 4
  stored : ∀ e, t.Holds B e → latest log e.hash = some e
  kept : ∀ e, latest log e.hash = some e → t.Holds B e ∨ e.expires < clock

/-- What the calls do at a table that the insertions of `log` led to. -/
structure HashtblRefines (t : HashTable) (log : List HashEntry) (clock : Int) : Prop where
  get : ∀ key now, clock ≤ now → ∃ r t', hashtblGet t key now = some (r, t') ∧
    ∀ v, r = some v ↔ ∃ e, latest log (hashStr key) = some e ∧ e.value = v ∧ now ≤ e.expires
  put : ∀ key val expires checkNow now, clock ≤ checkNow → checkNow ≤ now →
    ∃ r t', hashtblPut t key val expires checkNow now = some (r, t') ∧
      (inserted t t' key = true ↔ t.store.free ≠ none ∧
        ¬ ∃ e, latest log (hashStr key) = some e ∧ checkNow < e.expires) ∧
      (inserted t t' key = true → r = 1) ∧
      (inserted t t' key = false → t' = t ∧ r = if t.store.free = none then 0 else 1)

theorem latest_hash {log : List HashEntry} {hash : UInt64} {e : HashEntry}
    (h : latest log hash = some e) : e.hash = hash := by
  simpa using List.find?_some h

theorem latest_cons {log : List HashEntry} {hash : UInt64} {e : HashEntry} :
    latest (e :: log) hash = if e.hash = hash then some e else latest log hash := by
  rw [latest, List.find?_cons]
  by_cases h : e.hash = hash <;> simp [h, latest]

namespace HashtblInv

variable {t : HashTable} {log : List HashEntry} {clock : Int} {B : Nat → List Nat} {F : List Nat}

/-- An entry that has not expired is stored if and only if it is the latest of its hash. -/
theorem holds_iff (h : HashtblInv t log clock B F) {e : HashEntry} (he : clock ≤ e.expires) :
    t.Holds B e ↔ latest log e.hash = some e :=
  ⟨h.stored e, fun hl => (h.kept e hl).resolve_right (by omega)⟩

theorem check_iff (h : HashtblInv t log clock B F) (key : List UInt8) {now : Int}
    (hNow : clock ≤ now) :
    (∃ e, t.Holds B e ∧ e.hash = hashStr key ∧ now < e.expires) ↔
      ∃ e, latest log (hashStr key) = some e ∧ now < e.expires := by
  refine exists_congr fun e => ⟨fun ⟨hHolds, hhash, hlive⟩ => ?_, fun ⟨hl, hlive⟩ => ?_⟩
  · exact ⟨hhash ▸ h.stored e hHolds, hlive⟩
  · have hhash := latest_hash hl
    exact ⟨(h.holds_iff (by omega)).mpr (hhash ▸ hl), hhash, hlive⟩

theorem later (h : HashtblInv t log clock B F) {now : Int} (hNow : clock ≤ now) :
    HashtblInv t log now B F :=
  ⟨h.inv, h.recordSize, h.stored, fun e hl => (h.kept e hl).imp_right fun he => by omega⟩

theorem get (h : HashtblInv t log clock B F) (key : List UInt8) {now : Int} (hNow : clock ≤ now) :
    ∃ r t' B' F', hashtblGet t key now = some (r, t') ∧ HashtblInv t' log now B' F' ∧
      ∀ v, r = some v ↔
        ∃ e, latest log (hashStr key) = some e ∧ e.value = v ∧ now ≤ e.expires := by
  obtain ⟨r, t', B', F', hget, hinv, hrec, hr, hold, hkeep⟩ := h.inv.get key now
  refine ⟨r, t', B', F', hget, ⟨hinv, hrec.trans h.recordSize, fun e he => h.stored e (hold e he),
    fun e hl => ?_⟩, fun v => (hr v).trans ⟨fun ⟨x, hx, he⟩ => ?_, fun ⟨e, hl, hv, hx⟩ => ?_⟩⟩
  · rcases h.kept e hl with he | he
    · exact hkeep e he
    · exact .inr (by omega)
  · exact ⟨_, h.stored _ he, rfl, hx⟩
  · have hhash := latest_hash hl
    have he : t.Holds B e := (h.holds_iff (by omega)).mpr (hhash.symm ▸ hl)
    exact ⟨e.expires, hx, by rw [← hv, ← hhash]; exact he⟩

theorem put (h : HashtblInv t log clock B F) (key val : List UInt8) (expires : Int)
    {checkNow now : Int} (hCheck : clock ≤ checkNow) (hNow : checkNow ≤ now) :
    ∃ r t' B' F', hashtblPut t key val expires checkNow now = some (r, t') ∧
      HashtblInv t' (if inserted t t' key then ⟨hashStr key, expires, val.take 4⟩ :: log else log)
        now B' F' ∧
      (inserted t t' key = true ↔ t.store.free ≠ none ∧
        ¬ ∃ e, latest log (hashStr key) = some e ∧ checkNow < e.expires) ∧
      (inserted t t' key = true → r = 1) ∧
      (inserted t t' key = false → t' = t ∧ r = if t.store.free = none then 0 else 1) := by
  have hlater := h.later (Int.le_trans hCheck hNow)
  have hcheck := h.check_iff key hCheck
  rcases h.inv.put key val expires checkNow now with
    ⟨hfree, hput⟩ | ⟨hfree, hput, hex⟩ |
      ⟨hentry, t', B', F', hfree, hno, hput, hhead, hinv, hrec, hins⟩
  · have hi : inserted t t key = false := by simp [inserted, hfree]
    exact ⟨0, t, B, F, hput, by simpa [hi] using hlater, by simp [hi, hfree], by simp [hi],
      fun _ => ⟨rfl, by simp [hfree]⟩⟩
  · have hi : inserted t t key = false := by
      obtain ⟨hentry, hsome⟩ := Option.ne_none_iff_exists'.mp hfree
      simpa [inserted, hsome] using h.inv.head_ne_free (hashStr key) hsome
    refine ⟨1, t, B, F, hput, by simpa [hi] using hlater, ?_, by simp [hi],
      fun _ => ⟨rfl, by simp [hfree]⟩⟩
    simpa [hi, hfree] using hcheck.mp hex
  · have hi : inserted t t' key = true := by simp [inserted, hfree, hhead]
    rw [h.recordSize] at hins
    refine ⟨1, t', B', F', hput, ?_, ?_, fun _ => rfl, by simp [hi]⟩
    · rw [if_pos hi]
      refine ⟨hinv, hrec.trans h.recordSize, fun e he => ?_, fun e hl => ?_⟩
      · rw [latest_cons]
        rcases hins.old e he with rfl | ⟨he, hne⟩
        · exact if_pos rfl
        · rw [if_neg (Ne.symm hne)]
          exact h.stored e he
      · rw [latest_cons] at hl
        split at hl
        · cases hl
          exact .inl hins.fresh
        · rename_i hne
          rcases h.kept e hl with he | he
          · exact hins.keep e he (Ne.symm hne)
          · exact .inr (by omega)
    · exact ⟨fun _ => ⟨by simp [hfree], fun hex => hno (hcheck.mpr hex)⟩, fun _ => hi⟩

end HashtblInv

theorem HashtblInv.init {alloc : Bool} {size : Nat} {t : HashTable}
    (h : hashtblInit alloc size = some t) (clock : Int) :
    HashtblInv t [] clock (fun _ => []) (List.range size) := by
  obtain ⟨hinv, hrec⟩ := HashInv.init h
  refine ⟨hinv, hrec, ?_, fun e hl => by cases hl⟩
  rintro e ⟨i, hi, -⟩
  cases hi

theorem HashtblRun.inv {size : Nat} {t : HashTable} {log : List HashEntry} {clock : Int}
    (run : HashtblRun size t log clock) : ∃ B F, HashtblInv t log clock B F := by
  induction run with
  | init h => exact ⟨_, _, .init h _⟩
  | put run hCheck hNow h ih =>
    obtain ⟨B, F, hinv⟩ := ih
    obtain ⟨r, t', B', F', hput, hinv', -⟩ := hinv.put _ _ _ hCheck hNow
    cases h.symm.trans hput
    exact ⟨B', F', hinv'⟩
  | get run hNow h ih =>
    obtain ⟨B, F, hinv⟩ := ih
    obtain ⟨r, t', B', F', hget, hinv', -⟩ := hinv.get _ hNow
    cases h.symm.trans hget
    exact ⟨B', F', hinv'⟩

/-- `hashtbl` refines a map with expiry: at every table of every run, a get returns the value of
the latest insertion of its hash if that has not expired, a put is an insertion if and only if an
entry is free and the latest insertion of its hash is not in force, and every other put changes
nothing. -/
theorem hashtbl_refines_ttl (size : Nat) (t : HashTable) (log : List HashEntry) (clock : Int)
    (run : HashtblRun size t log clock) : HashtblRefines t log clock := by
  obtain ⟨B, F, h⟩ := run.inv
  refine ⟨fun key now hNow => ?_, fun key val expires checkNow now hCheck hNow => ?_⟩
  · obtain ⟨r, t', -, -, hget, -, hr⟩ := h.get key hNow
    exact ⟨r, t', hget, hr⟩
  · obtain ⟨r, t', -, -, hput, -, hr⟩ := h.put key val expires hCheck hNow
    exact ⟨r, t', hput, hr⟩

/-- A table of four entries, after an insertion of "a", one of "e" into the same bucket, and one of
"a" again when the first has expired. -/
theorem hashtbl_refines_ttl_four : ∃ t, HashtblRefines t [⟨hashStr [97], 601, [10, 0, 0, 3]⟩,
    ⟨hashStr [101], 310, [10, 0, 0, 2]⟩, ⟨hashStr [97], 300, [10, 0, 0, 1]⟩] 301 := by
  have hinit : HashtblRun 4 _ [] 0 := .init (rfl : hashtblInit true 4 = _)
  have hput1 : HashtblRun 4 _ [⟨hashStr [97], 300, [10, 0, 0, 1]⟩] 0 :=
    hinit.put (Int.le_refl 0) (Int.le_refl 0)
      (rfl : hashtblPut _ [97] [10, 0, 0, 1] 300 0 0 = some (1, _))
  have hput2 : HashtblRun 4 _ [⟨hashStr [101], 310, [10, 0, 0, 2]⟩,
      ⟨hashStr [97], 300, [10, 0, 0, 1]⟩] 10 :=
    hput1.put (by decide : (0 : Int) ≤ 10) (Int.le_refl 10)
      (rfl : hashtblPut _ [101] [10, 0, 0, 2] 310 10 10 = some (1, _))
  have hput3 : HashtblRun 4 _ [⟨hashStr [97], 601, [10, 0, 0, 3]⟩,
      ⟨hashStr [101], 310, [10, 0, 0, 2]⟩, ⟨hashStr [97], 300, [10, 0, 0, 1]⟩] 301 :=
    hput2.put (by decide : (10 : Int) ≤ 301) (Int.le_refl 301)
      (rfl : hashtblPut _ [97] [10, 0, 0, 3] 601 301 301 = some (1, _))
  exact ⟨_, hashtbl_refines_ttl 4 _ _ 301 hput3⟩

end Silksocks
