import Mathlib.Data.List.Nodup
import Mathlib.Data.List.Pairwise
import Mathlib.Data.List.Perm.Lattice
import Mathlib.Logic.Function.Basic

/-! Singly linked lists in an indexed store: an array of list heads and a free list, all linked
through one `next` field per node.  `walk` is the traversal that unlinks nodes into the free list as
it goes, by means of the link that led to the node, and may stop at a node. -/

namespace Chains

/-! ### Linked lists -/

/-- Following `next` from `p` visits the nodes of `l` and ends. -/
def Linked (next : Nat → Option Nat) : Option Nat → List Nat → Prop
  | p, [] => p = none
  | p, i :: l => p = some i ∧ Linked next (next i) l

namespace Linked

variable {next next' : Nat → Option Nat} {p : Option Nat} {l l' : List Nat}

theorem congr (h : Linked next p l) (heq : ∀ i ∈ l, next' i = next i) : Linked next' p l := by
  induction l generalizing p with
  | nil => exact h
  | cons i l ih =>
    refine ⟨h.1, ?_⟩
    rw [heq i List.mem_cons_self]
    exact ih h.2 fun j hj => heq j (List.mem_cons_of_mem i hj)

theorem unique (h : Linked next p l) (h' : Linked next p l') : l = l' := by
  induction l generalizing p l' with
  | nil =>
    cases l' with
    | nil => rfl
    | cons j l' => cases h.symm.trans h'.1
  | cons i l ih =>
    cases l' with
    | nil => cases h.1.symm.trans h'
    | cons j l' =>
      obtain rfl : i = j := Option.some.inj (h.1.symm.trans h'.1)
      rw [ih h.2 h'.2]

theorem suffix {i : Nat} (h : Linked next p l) (hi : i ∈ l) :
    ∃ l1 l2, l = l1 ++ i :: l2 ∧ Linked next (some i) (i :: l2) := by
  induction l generalizing p with
  | nil => cases hi
  | cons j l ih =>
    rcases List.mem_cons.mp hi with rfl | hi
    · exact ⟨[], l, rfl, rfl, h.2⟩
    · obtain ⟨l1, l2, rfl, h2⟩ := ih h.2 hi
      exact ⟨j :: l1, l2, rfl, h2⟩

theorem nodup (h : Linked next p l) : l.Nodup := by
  induction l generalizing p with
  | nil => exact List.nodup_nil
  | cons i l ih =>
    refine List.nodup_cons.mpr ⟨fun hi => ?_, ih h.2⟩
    obtain ⟨l1, l2, rfl, h2⟩ := suffix h.2 hi
    have := congrArg List.length (unique h2.2 h.2)
    simp at this
    omega

end Linked

/-! ### The store -/

/-- Heads of lists, the link and the data of each node, and the head of the free list. -/
structure Store (D : Type) where
  head : Nat → Option Nat
  next : Nat → Option Nat
  data : Nat → D
  free : Option Nat

/-- A place that points to a node: the head of a list, or the link of a node. -/
inductive Link
  | head (b : Nat)
  | next (i : Nat)
  deriving DecidableEq

namespace Store

variable {D : Type}

def deref (s : Store D) : Link → Option Nat
  | .head b => s.head b
  | .next i => s.next i

def assign (s : Store D) (link : Link) (p : Option Nat) : Store D :=
  match link with
  | .head b => { s with head := Function.update s.head b p }
  | .next i => { s with next := Function.update s.next i p }

/-- Unlink node `i`, to which `link` points, and push it on the free list with its data reset. -/
def unlink (reset : D → D) (s : Store D) (link : Link) (i : Nat) : Store D :=
  let s := s.assign link (s.next i)
  { s with
    data := Function.update s.data i (reset (s.data i))
    next := Function.update s.next i s.free
    free := some i }

/-- Traverse a list from `link` on: unlink the nodes that meet `drop`, and stop at the first other
node that meets `stop`.  The result is `none` when `fuel` nodes do not end the traversal. -/
def walk (reset : D → D) (drop stop : D → Bool) :
    Nat → Store D → Link → Option (Option Nat × Store D)
  | 0, _, _ => none
  | fuel + 1, s, link =>
    match s.deref link with
    | none => some (none, s)
    | some i =>
      if drop (s.data i) then walk reset drop stop fuel (s.unlink reset link i) link
      else if stop (s.data i) then some (some i, s)
      else walk reset drop stop fuel s (.next i)

/-! ### Traversals of lists -/

section Lists

variable (drop stop : Nat → Bool)

/-- The nodes that a traversal leaves in the list. -/
def kept : List Nat → List Nat
  | [] => []
  | i :: l => if drop i then kept l else if stop i then i :: l else i :: kept l

/-- The nodes that a traversal unlinks. -/
def dropped : List Nat → List Nat
  | [] => []
  | i :: l => if drop i then i :: dropped l else if stop i then [] else dropped l

/-- The node at which a traversal stops. -/
def hit : List Nat → Option Nat
  | [] => none
  | i :: l => if drop i then hit l else if stop i then some i else hit l

variable {drop stop} {l : List Nat}

theorem kept_sublist : (kept drop stop l).Sublist l := by
  induction l with
  | nil => exact List.Sublist.slnil
  | cons i l ih =>
    rw [kept]
    split
    · exact ih.cons i
    split
    · exact List.Sublist.refl _
    · exact ih.cons_cons i

theorem perm_kept_dropped (drop stop : Nat → Bool) (l : List Nat) :
    (kept drop stop l ++ dropped drop stop l).Perm l := by
  induction l with
  | nil => exact List.Perm.refl _
  | cons i l ih =>
    rw [kept, dropped]
    split
    · exact List.perm_middle.trans (ih.cons i)
    split
    · simp
    · exact ih.cons i

theorem drop_of_mem_dropped {i : Nat} (h : i ∈ dropped drop stop l) : drop i = true := by
  induction l with
  | nil => cases h
  | cons j l ih =>
    rw [dropped] at h
    split at h
    · rename_i hj
      rcases List.mem_cons.mp h with rfl | h
      · exact hj
      · exact ih h
    split at h
    · cases h
    · exact ih h

/-- A traversal stops at a node that is kept, and finds every node that could stop it if no other
node could. -/
theorem hit_eq_some {i : Nat} (huniq : ∀ j ∈ l, drop j = false → stop j = true → j = i) :
    hit drop stop l = some i ↔ i ∈ l ∧ drop i = false ∧ stop i = true := by
  induction l with
  | nil => simp [hit]
  | cons j l ih =>
    have ih := ih fun k hk => huniq k (List.mem_cons_of_mem j hk)
    rw [hit, List.mem_cons]
    cases hd : drop j with
    | true =>
      rw [if_pos rfl, ih]
      refine ⟨fun h => ⟨.inr h.1, h.2⟩, fun h => ⟨h.1.resolve_left ?_, h.2⟩⟩
      rintro rfl
      rw [hd] at h
      exact absurd h.2.1 (by decide)
    | false =>
      rw [if_neg (by decide)]
      cases hs : stop j with
      | true =>
        obtain rfl := huniq j List.mem_cons_self hd hs
        simp [hd, hs]
      | false =>
        rw [if_neg (by decide), ih]
        refine ⟨fun h => ⟨.inr h.1, h.2⟩, fun h => ⟨h.1.resolve_left ?_, h.2⟩⟩
        rintro rfl
        rw [hs] at h
        exact absurd h.2.2 (by decide)

theorem hit_spec {i : Nat} (h : hit drop stop l = some i) :
    i ∈ l ∧ drop i = false ∧ stop i = true := by
  induction l with
  | nil => cases h
  | cons j l ih =>
    rw [hit] at h
    split at h
    · exact (ih h).imp_left (List.mem_cons_of_mem j)
    rename_i hd
    split at h
    · rename_i hs
      cases h
      exact ⟨List.mem_cons_self, by simpa using hd, hs⟩
    · exact (ih h).imp_left (List.mem_cons_of_mem j)

/-- A traversal that never stops keeps only what it does not drop. -/
theorem not_drop_of_kept {i : Nat} (hnever : ∀ j, stop j = false) (h : i ∈ kept drop stop l) :
    drop i = false := by
  induction l with
  | nil => cases h
  | cons j l ih =>
    rw [kept, hnever j] at h
    split at h
    · exact ih h
    rename_i hj
    rcases List.mem_cons.mp h with rfl | h
    · simpa using hj
    · exact ih h

theorem kept_congr {drop' stop' : Nat → Bool} (hd : ∀ i ∈ l, drop' i = drop i)
    (hs : ∀ i ∈ l, stop' i = stop i) : kept drop' stop' l = kept drop stop l ∧
      dropped drop' stop' l = dropped drop stop l ∧ hit drop' stop' l = hit drop stop l := by
  induction l with
  | nil => exact ⟨rfl, rfl, rfl⟩
  | cons i l ih =>
    obtain ⟨h1, h2, h3⟩ := ih (fun j hj => hd j (List.mem_cons_of_mem i hj))
      fun j hj => hs j (List.mem_cons_of_mem i hj)
    simp only [kept, dropped, hit, hd i List.mem_cons_self, hs i List.mem_cons_self, h1, h2, h3,
      and_self]

end Lists

/-! ### Traversals of the store -/

section Walk

variable {reset : D → D} {drop stop : D → Bool} {s : Store D} {link : Link} {l F : List Nat}

theorem assign_next_ne {p : Option Nat} {i : Nat} (h : link ≠ .next i) :
    (s.assign link p).next i = s.next i := by
  cases link with
  | head b => rfl
  | next j => exact Function.update_of_ne (fun he => h (by rw [he])) _ _

@[simp] theorem assign_data {p : Option Nat} : (s.assign link p).data = s.data := by
  cases link <;> rfl

@[simp] theorem assign_free {p : Option Nat} : (s.assign link p).free = s.free := by
  cases link <;> rfl

theorem unlink_data_ne {i j : Nat} (h : j ≠ i) : (s.unlink reset link i).data j = s.data j := by
  simp [unlink, Function.update_of_ne h]

theorem unlink_next_self {i : Nat} : (s.unlink reset link i).next i = s.free := by
  simp [unlink]

theorem unlink_next_ne {i j : Nat} (h : j ≠ i) (hl : link ≠ .next j) :
    (s.unlink reset link i).next j = s.next j := by
  rw [unlink]
  simp only
  rw [Function.update_of_ne h, assign_next_ne hl]

theorem unlink_head_ne {i b : Nat} (h : link ≠ .head b) :
    (s.unlink reset link i).head b = s.head b := by
  cases link with
  | head c => exact Function.update_of_ne (fun he => h (by rw [he])) _ _
  | next o => rfl

/-- After an unlink, the link leads to the node after the one unlinked. -/
theorem unlink_deref {i : Nat} (h : link ≠ .next i) :
    (s.unlink reset link i).deref link = s.next i := by
  cases link with
  | head b => simp [unlink, deref, assign]
  | next o =>
    have ho : o ≠ i := fun he => h (by rw [he])
    simp [unlink, deref, assign, ho]

theorem kept_unlink (reset : D → D) (drop stop : D → Bool) (link : Link) {i : Nat}
    (hne : ∀ j ∈ l, j ≠ i) :
    kept (drop ∘ (s.unlink reset link i).data) (stop ∘ (s.unlink reset link i).data) l =
        kept (drop ∘ s.data) (stop ∘ s.data) l ∧
      dropped (drop ∘ (s.unlink reset link i).data) (stop ∘ (s.unlink reset link i).data) l =
        dropped (drop ∘ s.data) (stop ∘ s.data) l ∧
      hit (drop ∘ (s.unlink reset link i).data) (stop ∘ (s.unlink reset link i).data) l =
        hit (drop ∘ s.data) (stop ∘ s.data) l :=
  kept_congr (fun j hj => by simp [unlink_data_ne (hne j hj)])
    fun j hj => by simp [unlink_data_ne (hne j hj)]

/-- What a traversal of the list `l` from `link` on does to a store with free list `F`. -/
structure Walked (reset : D → D) (drop stop : D → Bool) (s : Store D) (link : Link)
    (l F : List Nat) (s' : Store D) : Prop where
  list : Linked s'.next (s'.deref link) (kept (drop ∘ s.data) (stop ∘ s.data) l)
  free : Linked s'.next s'.free ((dropped (drop ∘ s.data) (stop ∘ s.data) l).reverse ++ F)
  data : ∀ i, i ∉ dropped (drop ∘ s.data) (stop ∘ s.data) l → s'.data i = s.data i
  next : ∀ i, i ∉ l → link ≠ .next i → s'.next i = s.next i
  head : ∀ b, link ≠ .head b → s'.head b = s.head b

/-- A list that is disjoint from the free list is traversed in as many steps as it has nodes and
one more. -/
theorem walk_spec (reset : D → D) (drop stop : D → Bool) (link : Link) {fuel : Nat}
    (hList : Linked s.next (s.deref link) l)
    (hFree : Linked s.next s.free F) (hDisjoint : ∀ i ∈ l, i ∉ F)
    (hOwner : ∀ i, link = .next i → i ∉ l ∧ i ∉ F) (hFuel : l.length < fuel) :
    ∃ s', walk reset drop stop fuel s link =
        some (hit (drop ∘ s.data) (stop ∘ s.data) l, s') ∧
      Walked reset drop stop s link l F s' := by
  induction l generalizing fuel s link F with
  | nil =>
    obtain ⟨fuel, rfl⟩ : ∃ n, fuel = n + 1 := ⟨fuel - 1, by simp at hFuel; omega⟩
    have hnone : s.deref link = none := hList
    exact ⟨s, by rw [walk, hnone]; rfl, hList, hFree, fun _ _ => rfl, fun _ _ _ => rfl,
      fun _ _ => rfl⟩
  | cons i l ih =>
    obtain ⟨fuel, rfl⟩ : ∃ n, fuel = n + 1 := ⟨fuel - 1, by simp at hFuel; omega⟩
    obtain ⟨hp, hRest⟩ := hList
    have hFuel' : l.length < fuel := by simpa using hFuel
    have hnodup := List.nodup_cons.mp (Linked.nodup (p := some i) (l := i :: l) ⟨rfl, hRest⟩)
    have hiF := hDisjoint i List.mem_cons_self
    have hlink : link ≠ .next i := fun he => (hOwner i he).1 List.mem_cons_self
    rw [walk, hp]
    simp only
    by_cases hd : drop (s.data i) = true
    · -- the node goes to the free list, and the link now points to the node after it
      rw [if_pos hd]
      have hown : ∀ j, link = .next j → j ∉ l ∧ j ∉ F := fun j hj =>
        ⟨fun hm => (hOwner j hj).1 (List.mem_cons_of_mem i hm), (hOwner j hj).2⟩
      have hne : ∀ j ∈ l, j ≠ i := fun j hj he => hnodup.1 (he ▸ hj)
      have hList1 : Linked (s.unlink reset link i).next ((s.unlink reset link i).deref link) l := by
        rw [unlink_deref hlink]
        exact hRest.congr fun j hj => unlink_next_ne (hne j hj) fun he => (hown j he).1 hj
      have hFree1 : Linked (s.unlink reset link i).next (s.unlink reset link i).free (i :: F) := by
        refine ⟨rfl, ?_⟩
        rw [unlink_next_self]
        exact hFree.congr fun j hj =>
          unlink_next_ne (fun he => hiF (he ▸ hj)) fun he => (hown j he).2 hj
      obtain ⟨s', hrun, h⟩ := ih link hList1 hFree1
        (fun j hj => by
          rw [List.mem_cons, not_or]
          exact ⟨hne j hj, hDisjoint j (List.mem_cons_of_mem i hj)⟩)
        (fun j hj => ⟨(hown j hj).1, by
          rw [List.mem_cons, not_or]
          exact ⟨fun he => hlink (he ▸ hj), (hown j hj).2⟩⟩) hFuel'
      obtain ⟨hk, hdr, hh⟩ := kept_unlink (s := s) reset drop stop link hne
      have hkc : kept (drop ∘ s.data) (stop ∘ s.data) (i :: l) =
          kept (drop ∘ s.data) (stop ∘ s.data) l := by simp [kept, hd]
      have hdc : dropped (drop ∘ s.data) (stop ∘ s.data) (i :: l) =
          i :: dropped (drop ∘ s.data) (stop ∘ s.data) l := by simp [dropped, hd]
      refine ⟨s', ?_, ?_, ?_, fun j hj => ?_, fun j hj hl => ?_, fun b hb => ?_⟩
      · rw [hrun, hh]
        simp [hit, hd]
      · rw [hkc, ← hk]
        exact h.list
      · rw [hdc, ← hdr]
        simpa using h.free
      · rw [hdc, List.mem_cons, not_or] at hj
        rw [h.data j (by rw [hdr]; exact hj.2), unlink_data_ne hj.1]
      · rw [List.mem_cons, not_or] at hj
        rw [h.next j hj.2 hl, unlink_next_ne hj.1 hl]
      · rw [h.head b hb, unlink_head_ne hb]
    rw [if_neg hd]
    by_cases hs : stop (s.data i) = true
    · rw [if_pos hs]
      refine ⟨s, by simp [hit, hd, hs], ?_, ?_, fun _ _ => rfl, fun _ _ _ => rfl, fun _ _ => rfl⟩
      · rw [kept, if_neg (by simpa using hd), if_pos (by simpa using hs)]
        exact ⟨hp, hRest⟩
      · simpa [dropped, hd, hs] using hFree
    · -- the node stays, and its own link leads on
      rw [if_neg hs]
      obtain ⟨s', hrun, h⟩ := ih (.next i) hRest hFree
        (fun j hj => hDisjoint j (List.mem_cons_of_mem i hj))
        (fun j hj => by cases hj; exact ⟨hnodup.1, hiF⟩) hFuel'
      refine ⟨s', by rw [hrun]; simp [hit, hd, hs], ?_, ?_, fun j hj => h.data j ?_,
        fun j hj hl => ?_, fun b hb => h.head b (by simp)⟩
      · have hstart : s'.deref link = some i := by
          rw [← hp]
          cases link with
          | head b => exact h.head b (by simp)
          | next o =>
            refine h.next o (fun hm => (hOwner o rfl).1 (List.mem_cons_of_mem i hm)) ?_
            rintro he
            cases he
            exact (hOwner i rfl).1 List.mem_cons_self
        rw [kept, if_neg (by simpa using hd), if_neg (by simpa using hs)]
        exact ⟨hstart, h.list⟩
      · simpa [dropped, hd, hs] using h.free
      · simpa [dropped, hd, hs] using hj
      · rw [List.mem_cons, not_or] at hj
        exact h.next j hj.2 fun he => hj.1 (by cases he; rfl)

end Walk

/-! ### Partitions of a pool of nodes -/

section Pool

variable {n m : Nat} {B : Nat → List Nat} {F out : List Nat}

/-- The first `n` heads start the lists `B`, the free list is `F`, and each of the first `m` nodes
is in exactly one of these lists or of the nodes `out` that are in none, once. -/
structure Repr (s : Store D) (n m : Nat) (B : Nat → List Nat) (F out : List Nat) : Prop where
  heads : ∀ b < n, Linked s.next (s.head b) (B b)
  free : Linked s.next s.free F
  perm : ((List.range n).flatMap B ++ (F ++ out)).Perm (List.range m)

theorem flatMap_update_perm {bs : List Nat} (hbs : bs.Nodup) {b : Nat} (hb : b ∈ bs)
    {l d : List Nat} (hl : (l ++ d).Perm (B b)) :
    (bs.flatMap (Function.update B b l) ++ d).Perm (bs.flatMap B) := by
  induction bs with
  | nil => cases hb
  | cons c bs ih =>
    obtain ⟨hc, hbs⟩ := List.nodup_cons.mp hbs
    rw [List.flatMap_cons, List.flatMap_cons]
    by_cases hcb : c = b
    · subst hcb
      have hrest : bs.flatMap (Function.update B c l) = bs.flatMap B :=
        List.flatMap_congr fun e he => Function.update_of_ne (by rintro rfl; exact hc he) _ _
      rw [hrest, Function.update_self, List.append_assoc]
      refine (List.perm_append_comm.append_left l).trans ?_
      rw [← List.append_assoc]
      exact hl.append_right _
    · rw [Function.update_of_ne hcb, List.append_assoc]
      exact (ih hbs ((List.mem_cons.mp hb).resolve_left fun h => hcb h.symm)).append_left _

namespace Repr

variable {s s' : Store D} {reset : D → D} {drop stop : D → Bool} {b : Nat}

theorem nodup (h : s.Repr n m B F out) : ((List.range n).flatMap B ++ (F ++ out)).Nodup :=
  h.perm.nodup_iff.mpr List.nodup_range

theorem lt (h : s.Repr n m B F out) {i : Nat}
    (hi : (∃ b < n, i ∈ B b) ∨ i ∈ F ∨ i ∈ out) : i < m := by
  refine List.mem_range.mp (h.perm.mem_iff.mp ?_)
  simpa [List.mem_append, List.mem_flatMap] using hi

theorem bucket_unique (h : s.Repr n m B F out) {b c i : Nat} (hb : b < n) (hc : c < n)
    (hib : i ∈ B b) (hic : i ∈ B c) : b = c := by
  by_contra hne
  have hd := (List.nodup_flatMap.mp (List.nodup_append'.mp h.nodup).1).2
  have hsymm : Std.Symm (Function.onFun List.Disjoint B) := ⟨fun _ _ hxy => hxy.symm⟩
  exact hd.forall (List.mem_range.mpr hb) (List.mem_range.mpr hc) hne hib hic

theorem not_free (h : s.Repr n m B F out) (hb : b < n) {i : Nat} (hi : i ∈ B b) :
    i ∉ F ∧ i ∉ out := by
  have hd := (List.nodup_append'.mp h.nodup).2.2
  have hm : i ∈ (List.range n).flatMap B := List.mem_flatMap.mpr ⟨b, List.mem_range.mpr hb, hi⟩
  exact ⟨fun hf => hd hm (List.mem_append_left out hf), fun ho =>
    hd hm (List.mem_append_right F ho)⟩

theorem free_not_out (h : s.Repr n m B F out) {i : Nat} (hi : i ∈ F) : i ∉ out :=
  (List.nodup_append'.mp (List.nodup_append'.mp h.nodup).2.1).2.2 hi

theorem length_le (h : s.Repr n m B F out) (hb : b < n) : (B b).length ≤ m := by
  have hsub : B b ⊆ List.range m := fun i hi => List.mem_range.mpr (h.lt (.inl ⟨b, hb, hi⟩))
  simpa using (h.heads b hb).nodup.length_le_of_subset hsub

/-- A traversal of a list of a partitioned pool moves the nodes it drops to the free list. -/
theorem walk (h : s.Repr n m B F out) (reset : D → D) (drop stop : D → Bool) (hb : b < n) :
    ∃ s', Store.walk reset drop stop (m + 1) s (.head b) =
        some (hit (drop ∘ s.data) (stop ∘ s.data) (B b), s') ∧
      s'.Repr n m (Function.update B b (kept (drop ∘ s.data) (stop ∘ s.data) (B b)))
        ((dropped (drop ∘ s.data) (stop ∘ s.data) (B b)).reverse ++ F) out ∧
      (∀ c < n, ∀ i ∈ Function.update B b (kept (drop ∘ s.data) (stop ∘ s.data) (B b)) c,
        i ∈ B c ∧ s'.data i = s.data i) ∧
      ∀ i ∈ out, s'.data i = s.data i := by
  obtain ⟨s', hrun, hw⟩ := walk_spec reset drop stop (.head b) (h.heads b hb) h.free
    (fun i hi => (h.not_free hb hi).1) (fun i hi => by cases hi)
    (Nat.lt_succ_of_le (h.length_le hb))
  have hparts := perm_kept_dropped (drop ∘ s.data) (stop ∘ s.data) (B b)
  have hdropped : ∀ i, i ∈ dropped (drop ∘ s.data) (stop ∘ s.data) (B b) → i ∈ B b := fun i hi =>
    hparts.mem_iff.mp (List.mem_append_right _ hi)
  refine ⟨s', hrun, ⟨fun c hc => ?_, hw.free, ?_⟩, fun c hc i hi => ?_, fun i hi => ?_⟩
  · by_cases hcb : c = b
    · subst hcb
      rw [Function.update_self]
      exact hw.list
    · rw [Function.update_of_ne hcb, hw.head c fun he => hcb (by cases he; rfl)]
      refine (h.heads c hc).congr fun i hi => hw.next i (fun hib => ?_) (by simp)
      exact hcb (h.bucket_unique hc hb hi hib)
  · refine List.Perm.trans ?_ h.perm
    have hflat := flatMap_update_perm (B := B) List.nodup_range (List.mem_range.mpr hb) hparts
    rw [List.append_assoc, ← List.append_assoc]
    exact (((List.reverse_perm _).append_left _).trans hflat).append_right _
  · by_cases hcb : c = b
    · subst hcb
      rw [Function.update_self] at hi
      have hnodup := List.nodup_append'.mp (hparts.nodup_iff.mpr (h.heads c hc).nodup)
      exact ⟨kept_sublist.subset hi, hw.data i fun hd => hnodup.2.2 hi hd⟩
    · rw [Function.update_of_ne hcb] at hi
      exact ⟨hi, hw.data i fun hd => hcb (h.bucket_unique hc hb hi (hdropped i hd))⟩
  · exact hw.data i fun hd => (h.not_free hb (hdropped i hd)).2 hi

/-- Take the first node of the free list out of the pool. -/
theorem pop {i : Nat} (h : s.Repr n m B (i :: F) out) (d : D) :
    Repr { s with data := Function.update s.data i d, next := Function.update s.next i none,
                  free := s.next i } n m B F (i :: out) := by
  have hperm : ((List.range n).flatMap B ++ (F ++ i :: out)).Perm (List.range m) :=
    ((List.perm_middle : (F ++ i :: out).Perm _).append_left _).trans h.perm
  have hfree := List.nodup_cons.mp h.free.nodup
  refine ⟨fun b hb => (h.heads b hb).congr fun j hj => Function.update_of_ne ?_ _ _,
    h.free.2.congr fun j hj => Function.update_of_ne ?_ _ _, hperm⟩
  · rintro rfl
    exact (h.not_free hb hj).1 List.mem_cons_self
  · rintro rfl
    exact hfree.1 hj

/-- Link a node from outside of the pool at the head of a list. -/
theorem push {i : Nat} (h : s.Repr n m B F (i :: out)) (hb : b < n) :
    Repr { s with next := Function.update s.next i (s.head b),
                  head := Function.update s.head b (some i) }
      n m (Function.update B b (i :: B b)) F out := by
  have hne : ∀ {c j}, c < n → j ∈ B c → j ≠ i := by
    rintro c j hc hj rfl
    exact (h.not_free hc hj).2 List.mem_cons_self
  refine ⟨fun c hc => ?_, h.free.congr fun j hj => Function.update_of_ne ?_ _ _, ?_⟩
  · have hrest : ∀ {p}, Linked s.next p (B c) →
        Linked (Function.update s.next i (s.head b)) p (B c) := fun hp =>
      hp.congr fun j hj => Function.update_of_ne (hne hc hj) _ _
    by_cases hcb : c = b
    · subst hcb
      simp only [Function.update_self]
      exact ⟨rfl, by rw [Function.update_self]; exact hrest (h.heads c hc)⟩
    · rw [Function.update_of_ne hcb]
      simp only [Function.update_of_ne hcb]
      exact hrest (h.heads c hc)
  · rintro rfl
    exact h.free_not_out hj List.mem_cons_self
  · have hflat := flatMap_update_perm (B := Function.update B b (i :: B b)) (l := B b) (d := [i])
      List.nodup_range (List.mem_range.mpr hb)
      (by rw [Function.update_self]; exact List.perm_append_comm)
    rw [Function.update_idem, Function.update_eq_self] at hflat
    refine (hflat.symm.append_right _).trans (List.Perm.trans ?_ h.perm)
    rw [List.append_assoc]
    exact (List.perm_middle : (F ++ i :: out).Perm _).symm.append_left _

end Repr

end Pool

end Store

end Chains
