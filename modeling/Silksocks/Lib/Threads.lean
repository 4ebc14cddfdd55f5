import Mathlib.Algebra.BigOperators.Group.Finset.Basic
import Mathlib.Algebra.BigOperators.Pi
import Mathlib.Algebra.BigOperators.Ring.Finset
import Mathlib.Algebra.Order.BigOperators.Group.Finset
import Mathlib.Tactic.Abel
import Silksocks.Lib.Lts

/-! Threads that share a state.  Each thread is at a control point and moves on by itself; a move may
wake threads that sleep on a condition variable.  What the threads hold, each at its control point,
is added up by `total`, in any commutative monoid.  When every move balances, so that what a thread
takes up or gives away is on record in the shared state, the record is right in every state. -/

namespace Threads

variable {S A L W : Type}

/-! ### What threads hold -/

section Total

variable [AddCommMonoid W]

/-- What the first `n` threads hold together, at the control points `f`. -/
def total (w : A → W) (f : Nat → A) (n : Nat) : W := ∑ i ∈ Finset.range n, w (f i)

variable {w : A → W} {f : Nat → A} {n i : Nat} {x : A}

/-- When one thread moves on, what it holds there replaces what it held before. -/
theorem total_update (hi : i < n) (w : A → W) (f : Nat → A) (x : A) :
    total w (Function.update f i x) n + w (f i) = total w f n + w x := by
  have hmem : i ∈ Finset.range n := Finset.mem_range.mpr hi
  have hrest : ∑ j ∈ (Finset.range n).erase i, w (Function.update f i x j) =
      ∑ j ∈ (Finset.range n).erase i, w (f j) :=
    Finset.sum_congr rfl fun j hj => by rw [Function.update_of_ne (Finset.ne_of_mem_erase hj)]
  rw [total, total, ← Finset.add_sum_erase _ _ hmem, hrest, Function.update_self,
    ← Finset.add_sum_erase _ _ hmem]
  abel

theorem total_congr {f' : Nat → A} (h : ∀ j < n, w (f' j) = w (f j)) :
    total w f' n = total w f n :=
  Finset.sum_congr rfl fun j hj => h j (Finset.mem_range.mp hj)

theorem total_eq_zero (h : ∀ j < n, w (f j) = 0) : total w f n = 0 :=
  Finset.sum_eq_zero fun j hj => h j (Finset.mem_range.mp hj)

/-- What the threads hold of each kind is counted kind by kind. -/
theorem total_apply {K : Type} (w : A → K → W) (k : K) :
    total w f n k = total (fun a => w a k) f n := Finset.sum_apply ..

/-- A size of what the threads hold adds up as that does. -/
theorem map_total {V : Type} [AddCommMonoid V] (g : W →+ V) (w : A → W) (f : Nat → A) (n : Nat) :
    g (total w f n) = total (fun a => g (w a)) f n := map_sum g ..

end Total

/-- What one thread holds is part of what all hold. -/
theorem le_total {w : A → Nat} {f : Nat → A} {n i : Nat} (hi : i < n) : w (f i) ≤ total w f n :=
  Finset.single_le_sum (f := fun j => w (f j)) (fun _ _ => Nat.zero_le _) (Finset.mem_range.mpr hi)

theorem add_le_total {w : A → Nat} {f : Nat → A} {n i j : Nat} (hi : i < n) (hj : j < n)
    (hne : i ≠ j) : w (f i) + w (f j) ≤ total w f n := by
  have hsub : ({i, j} : Finset Nat) ⊆ Finset.range n := by
    simp [Finset.insert_subset_iff, hi, hj]
  have hle := Finset.sum_le_sum_of_subset (f := fun k => w (f k)) hsub
  rwa [Finset.sum_pair hne] at hle

theorem total_le_total {w w' : A → Nat} {f : Nat → A} {n : Nat} (h : ∀ a, w a ≤ w' a) :
    total w f n ≤ total w' f n := Finset.sum_le_sum fun i _ => h (f i)

/-- The number of threads at control points that meet `p`. -/
def number (p : A → Bool) (f : Nat → A) (n : Nat) : Nat := total (fun a => (p a).toNat) f n

section Number

variable {p : A → Bool} {f : Nat → A} {n i j : Nat}

theorem number_eq_zero : number p f n = 0 ↔ ∀ i < n, p (f i) = false := by
  simp [number, total]

theorem number_le : number p f n ≤ n := by
  have h := Finset.sum_le_card_nsmul (Finset.range n) (fun i => (p (f i)).toNat) 1
    fun i _ => Bool.toNat_le _
  simpa [number, total] using h

/-- Points that only the first `m` threads are at. -/
theorem number_le_of_lt {m : Nat} (h : ∀ i < n, p (f i) = true → i < m) : number p f n ≤ m := by
  have hsub : ∀ i ∈ Finset.range n, i ∉ (Finset.range n).filter (· < m) → (p (f i)).toNat = 0 := by
    intro i hi hno
    by_contra hne
    have hp : p (f i) = true := by simpa using hne
    exact hno (Finset.mem_filter.mpr ⟨hi, h i (Finset.mem_range.mp hi) hp⟩)
  rw [number, total, ← Finset.sum_subset (Finset.filter_subset _ _) hsub]
  calc ∑ i ∈ (Finset.range n).filter (· < m), (p (f i)).toNat
      ≤ ∑ _i ∈ (Finset.range n).filter (· < m), 1 := Finset.sum_le_sum fun i _ => Bool.toNat_le _
    _ = ((Finset.range n).filter (· < m)).card := by simp
    _ ≤ (Finset.range m).card := Finset.card_le_card fun i hi =>
      Finset.mem_range.mpr (Finset.mem_filter.mp hi).2
    _ = m := Finset.card_range m

/-- Where at most one thread is, no two are. -/
theorem number_unique (h : number p f n ≤ 1) (hi : i < n) (hj : j < n) (hpi : p (f i) = true)
    (hpj : p (f j) = true) : i = j := by
  by_contra hne
  have hle := add_le_total (w := fun a => (p a).toNat) (f := f) hi hj hne
  rw [hpi, hpj] at hle
  exact absurd (hle.trans h) (by decide)

theorem number_eq_of_iff {m : Nat} (h : ∀ i < n, p (f i) = true ↔ i < m) (hm : m ≤ n) :
    number p f n = m := by
  have hone : ∀ i ∈ Finset.range n, (p (f i)).toNat = if i ∈ Finset.range m then 1 else 0 := by
    intro i hi
    have hiff := h i (Finset.mem_range.mp hi)
    by_cases him : i < m
    · rw [hiff.mpr him, if_pos (Finset.mem_range.mpr him)]
      rfl
    · rw [Bool.eq_false_iff.mpr fun hp => him (hiff.mp hp), if_neg (by simpa using him)]
      rfl
  rw [number, total, Finset.sum_congr rfl hone, Finset.sum_ite_mem,
    Finset.inter_eq_right.mpr (Finset.range_subset_range.mpr hm)]
  simp

/-- Threads that hold at most `k` each, where they hold anything. -/
theorem total_le_mul {w : A → Nat} {k : Nat} (h : ∀ i < n, w (f i) ≤ k * (p (f i)).toNat) :
    total w f n ≤ k * number p f n := by
  rw [number, total, total, Finset.mul_sum]
  exact Finset.sum_le_sum fun i hi => h i (Finset.mem_range.mp hi)

/-- Where only the first `m` threads can be and `m` threads are, all of these are. -/
theorem forall_lt_of_number_eq {m : Nat} (hlt : ∀ i < n, p (f i) = true → i < m)
    (h : number p f n = m) : ∀ i < m, p (f i) = true := by
  intro i him
  by_contra hno
  have hi : i < n := him.trans_le (h ▸ number_le)
  have hupd := total_update hi (fun b => b.toNat) (fun j => p (f j)) true
  have hle : total (fun b => b.toNat) (Function.update (fun j => p (f j)) i true) n ≤ m := by
    refine number_le_of_lt (p := id) fun j hj hpj => ?_
    by_cases hji : j = i
    · rwa [hji]
    · exact hlt j hj (by rwa [Function.update_of_ne hji] at hpj)
  have hsame : total (fun b : Bool => b.toNat) (fun j => p (f j)) n = m := h
  rw [Bool.not_eq_true] at hno
  simp only [hno, hsame, Bool.toNat_false, Bool.toNat_true] at hupd
  omega

end Number

/-! ### Systems of threads -/

/-- What a move does to threads that sleep: it wakes one of those at control points that meet `p`,
or all of them, and they go on at `a`. -/
inductive Wake (A : Type)
  | none
  | one (p : A → Bool) (a : A)
  | all (p : A → Bool) (a : A)

/-- The control points of the first `n` threads before and after a wake. -/
inductive Woken (n : Nat) : Wake A → (Nat → A) → (Nat → A) → Prop
  | none {f : Nat → A} : Woken n .none f f
  | one {p : A → Bool} {a : A} {f : Nat → A} {i : Nat} (hi : i < n) (hp : p (f i) = true) :
    Woken n (.one p a) f (Function.update f i a)
  | nobody {p : A → Bool} {a : A} {f : Nat → A} (h : ∀ i < n, p (f i) = false) :
    Woken n (.one p a) f f
  | all {p : A → Bool} {a : A} {f : Nat → A} :
    Woken n (.all p a) f fun i => if p (f i) = true then a else f i

/-- A thread that a wake finds at `b` goes on at `a`. -/
def Wake.Moves : Wake A → A → A → Prop
  | .none, _, _ => False
  | .one p a, b, b' => p b = true ∧ b' = a
  | .all p a, b, b' => p b = true ∧ b' = a

theorem Woken.moves {n : Nat} {wk : Wake A} {f f' : Nat → A} (h : Woken n wk f f') (i : Nat) :
    f' i = f i ∨ wk.Moves (f i) (f' i) := by
  cases h with
  | none | nobody => exact .inl rfl
  | @one p a f j hj hp =>
    by_cases hij : i = j
    · subst hij
      exact .inr ⟨hp, Function.update_self ..⟩
    · exact .inl (Function.update_of_ne hij ..)
  | @all p a f =>
    dsimp only
    by_cases hp : p (f i) = true
    · exact .inr ⟨hp, if_pos hp⟩
    · exact .inl (if_neg hp)

theorem Woken.exists (n : Nat) (wk : Wake A) (f : Nat → A) : ∃ f', Woken n wk f f' := by
  cases wk with
  | none => exact ⟨f, .none⟩
  | one p a =>
    by_cases h : ∃ i < n, p (f i) = true
    · obtain ⟨i, hi, hp⟩ := h
      exact ⟨_, .one hi hp⟩
    · exact ⟨f, .nobody fun i hi => Bool.eq_false_iff.mpr fun hp => h ⟨i, hi, hp⟩⟩
  | all p a => exact ⟨_, .all⟩

/-- How many of `n` threads a wake reaches. -/
@[simp] def Wake.number (n : Nat) : Wake A → Nat
  | .none => 0
  | .one _ _ => 1
  | .all _ _ => n

theorem Woken.total_le {n k : Nat} {wk : Wake A} {w : A → Nat} {f f' : Nat → A}
    (h : Woken n wk f f') (hk : ∀ b b', wk.Moves b b' → w b' ≤ w b + k) :
    total w f' n ≤ total w f n + wk.number n * k := by
  cases h with
  | none | nobody => exact Nat.le_add_right _ _
  | @one p a f i hi hp =>
    have hupd := total_update hi w f a
    have hle := hk (f i) a ⟨hp, rfl⟩
    simp only [Wake.number]
    omega
  | @all p a f =>
    calc total w (fun i => if p (f i) = true then a else f i) n
        ≤ ∑ i ∈ Finset.range n, (w (f i) + k) := Finset.sum_le_sum fun i _ => by
          dsimp only
          split
          next hp => exact hk (f i) a ⟨hp, rfl⟩
          next => exact Nat.le_add_right _ _
      _ = total w f n + n * k := by
        rw [Finset.sum_add_distrib, Finset.sum_const, Finset.card_range, smul_eq_mul]
        rfl

/-- How one thread moves on, with the shared state, and whom its move wakes. -/
structure System (S A L : Type) where
  move : S → A → L → S → A → Prop
  wake : L → Wake A

/-- The shared state and the control points of the threads. -/
structure State (S A : Type) where
  shared : S
  pcs : Nat → A

namespace System

/-- One step of a system of `n` threads: the thread of the label moves, as far as `G` allows. -/
inductive Step (P : System S A L) (G : State S A → Nat → L → Prop) (n : Nat) :
    State S A → Nat × L → State S A → Prop
  | mk {s s' : S} {f f' : Nat → A} {i : Nat} {a : A} {l : L} (hi : i < n) (hg : G ⟨s, f⟩ i l)
    (hmove : P.move s (f i) l s' a) (hwake : Woken n (P.wake l) (Function.update f i a) f') :
    Step P G n ⟨s, f⟩ (i, l) ⟨s', f'⟩

variable {P : System S A L} {G G' : State S A → Nat → L → Prop} {n : Nat} {t t' t0 : State S A}
  {ls : List (Nat × L)}

theorem Step.mono (hG : ∀ t i l, G t i l → G' t i l) {l : Nat × L} (h : P.Step G n t l t') :
    P.Step G' n t l t' := by
  cases h with
  | mk hi hg hmove hwake => exact .mk hi (hG _ _ _ hg) hmove hwake

theorem run_mono (hG : ∀ t i l, G t i l → G' t i l) (h : Lts.Run (P.Step G n) t ls t') :
    Lts.Run (P.Step G' n) t ls t' := by
  induction h with
  | nil => exact .nil
  | snoc _ hs ih => exact ih.snoc (hs.mono hG)

/-- The rule for shared invariants: only moves change the shared state. -/
theorem run_shared {I : List (Nat × L) → S → Prop} (h : Lts.Run (P.Step G n) t0 ls t)
    (hinit : I [] t0.shared)
    (hmove : ∀ ls s f i l s' a, Lts.Run (P.Step G n) t0 ls ⟨s, f⟩ → i < n → G ⟨s, f⟩ i l →
      I ls s → P.move s (f i) l s' a → I (ls ++ [(i, l)]) s') :
    I ls t.shared := by
  refine h.invariant (I := fun ls t => I ls t.shared) hinit ?_
  rintro ls t1 l t2 hrun hI ⟨hi, hg, hm, -⟩
  exact hmove _ _ _ _ _ _ _ hrun hi hg hI hm

/-- The rule for control points: what every thread is at. -/
theorem run_pcs {Q : S → Nat → A → Prop} (h : Lts.Run (P.Step G n) t0 ls t)
    (hinit : ∀ i, Q t0.shared i (t0.pcs i))
    (hmove : ∀ ls s f i l s' a, Lts.Run (P.Step G n) t0 ls ⟨s, f⟩ → i < n → G ⟨s, f⟩ i l →
      (∀ j, Q s j (f j)) → P.move s (f i) l s' a → Q s' i a ∧ ∀ j, j ≠ i → Q s' j (f j))
    (hwake : ∀ s l j b b', (P.wake l).Moves b b' → Q s j b → Q s j b') :
    ∀ i, Q t.shared i (t.pcs i) := by
  refine h.invariant (I := fun _ t => ∀ i, Q t.shared i (t.pcs i)) hinit ?_
  rintro ls t1 l t2 hrun hQ ⟨hi, hg, hm, hw⟩ j
  obtain ⟨hself, hother⟩ := hmove _ _ _ _ _ _ _ hrun hi hg hQ hm
  rename_i s s' f f' i a l
  have hj : Q s' j (Function.update f i a j) := by
    by_cases hij : j = i
    · subst hij
      rwa [Function.update_self]
    · rw [Function.update_of_ne hij]
      exact hother j hij
  dsimp only
  rcases hw.moves j with he | hmv
  · rwa [he]
  · exact hwake _ _ _ _ _ hmv hj

/-- The rule of balance: `l` is on record for `r` and for what the threads hold.  If each move
changes both sides alike, and keeps the shared invariant `I`, they agree in every state. -/
theorem run_balance_with [AddCancelCommMonoid W] {I : List (Nat × L) → S → Prop} {w : A → W}
    {l r : List (Nat × L) → S → W} (h : Lts.Run (P.Step G n) t0 ls t)
    (hI : I [] t0.shared) (hinit : l [] t0.shared = r [] t0.shared + total w t0.pcs n)
    (hmove : ∀ ls s f i e s' a, Lts.Run (P.Step G n) t0 ls ⟨s, f⟩ → i < n → G ⟨s, f⟩ i e →
      I ls s → l ls s = r ls s + total w f n → P.move s (f i) e s' a →
      I (ls ++ [(i, e)]) s' ∧
        l (ls ++ [(i, e)]) s' + (r ls s + w (f i)) = l ls s + (r (ls ++ [(i, e)]) s' + w a))
    (hwake : ∀ e b b', (P.wake e).Moves b b' → w b' = w b) :
    I ls t.shared ∧ l ls t.shared = r ls t.shared + total w t.pcs n := by
  refine h.invariant
    (I := fun ls t => I ls t.shared ∧ l ls t.shared = r ls t.shared + total w t.pcs n)
    ⟨hI, hinit⟩ ?_
  rintro ls t1 e t2 hrun ⟨hI, heq⟩ ⟨hi, hg, hm, hw⟩
  rename_i s s' f f' i a e
  dsimp only at hI heq ⊢
  obtain ⟨hI', hbal⟩ := hmove ls s f i e s' a hrun hi hg hI heq hm
  refine ⟨hI', ?_⟩
  have htotal : total w f' n = total w (Function.update f i a) n := by
    refine total_congr fun j _ => ?_
    rcases hw.moves j with he | hmv
    · rw [he]
    · exact hwake _ _ _ hmv
  have hupd := total_update hi w f a
  rw [heq] at hbal
  rw [htotal]
  refine add_right_cancel (b := r ls s + w (f i)) (hbal.trans ?_)
  calc r ls s + total w f n + (r (ls ++ [(i, e)]) s' + w a)
      = r (ls ++ [(i, e)]) s' + r ls s + (total w f n + w a) := by abel
    _ = r (ls ++ [(i, e)]) s' + r ls s + (total w (Function.update f i a) n + w (f i)) := by
      rw [hupd]
    _ = r (ls ++ [(i, e)]) s' + total w (Function.update f i a) n + (r ls s + w (f i)) := by abel

theorem run_balance [AddCancelCommMonoid W] {w : A → W} {l r : List (Nat × L) → S → W}
    (h : Lts.Run (P.Step G n) t0 ls t) (hinit : l [] t0.shared = r [] t0.shared + total w t0.pcs n)
    (hmove : ∀ ls s i e s' a a', P.move s a e s' a' →
      l (ls ++ [(i, e)]) s' + (r ls s + w a) = l ls s + (r (ls ++ [(i, e)]) s' + w a'))
    (hwake : ∀ e b b', (P.wake e).Moves b b' → w b' = w b) :
    l ls t.shared = r ls t.shared + total w t.pcs n :=
  (run_balance_with (I := fun _ _ => True) h trivial hinit
    (fun ls _ _ i _ _ _ _ _ _ _ _ hm => ⟨trivial, hmove ls _ i _ _ _ _ hm⟩) hwake).2

/-- The rule of mutexes: `held` tells whether a thread is at one of the points that meet `p`. -/
theorem run_mutex {p : A → Bool} {held : S → Bool} (h : Lts.Run (P.Step G n) t0 ls t)
    (hinit : held t0.shared = false) (hfree : ∀ i < n, p (t0.pcs i) = false)
    (hmove : ∀ s a e s' a', P.move s a e s' a' → (p a = true → held s = true) →
      (held s').toNat + (p a).toNat = (held s).toNat + (p a').toNat)
    (hwake : ∀ e b b', (P.wake e).Moves b b' → p b' = p b) :
    (held t.shared).toNat = number p t.pcs n := by
  have hbal := run_balance_with (I := fun _ _ => True) (w := fun a => (p a).toNat)
    (l := fun _ s => (held s).toNat) (r := fun _ _ => 0) h trivial ?_ ?_ ?_
  · exact hbal.2.trans (Nat.zero_add _)
  · rw [hinit, total_eq_zero fun i hi => by rw [hfree i hi]; rfl]
    rfl
  · intro ls s f i e s' a _ hi _ _ heq hm
    have howner (hp : p (f i) = true) : held s = true := by
      have hle := le_total (w := fun a => (p a).toNat) (f := f) hi
      have hone : (p (f i)).toNat = 1 := by rw [hp]; rfl
      by_contra hno
      rw [Bool.not_eq_true] at hno
      rw [hno, Bool.toNat_false] at heq
      omega
    have hone := hmove s (f i) e s' a hm howner
    exact ⟨trivial, by omega⟩
  · exact fun e b b' hmv => by rw [hwake e b b' hmv]

/-- The rule of counters: `v` is the number of threads that are at the points that meet `p`. -/
theorem run_counter {p : A → Bool} {v : S → Int} (h : Lts.Run (P.Step G n) t0 ls t)
    (hinit : v t0.shared = 0) (hnone : ∀ i < n, p (t0.pcs i) = false)
    (hmove : ∀ s a e s' a', P.move s a e s' a' → v s' + (p a).toNat = v s + (p a').toNat)
    (hwake : ∀ e b b', (P.wake e).Moves b b' → p b' = p b) :
    v t.shared = number p t.pcs n := by
  have hbal := run_balance (w := fun a => ((p a).toNat : Int)) (l := fun _ s => v s)
    (r := fun _ _ => 0) h ?_ ?_ ?_
  · rw [number, total, Nat.cast_sum]
    exact hbal.trans (zero_add _)
  · rw [hinit, total_eq_zero fun i hi => by rw [hnone i hi]; rfl]
    rfl
  · intro ls s i e s' a a' hm
    rw [zero_add, zero_add]
    exact hmove s a e s' a' hm
  · exact fun e b b' hmv => by rw [hwake e b b' hmv]

/-- The rule of responsibility: the shared state is as it should be, or some thread is at a point
from which it sees to it. -/
theorem run_exists {I : S → Prop} {p : A → Prop} (h : Lts.Run (P.Step G n) t0 ls t)
    (hinit : I t0.shared)
    (hmove : ∀ ls s f i e s' a, Lts.Run (P.Step G n) t0 ls ⟨s, f⟩ → i < n →
      P.move s (f i) e s' a → I s ∨ p (f i) → I s' ∨ p a)
    (hwake : ∀ e b b', (P.wake e).Moves b b' → p b → p b') :
    I t.shared ∨ ∃ i < n, p (t.pcs i) := by
  refine h.invariant (I := fun _ t => I t.shared ∨ ∃ i < n, p (t.pcs i)) (.inl hinit) ?_
  rintro ls t1 e t2 hrun hI ⟨hi, hg, hm, hw⟩
  rename_i s s' f f' i a e
  have hstay (j : Nat) (hj : p (Function.update f i a j)) : p (f' j) := by
    rcases hw.moves j with he | hmv
    · rwa [he]
    · exact hwake _ _ _ hmv hj
  have hself (h : I s' ∨ p a) : I s' ∨ ∃ j < n, p (f' j) := by
    refine h.imp_right fun ha => ⟨i, hi, hstay i ?_⟩
    rwa [Function.update_self]
  dsimp only at hI ⊢
  rcases hI with hs | ⟨j, hj, hpj⟩
  · exact hself (hmove ls s f i e s' a hrun hi hm (.inl hs))
  · by_cases hji : j = i
    · subst hji
      exact hself (hmove ls s f j e s' a hrun hi hm (.inr hpj))
    · refine .inr ⟨j, hj, hstay j ?_⟩
      rwa [Function.update_of_ne hji]

/-- The rule of lone threads: whoever enters the points that meet `p` finds nobody there. -/
theorem run_unique {p : A → Bool} (h : Lts.Run (P.Step G n) t0 ls t)
    (hinit : ∀ i, p (t0.pcs i) = false)
    (hmove : ∀ s f i e s' a, G ⟨s, f⟩ i e → P.move s (f i) e s' a → p a = true →
      p (f i) = true ∨ ∀ j, p (f j) = false)
    (hwake : ∀ e b b', (P.wake e).Moves b b' → p b' = p b) {i j : Nat}
    (hi : p (t.pcs i) = true) (hj : p (t.pcs j) = true) : i = j := by
  refine h.invariant (I := fun _ t => ∀ i j, p (t.pcs i) = true → p (t.pcs j) = true → i = j)
    ?_ ?_ i j hi hj
  · intro i j hi
    rw [hinit] at hi
    cases hi
  · rintro ls t1 e t2 - hI ⟨-, hg, hm, hw⟩ i j hi hj
    rename_i s s' f f' k a e
    have hback (j : Nat) (hj : p (f' j) = true) : p (f j) = true ∨ j = k ∧ p a = true := by
      have hupd : p (Function.update f k a j) = true := by
        rcases hw.moves j with he | hmv
        · rwa [← he]
        · rwa [← hwake _ _ _ hmv]
      by_cases hjk : j = k
      · subst hjk
        rw [Function.update_self] at hupd
        exact .inr ⟨rfl, hupd⟩
      · rw [Function.update_of_ne hjk] at hupd
        exact .inl hupd
    have hself (hpa : p a = true) (j : Nat) (hj : p (f j) = true) : j = k := by
      rcases hmove s f k e s' a hg hm hpa with hk | hnone
      · exact hI j k hj hk
      · rw [hnone] at hj
        cases hj
    rcases hback i hi with hi | ⟨rfl, hpa⟩ <;> rcases hback j hj with hj | ⟨rfl, hpa'⟩
    · exact hI i j hi hj
    · exact hself hpa' i hi
    · exact (hself hpa j hj).symm
    · rfl

/-- The rule of measures: each move takes one off the measure, which its label may pay for. -/
theorem run_measure {w : A → Nat} {m : S → Nat} {c k : L → Nat} (h : Lts.Run (P.Step G n) t0 ls t)
    (hmove : ∀ ls s f i e s' a, Lts.Run (P.Step G n) t0 ls ⟨s, f⟩ → i < n →
      P.move s (f i) e s' a → m s' + w a + (P.wake e).number n * k e + 1 ≤ m s + w (f i) + c e)
    (hwake : ∀ e b b', (P.wake e).Moves b b' → w b' ≤ w b + k e) :
    ls.length + (m t.shared + total w t.pcs n) ≤
      m t0.shared + total w t0.pcs n + (ls.map fun e => c e.2).sum := by
  refine h.invariant (I := fun ls t => ls.length + (m t.shared + total w t.pcs n) ≤
    m t0.shared + total w t0.pcs n + (ls.map fun e => c e.2).sum) (by simp) ?_
  rintro ls t1 e t2 hrun hI ⟨hi, hg, hm, hw⟩
  rename_i s s' f f' i a e
  have hone := hmove _ s f i e s' a hrun hi hm
  have hwoken := hw.total_le (w := w) (k := k e) (hwake e)
  have hupd := total_update hi w f a
  rw [List.length_append, List.length_singleton, List.map_append, List.sum_append]
  simp only [List.map_cons, List.map_nil, List.sum_cons, List.sum_nil]
  dsimp only at hI ⊢
  omega

/-- A move of a thread is a step, whomever it wakes. -/
theorem step_of_move {s s' : S} {f : Nat → A} {i : Nat} {a : A} {e : L} (hi : i < n)
    (hg : G ⟨s, f⟩ i e) (hm : P.move s (f i) e s' a) : ∃ t', P.Step G n ⟨s, f⟩ (i, e) t' := by
  obtain ⟨f', hw⟩ := Woken.exists n (P.wake e) (Function.update f i a)
  exact ⟨⟨s', f'⟩, .mk hi hg hm hw⟩

end System

end Threads
