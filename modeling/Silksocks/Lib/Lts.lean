import Mathlib.Data.List.Infix
import Mathlib.Logic.Function.Basic

/-! Labelled transition systems and their runs.  An invariant relates a state to the labels that led
to it, and one system simulates another one step by step. -/

namespace Lts

variable {S T L M : Type}

/-- The steps that lead from `s` to a state, with their labels. -/
inductive Run (step : S → L → S → Prop) (s : S) : List L → S → Prop
  | nil : Run step s [] s
  | snoc {ls : List L} {s' s'' : S} {l : L} (h : Run step s ls s') (hs : step s' l s'') :
    Run step s (ls ++ [l]) s''

namespace Run

variable {step : S → L → S → Prop} {s s' s'' : S} {ls ls' : List L} {l : L}

/-- What holds before a run and is kept by each step of it holds at its end. -/
theorem invariant {I : List L → S → Prop} (h : Run step s ls s') (hinit : I [] s)
    (hstep : ∀ ls s1 l s2, Run step s ls s1 → I ls s1 → step s1 l s2 → I (ls ++ [l]) s2) :
    I ls s' := by
  induction h with
  | nil => exact hinit
  | snoc h hs ih => exact hstep _ _ _ _ h ih hs

theorem single (hs : step s l s') : Run step s [l] s' := snoc .nil hs

theorem append (h : Run step s ls s') (h' : Run step s' ls' s'') : Run step s (ls ++ ls') s'' := by
  induction h' with
  | nil => rwa [List.append_nil]
  | snoc _ hs ih =>
    rw [← List.append_assoc]
    exact ih.snoc hs

theorem snoc_inv (h : Run step s (ls ++ [l]) s'') : ∃ s', Run step s ls s' ∧ step s' l s'' := by
  obtain ⟨k, hk⟩ : ∃ k, k = ls ++ [l] := ⟨_, rfl⟩
  rw [← hk] at h
  cases h with
  | nil => simp at hk
  | snoc h hs =>
    obtain ⟨rfl, hl⟩ := List.append_inj' hk rfl
    cases hl
    exact ⟨_, h, hs⟩

/-- A run passes through a state after each part of its labels. -/
theorem split (h : Run step s (ls ++ ls') s'') : ∃ s', Run step s ls s' ∧ Run step s' ls' s'' := by
  induction ls' using List.reverseRecOn generalizing s'' with
  | nil =>
    rw [List.append_nil] at h
    exact ⟨s'', h, .nil⟩
  | append_singleton ls' l ih =>
    rw [← List.append_assoc] at h
    obtain ⟨s1, h1, hs⟩ := snoc_inv h
    obtain ⟨s', h', h2⟩ := ih h1
    exact ⟨s', h', h2.snoc hs⟩

theorem nil_inv (h : Run step s [] s') : s' = s := by
  obtain ⟨k, hk⟩ : ∃ k : List L, k = [] := ⟨_, rfl⟩
  rw [← hk] at h
  cases h with
  | nil => rfl
  | snoc => simp at hk

theorem cons_inv (h : Run step s (l :: ls) s'') : ∃ s', step s l s' ∧ Run step s' ls s'' := by
  rw [← List.singleton_append] at h
  obtain ⟨s', h1, h2⟩ := h.split
  rw [← List.nil_append [l]] at h1
  obtain ⟨s1, h0, hs⟩ := h1.snoc_inv
  obtain rfl := h0.nil_inv
  exact ⟨s', hs, h2⟩

/-- Each step of one system is a run of the other one, whose labels `f` makes of its label. -/
theorem simulates {step' : T → M → T → Prop} {R : S → T → Prop} {f : L → List M} {t : T}
    (h : Run step s ls s') (hinit : R s t)
    (hstep : ∀ s1 l s2 t1, R s1 t1 → step s1 l s2 → ∃ t2, Run step' t1 (f l) t2 ∧ R s2 t2) :
    ∃ t', Run step' t (ls.flatMap f) t' ∧ R s' t' := by
  induction h with
  | nil => exact ⟨t, .nil, hinit⟩
  | snoc _ hs ih =>
    obtain ⟨t1, h1, hR1⟩ := ih
    obtain ⟨t2, h2, hR2⟩ := hstep _ _ _ _ hR1 hs
    refine ⟨t2, ?_, hR2⟩
    rw [List.flatMap_append, List.flatMap_singleton]
    exact h1.append h2

end Run

/-! ### Systems of deterministic parts -/

/-- No part has a choice, and none takes from another one the step that it can take. -/
structure Commuting (step : S → L → S → Prop) : Prop where
  unique : ∀ {s l s1 s2}, step s l s1 → step s l s2 → s1 = s2
  commute : ∀ {s l l' s1 s2}, l ≠ l' → step s l s1 → step s l' s2 →
    ∃ s3, step s1 l' s3 ∧ step s2 l s3

namespace Commuting

variable {step : S → L → S → Prop} {s u t : S} {l : L} {ls ls' : List L}

/-- A step is one of those that a run to an end takes sooner or later. -/
theorem step_finishes (h : Commuting step) (hrun : Run step s ls t)
    (hend : ∀ l t', ¬ step t l t') (hs : step s l u) :
    ∃ ls', Run step u ls' t ∧ ls.length = ls'.length + 1 := by
  induction ls generalizing s u with
  | nil =>
    obtain rfl := hrun.nil_inv
    exact absurd hs (hend l u)
  | cons l1 ls ih =>
    obtain ⟨s1, hs1, hrun1⟩ := hrun.cons_inv
    by_cases hl : l1 = l
    · subst hl
      obtain rfl := h.unique hs1 hs
      exact ⟨ls, hrun1, rfl⟩
    · obtain ⟨s3, hs3, hu3⟩ := h.commute hl hs1 hs
      obtain ⟨ls', hrun', hlen⟩ := ih hrun1 hs3
      refine ⟨[l1] ++ ls', (Run.single hu3).append hrun', ?_⟩
      simp [hlen]

/-- If one run gets to an end, then all do, after as many steps. -/
theorem finishes (h : Commuting step) (hrun : Run step s ls t) (hend : ∀ l t', ¬ step t l t')
    (hrun' : Run step s ls' u) : ∃ ls'', Run step u ls'' t ∧ ls'.length + ls''.length = ls.length := by
  induction hrun' with
  | nil => exact ⟨ls, hrun, Nat.zero_add _⟩
  | snoc _ hs ih =>
    obtain ⟨ls1, hrun1, hlen1⟩ := ih
    obtain ⟨ls2, hrun2, hlen2⟩ := h.step_finishes hrun1 hend hs
    refine ⟨ls2, hrun2, ?_⟩
    rw [List.length_append, List.length_singleton]
    omega

end Commuting

/-! ### Systems side by side -/

/-- One of many systems takes a step, which its label names. -/
inductive Each {D : Type} [DecidableEq D] (step : S → L → S → Prop) : (D → S) → D × L → (D → S) → Prop
  | mk {s : D → S} {d : D} {l : L} {x : S} (h : step (s d) l x) :
    Each step s (d, l) (Function.update s d x)

/-- The labels of the system `d`. -/
def only {D : Type} [DecidableEq D] (d : D) (ls : List (D × L)) : List L :=
  ls.flatMap fun e => if e.1 = d then [e.2] else []

/-- One of the systems runs while the others stay. -/
theorem Run.each {D : Type} [DecidableEq D] {step : S → L → S → Prop} {s : D → S} {d : D} {x : S}
    {ls : List L} (h : Run step (s d) ls x) :
    Run (Each step) s (ls.map fun l => (d, l)) (Function.update s d x) := by
  induction h with
  | nil => rw [Function.update_eq_self]; exact .nil
  | @snoc ls x y l _ hs ih =>
    rw [List.map_append]
    refine ih.snoc (l := (d, l)) ?_
    rw [← Function.update_idem x y s]
    refine .mk ?_
    rwa [Function.update_self]

/-- Each of the systems runs by itself. -/
theorem Run.component {D : Type} [DecidableEq D] {step : S → L → S → Prop} {s t : D → S}
    {ls : List (D × L)} (h : Run (Each step) s ls t) (d : D) : Run step (s d) (only d ls) (t d) := by
  obtain ⟨x, hx, rfl⟩ : ∃ x, Run step (s d) (only d ls) x ∧ t d = x := by
    refine h.simulates (R := fun t x => t d = x) rfl ?_
    rintro t1 l t2 x rfl ⟨hs⟩
    rename_i d' l y
    by_cases hd : d' = d
    · subst hd
      rw [if_pos rfl]
      exact ⟨y, .single hs, Function.update_self ..⟩
    · rw [if_neg hd]
      exact ⟨t1 d, .nil, Function.update_of_ne (Ne.symm hd) ..⟩
  exact hx

end Lts
