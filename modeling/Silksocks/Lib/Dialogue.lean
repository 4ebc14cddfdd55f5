import Silksocks.Lib.Lts
import Silksocks.Lib.Program

/-! Two programs that talk to each other.  What one of them sends waits in a queue until the other one
takes it, and a program that wants more than its queue holds waits as well.  All other calls are
answered by the surroundings of each.  As no program sees when the other one goes on, all orders of
their steps lead to the same end. -/

namespace Dialogue

open Program Prog Lts

variable {C : Type} {R : C → Type} {α α' β ω ω' : Type}

/-- The surroundings of a program.  To a call they give its result, their new state, what is left of
what has arrived and what is sent; a call without an answer waits. -/
structure Surroundings (R : C → Type) (β ω : Type) where
  answer : (c : C) → ω → List β → Option (R c × ω × List β × List β)
  /-- An answer does not depend on what arrives later. -/
  later : ∀ {c w i r w' i' o}, answer c w i = some (r, w', i', o) → ∀ j,
    answer c w (i ++ j) = some (r, w', i' ++ j, o)

/-- The surroundings as an environment, whose state has what has arrived and what was sent. -/
def Surroundings.env (S : Surroundings R β ω) (c : C) (s : ω × List β × List β) :
    Option (R c × ω × List β × List β) :=
  (S.answer c s.1 s.2.1).map fun x => (x.1, x.2.1, x.2.2.1, s.2.2 ++ x.2.2.2)

/-- What is left of two programs, their surroundings, and what each one has not taken yet. -/
structure State (R : C → Type) (β α α' ω ω' : Type) where
  left : Prog R α
  right : Prog R α'
  leftWorld : ω
  rightWorld : ω'
  toLeft : List β
  toRight : List β

/-- Who makes a step. -/
inductive Side
  | left
  | right
  deriving DecidableEq

variable (S : Surroundings R β ω) (T : Surroundings R β ω')

/-- One of the programs makes its next call. -/
inductive Step : State R β α α' ω ω' → Side → State R β α α' ω ω' → Prop
  | left {c : C} {next : R c → Prog R α} {q : Prog R α'} {r : R c} {w w' : ω} {v : ω'}
      {i i' j o : List β} (h : S.answer c w i = some (r, w', i', o)) :
    Step ⟨.call c next, q, w, v, i, j⟩ .left ⟨next r, q, w', v, i', j ++ o⟩
  | right {c : C} {next : R c → Prog R α'} {p : Prog R α} {r : R c} {w : ω} {v v' : ω'}
      {i j j' o : List β} (h : T.answer c v j = some (r, v', j', o)) :
    Step ⟨p, .call c next, w, v, i, j⟩ .right ⟨p, next r, w, v', i ++ o, j'⟩

variable {S T}

theorem commuting :
    Commuting (Step S T : State R β α α' ω ω' → Side → State R β α α' ω ω' → Prop) where
  unique := by
    intro s l s1 s2 h1 h2
    cases h1 with
    | left h1 =>
      cases h2 with
      | left h2 =>
        cases h1.symm.trans h2
        rfl
    | right h1 =>
      cases h2 with
      | right h2 =>
        cases h1.symm.trans h2
        rfl
  commute := by
    intro s l l' s1 s2 hne h1 h2
    cases h1 with
    | left h1 =>
      cases h2 with
      | left => exact absurd rfl hne
      | right h2 => exact ⟨_, .right (T.later h2 _), .left (S.later h1 _)⟩
    | right h1 =>
      cases h2 with
      | right => exact absurd rfl hne
      | left h2 => exact ⟨_, .left (S.later h2 _), .right (T.later h1 _)⟩

/-- Some order of the steps leads from one state to another one. -/
def Reaches (S : Surroundings R β ω) (T : Surroundings R β ω') (s s' : State R β α α' ω ω') : Prop :=
  ∃ ls, Run (Step S T) s ls s'

theorem Reaches.trans {s s' s'' : State R β α α' ω ω'} (h : Reaches S T s s')
    (h' : Reaches S T s' s'') : Reaches S T s s'' := by
  obtain ⟨ls, h⟩ := h
  obtain ⟨ls', h'⟩ := h'
  exact ⟨ls ++ ls', h.append h'⟩

/-- If some order of the steps leads to an end, then every order does, after as many steps. -/
theorem Reaches.finishes {s s' : State R β α α' ω ω'} (h : Reaches S T s s')
    (hend : ∀ l t, ¬ Step S T s' l t) : ∃ n, ∀ ls u, Run (Step S T) s ls u →
      ∃ ls', Run (Step S T) u ls' s' ∧ ls.length + ls'.length = n := by
  obtain ⟨ls, h⟩ := h
  exact ⟨ls.length, fun ls' u hu => commuting.finishes h hend hu⟩

variable {p p' : Prog R α} {q q' : Prog R α'} {t : List (Event R)} {w w' : ω} {v v' : ω'}
  {i i' j j' : List β}

/-- One program goes on alone. -/
theorem left_run (hrun : Runs p t p') (h : Answers S.env (w, i, j) t (w', i', j')) :
    Reaches S T ⟨p, q, w, v, i, j⟩ ⟨p', q, w', v, i', j'⟩ := by
  generalize hs : (w, i, j) = s at h
  generalize hs' : (w', i', j') = s' at h
  induction h generalizing p w i j with
  | nil =>
    subst hs
    cases hs'
    cases hrun
    exact ⟨[], .nil⟩
  | cons hcall _ ih =>
    subst hs
    obtain ⟨⟨r, w1, i1, o⟩, hanswer, hx⟩ := Option.map_eq_some_iff.mp hcall
    cases hx
    cases hrun with
    | cons hrun =>
      obtain ⟨ls, hls⟩ := ih hrun rfl hs'
      exact ⟨_, (Run.single (.left hanswer)).append hls⟩

theorem right_run (hrun : Runs q t q') (h : Answers T.env (v, j, i) t (v', j', i')) :
    Reaches S T ⟨p, q, w, v, i, j⟩ ⟨p, q', w, v', i', j'⟩ := by
  generalize hs : (v, j, i) = s at h
  generalize hs' : (v', j', i') = s' at h
  induction h generalizing q v i j with
  | nil =>
    subst hs
    cases hs'
    cases hrun
    exact ⟨[], .nil⟩
  | cons hcall _ ih =>
    subst hs
    obtain ⟨⟨r, v1, j1, o⟩, hanswer, hx⟩ := Option.map_eq_some_iff.mp hcall
    cases hx
    cases hrun with
    | cons hrun =>
      obtain ⟨ls, hls⟩ := ih hrun rfl hs'
      exact ⟨_, (Run.single (.right hanswer)).append hls⟩

/-! ### Each program alone -/

/-- What was sent before stays in front of what is sent. -/
theorem answers_behind {s s' : ω × List β × List β} (h : Answers S.env s t s') (x : List β) :
    Answers S.env (s.1, s.2.1, x ++ s.2.2) t (s'.1, s'.2.1, x ++ s'.2.2) := by
  refine h.map (P := fun _ => True) (fun s => (s.1, s.2.1, x ++ s.2.2)) (by simp) ?_
  intro c r s s' _ hcall
  obtain ⟨y, hanswer, hy⟩ := Option.map_eq_some_iff.mp hcall
  cases hy
  simp [Surroundings.env, hanswer]

/-- What arrives later stays behind what is left. -/
theorem answers_later {s s' : ω × List β × List β} (h : Answers S.env s t s') (x : List β) :
    Answers S.env (s.1, s.2.1 ++ x, s.2.2) t (s'.1, s'.2.1 ++ x, s'.2.2) := by
  refine h.map (P := fun _ => True) (fun s => (s.1, s.2.1 ++ x, s.2.2)) (by simp) ?_
  intro c r s s' _ hcall
  obtain ⟨y, hanswer, hy⟩ := Option.map_eq_some_iff.mp hcall
  cases hy
  simp [Surroundings.env, S.later hanswer]

/-- To a program it makes no difference when the other one sends: in a dialogue each of them does
what it does alone with all that the other one sends. -/
theorem run_alone {s s' : State R β α α' ω ω'} {ls : List Side} (h : Run (Step S T) s ls s') :
    ∃ out out', s.left.Goes S.env (s.leftWorld, s.toLeft ++ out', []) s'.left
        (s'.leftWorld, s'.toLeft, out) ∧
      s.right.Goes T.env (s.rightWorld, s.toRight ++ out, []) s'.right
        (s'.rightWorld, s'.toRight, out') := by
  induction ls generalizing s with
  | nil =>
    obtain rfl := h.nil_inv
    exact ⟨[], [], ⟨[], .nil _, by simpa using .nil _⟩, ⟨[], .nil _, by simpa using .nil _⟩⟩
  | cons l ls ih =>
    obtain ⟨s1, hs, h⟩ := h.cons_inv
    obtain ⟨out, out', ⟨t, hrun, ht⟩, ⟨t', hrun', ht'⟩⟩ := ih h
    cases hs with
    | @left c next q r w w' v i i' j o hanswer =>
      refine ⟨o ++ out, out', ⟨⟨c, r⟩ :: t, .cons hrun, ?_⟩, ⟨t', hrun', ?_⟩⟩
      · have hcall : S.env c (w, i ++ out', []) = some (r, w', i' ++ out', o) := by
          simp [Surroundings.env, S.later hanswer]
        exact .cons hcall (by simpa using answers_behind ht o)
      · simpa using ht'
    | @right c next p r w v v' i j j' o hanswer =>
      refine ⟨out, o ++ out', ⟨t, hrun, ?_⟩, ⟨⟨c, r⟩ :: t', .cons hrun', ?_⟩⟩
      · simpa using ht
      · have hcall : T.env c (v, j ++ out, []) = some (r, v', j' ++ out, o) := by
          simp [Surroundings.env, T.later hanswer]
        exact .cons hcall (by simpa using answers_behind ht' o)

/-- Nothing that was sent is taken back. -/
theorem goes_grows {s s' : ω × List β × List β} (h : p.Goes S.env s p' s') :
    s.2.2 <+: s'.2.2 := by
  obtain ⟨t, -, h⟩ := h
  induction h with
  | nil => exact List.prefix_rfl
  | cons hcall _ ih =>
    obtain ⟨y, -, hy⟩ := Option.map_eq_some_iff.mp hcall
    cases hy
    exact (List.prefix_append ..).trans ih

/-- A call whose answer is known is one of those on the way to a state where more was sent. -/
theorem goes_answered {c : C} {next : R c → Prog R α} {r : R c} {o o' : List β}
    {s' : ω × List β × List β} (hanswer : S.answer c w i = some (r, w', i', o'))
    (h : (Prog.call c next).Goes S.env (w, i, o) p' s') (hsent : s'.2.2 ≠ o) :
    (next r).Goes S.env (w', i', o ++ o') p' s' := by
  rcases h.call_inv with ⟨-, rfl⟩ | ⟨r', s1, hcall, h⟩
  · exact absurd rfl hsent
  · obtain ⟨x, hx, heq⟩ := Option.map_eq_some_iff.mp hcall
    cases hanswer.symm.trans hx
    cases heq
    exact h

/-- What a program does not send before its end is sent behind it. -/
theorem goes_past {γ : Type} {f : α → Prog R γ} {q : Prog R γ} {a : α}
    {s s1 s' : ω × List β × List β} (h : (p >>= f).Goes S.env s q s')
    (heval : p.eval S.env s = some (a, s1)) (hsent : ¬ s'.2.2 <+: s1.2.2) :
    (f a).Goes S.env s1 q s' := by
  rcases h.bind_inv with ⟨p', hp⟩ | ⟨b, s2, hb, h⟩
  · rw [← hp.eval_eq] at heval
    exact absurd (goes_grows (Prog.Goes.of_eval heval)) hsent
  · cases heval.symm.trans hb
    exact h

end Dialogue
