import Mathlib.Algebra.Group.Nat.Defs
import Mathlib.Data.List.Basic

/-! Programs that make calls to an environment.  A program is the tree of its calls, each followed
by one program for every result, and a run of it is a list of calls with their results.  `wp`
verifies a program against a contract: what the caller of a call must guarantee, what it may assume
of the result, and how the state of the contract changes.  `eval` runs a program in one
environment. -/

namespace Program

variable {C : Type} {R : C → Type} {α β σ : Type}

/-- A call with its result. -/
structure Event (R : C → Type) where
  call : C
  result : R call

/-- Programs whose calls `c` have results of type `R c`. -/
inductive Prog (R : C → Type) (α : Type) : Type
  | done (a : α)
  | call (c : C) (next : R c → Prog R α)

namespace Prog

def bind : Prog R α → (α → Prog R β) → Prog R β
  | done a, f => f a
  | call c next, f => call c fun r => (next r).bind f

instance : Monad (Prog R) where
  pure := done
  bind := bind

@[simp] theorem pure_eq (a : α) : (pure a : Prog R α) = done a := rfl

@[simp] theorem done_bind (a : α) (f : α → Prog R β) : (done a : Prog R α) >>= f = f a := rfl

@[simp] theorem call_bind (c : C) (next : R c → Prog R α) (f : α → Prog R β) :
    call c next >>= f = call c fun r => next r >>= f := rfl

@[simp] theorem ite_bind (c : Prop) [Decidable c] (p q : Prog R α) (f : α → Prog R β) :
    (if c then p else q) >>= f = if c then p >>= f else q >>= f := by
  split <;> rfl

theorem bind_assoc {γ : Type} (p : Prog R α) (f : α → Prog R β) (g : β → Prog R γ) :
    p >>= f >>= g = p >>= fun a => f a >>= g := by
  induction p with
  | done a => rfl
  | call c next ih => exact congrArg (call c) (funext ih)

/-! ### Runs -/

/-- `p` makes the calls of a trace, gets their results, and goes on as `q`. -/
inductive Runs : Prog R α → List (Event R) → Prog R α → Prop
  | nil (p : Prog R α) : Runs p [] p
  | cons {c : C} {next : R c → Prog R α} {r : R c} {t : List (Event R)} {q : Prog R α}
      (h : Runs (next r) t q) : Runs (call c next) (⟨c, r⟩ :: t) q

variable {p q : Prog R α} {t t' : List (Event R)} {a : α}

@[simp] theorem runs_done : Runs (done a) t q ↔ t = [] ∧ q = done a := by
  constructor
  · intro h
    cases h
    exact ⟨rfl, rfl⟩
  · rintro ⟨rfl, rfl⟩
    exact .nil _

theorem runs_call {c : C} {next : R c → Prog R α} :
    Runs (call c next) t q ↔
      (t = [] ∧ q = call c next) ∨ ∃ r t', t = ⟨c, r⟩ :: t' ∧ Runs (next r) t' q := by
  constructor
  · intro h
    cases h with
    | nil => exact .inl ⟨rfl, rfl⟩
    | cons h => exact .inr ⟨_, _, rfl, h⟩
  · rintro (⟨rfl, rfl⟩ | ⟨r, t', rfl, h⟩)
    · exact .nil _
    · exact .cons h

theorem Runs.snoc {c : C} {next : R c → Prog R α} (h : Runs p t (call c next)) (r : R c) :
    Runs p (t ++ [⟨c, r⟩]) (next r) := by
  generalize hq : call c next = q at h
  induction h with
  | nil =>
    subst hq
    exact .cons (.nil _)
  | cons _ ih => exact .cons (ih hq)

theorem runs_append : Runs p (t ++ t') q ↔ ∃ p', Runs p t p' ∧ Runs p' t' q := by
  induction t generalizing p with
  | nil =>
    refine ⟨fun h => ⟨p, .nil p, h⟩, ?_⟩
    rintro ⟨p', h, h'⟩
    cases h
    exact h'
  | cons e t ih =>
    constructor
    · intro h
      cases h with
      | cons h =>
        obtain ⟨p', h1, h2⟩ := ih.mp h
        exact ⟨p', .cons h1, h2⟩
    · rintro ⟨p', h, h'⟩
      cases h with
      | cons h => exact .cons (ih.mpr ⟨p', h, h'⟩)

/-- Calls and results determine what is left to do. -/
theorem Runs.unique {q' : Prog R α} (h : Runs p t q) (h' : Runs p t q') : q = q' := by
  induction h with
  | nil =>
    cases h'
    rfl
  | cons _ ih =>
    cases h' with
    | cons h' => exact ih h'

theorem Runs.suffix {q' : Prog R α} (h : Runs p t q) (h' : Runs p (t ++ t') q') :
    Runs q t' q' := by
  obtain ⟨p', h1, h2⟩ := runs_append.mp h'
  rwa [h.unique h1]

/-- A complete run goes on from any other one with which its trace begins. -/
theorem Runs.extend {x y : List (Event R)} (h : Runs p t (done a)) (h' : Runs p t' q)
    (heq : t ++ x = t' ++ y) : ∃ t'', t = t' ++ t'' ∧ y = t'' ++ x ∧ Runs q t'' (done a) := by
  induction h' generalizing t with
  | nil p => exact ⟨t, rfl, heq.symm, h⟩
  | cons _ ih =>
    cases h with
    | cons h =>
      obtain ⟨hcall, hrest⟩ := List.cons.inj heq
      cases hcall
      obtain ⟨t'', rfl, hy, hrun⟩ := ih h hrest
      exact ⟨t'', rfl, hy, hrun⟩

theorem Runs.append {q' : Prog R α} (h : Runs p t q) (h' : Runs q t' q') :
    Runs p (t ++ t') q' := runs_append.mpr ⟨q, h, h'⟩

theorem Runs.bind {f : α → Prog R β} (h : Runs p t q) : Runs (p >>= f) t (q >>= f) := by
  induction h with
  | nil => exact .nil _
  | cons _ ih => exact .cons ih

/-- At each event of a run its call was the next one. -/
theorem Runs.next_call {e : Event R} (h : Runs p (t ++ e :: t') q) :
    ∃ next, Runs p t (call e.call next) := by
  obtain ⟨p', h1, h2⟩ := runs_append.mp h
  cases h2
  exact ⟨_, h1⟩

/-- A run of `p` and then `f` has not left `p`, or is a complete run of `p` and a run of `f`. -/
theorem Runs.of_bind {f : α → Prog R β} {q : Prog R β} (h : Runs (p >>= f) t q) :
    (∃ c next, Runs p t (call c next) ∧ q = call c next >>= f) ∨
      ∃ a t1 t2, t = t1 ++ t2 ∧ Runs p t1 (done a) ∧ Runs (f a) t2 q := by
  induction p generalizing t with
  | done a => exact .inr ⟨a, [], t, rfl, .nil _, h⟩
  | call c next ih =>
    rw [call_bind, runs_call] at h
    rcases h with ⟨rfl, rfl⟩ | ⟨r, t, rfl, h⟩
    · exact .inl ⟨c, next, .nil _, rfl⟩
    rcases ih r h with ⟨c', next', h', rfl⟩ | ⟨a, t1, t2, rfl, h1, h2⟩
    · exact .inl ⟨c', next', .cons h', rfl⟩
    · exact .inr ⟨a, _, t2, rfl, .cons h1, h2⟩

/-- A complete run of `p` and then `f` is a complete run of each. -/
theorem runs_bind_done {f : α → Prog R β} {b : β} :
    Runs (p >>= f) t (done b) ↔
      ∃ a t1 t2, t = t1 ++ t2 ∧ Runs p t1 (done a) ∧ Runs (f a) t2 (done b) := by
  constructor
  · intro h
    rcases h.of_bind with ⟨c, next, -, hcall⟩ | h
    · cases hcall
    · exact h
  · rintro ⟨a, t1, t2, rfl, h1, h2⟩
    exact h1.bind.append h2

/-! ### Calls of one kind -/

/-- All calls of a program meet `P`. -/
def All (P : C → Prop) : Prog R α → Prop
  | done _ => True
  | call c next => P c ∧ ∀ r, (next r).All P

section All

variable {P P' : C → Prop}

@[simp] theorem all_done : (done a : Prog R α).All P := trivial

@[simp] theorem all_call {c : C} {next : R c → Prog R α} :
    (call c next).All P ↔ P c ∧ ∀ r, (next r).All P := Iff.rfl

@[simp] theorem all_ite {c : Prop} [Decidable c] :
    (if c then p else q).All P ↔ (c → p.All P) ∧ (¬ c → q.All P) := by
  by_cases h : c <;> simp [h]

theorem All.bind {f : α → Prog R β} (hp : p.All P) (hf : ∀ a, (f a).All P) :
    (p >>= f).All P := by
  induction p with
  | done a => exact hf a
  | call c next ih => exact ⟨hp.1, fun r => ih r (hp.2 r)⟩

theorem all_true : p.All fun _ => True := by
  induction p with
  | done a => trivial
  | call c next ih => exact ⟨trivial, ih⟩

theorem All.runs (hp : p.All P) (hrun : Runs p t q) : ∀ e ∈ t, P e.call := by
  induction hrun with
  | nil => simp
  | cons _ ih =>
    rw [List.forall_mem_cons]
    exact ⟨hp.1, ih (hp.2 _)⟩

theorem All.mono (hp : p.All P) (h : ∀ c, P c → P' c) : p.All P' := by
  induction p with
  | done a => trivial
  | call c next ih => exact ⟨h c hp.1, fun r => ih r (hp.2 r)⟩

end All

/-! ### Results -/

/-- All results of a program meet `P`. -/
def Ends (P : α → Prop) : Prog R α → Prop
  | done a => P a
  | call _ next => ∀ r, (next r).Ends P

section Ends

variable {P P' : α → Prop}

@[simp] theorem ends_done : (done a : Prog R α).Ends P ↔ P a := Iff.rfl

@[simp] theorem ends_call {c : C} {next : R c → Prog R α} :
    (call c next).Ends P ↔ ∀ r, (next r).Ends P := Iff.rfl

@[simp] theorem ends_ite {c : Prop} [Decidable c] :
    (if c then p else q).Ends P ↔ (c → p.Ends P) ∧ (¬ c → q.Ends P) := by
  by_cases h : c <;> simp [h]

theorem ends_bind {f : α → Prog R β} {P : β → Prop} :
    (p >>= f).Ends P ↔ p.Ends fun a => (f a).Ends P := by
  induction p with
  | done a => rfl
  | call c next ih => exact forall_congr' ih

theorem ends_true : p.Ends fun _ => True := by
  induction p with
  | done a => trivial
  | call c next ih => exact ih

theorem ends_bind_of_forall {f : α → Prog R β} {P : β → Prop} (h : ∀ a, (f a).Ends P) :
    (p >>= f).Ends P :=
  ends_bind.mpr (by
    induction p with
    | done a => exact h a
    | call c next ih => exact ih)

theorem Ends.runs {P : α → Prop} (hp : p.Ends P) (hrun : Runs p t (done a)) : P a := by
  generalize hq : done a = q at hrun
  induction hrun with
  | nil =>
    subst hq
    exact hp
  | cons _ ih => exact ih (hp _) hq

theorem Ends.mono (hp : p.Ends P) (h : ∀ a, P a → P' a) : p.Ends P' := by
  induction p with
  | done a => exact h a hp
  | call c next ih => exact fun r => ih r (hp r)

end Ends

/-! ### Handlers -/

section Handle

variable {C' : Type} {R' : C' → Type} {h : (c : C) → Prog R' (R c)}

/-- The program that runs a handler in place of each call. -/
def handle (h : (c : C) → Prog R' (R c)) : Prog R α → Prog R' α
  | done a => done a
  | call c next => h c >>= fun r => (next r).handle h

@[simp] theorem handle_done : (done a : Prog R α).handle h = done a := rfl

@[simp] theorem handle_call {c : C} {next : R c → Prog R α} :
    (call c next).handle h = h c >>= fun r => (next r).handle h := rfl

@[simp] theorem handle_ite {c : Prop} [Decidable c] :
    (if c then p else q).handle h = if c then p.handle h else q.handle h := by
  split <;> rfl

theorem handle_bind {f : α → Prog R β} :
    (p >>= f).handle h = p.handle h >>= fun a => (f a).handle h := by
  induction p with
  | done a => rfl
  | call c next ih =>
    rw [call_bind, handle_call, handle_call, bind_assoc]
    exact congrArg _ (funext ih)

theorem All.handle {P : C → Prop} {P' : C' → Prop} (hp : p.All P)
    (hh : ∀ c, P c → (h c).All P') : (p.handle h).All P' := by
  induction p with
  | done a => trivial
  | call c next ih => exact (hh c hp.1).bind fun r => ih r (hp.2 r)

end Handle

end Prog

open Prog

/-! ### Contracts -/

/-- A contract over states `σ`: what must hold when a call is made, what may be assumed of its
result, and the state after it. -/
structure Contract (σ : Type) (R : C → Type) where
  demand : σ → C → Prop
  assume : σ → Event R → Prop
  next : σ → Event R → σ

namespace Contract

variable (K : Contract σ R)

/-- The state after the events of a trace. -/
def after (s : σ) (t : List (Event R)) : σ := t.foldl K.next s

/-- Every event of a trace may be assumed. -/
def Assumed : σ → List (Event R) → Prop
  | _, [] => True
  | s, e :: t => K.assume s e ∧ Assumed (K.next s e) t

/-- The program `p`, started in state `s`, keeps the contract and ends with `Q`. -/
def wp (Q : σ → α → Prop) : σ → Prog R α → Prop
  | s, .done a => Q s a
  | s, .call c next => K.demand s c ∧ ∀ r, K.assume s ⟨c, r⟩ → wp Q (K.next s ⟨c, r⟩) (next r)

variable {K} {p q : Prog R α} {s : σ} {t : List (Event R)} {Q Q' : σ → α → Prop}

@[simp] theorem wp_done {a : α} : K.wp Q s (.done a) ↔ Q s a := Iff.rfl

theorem wp_call {c : C} {next : R c → Prog R α} :
    K.wp Q s (.call c next) ↔
      K.demand s c ∧ ∀ r, K.assume s ⟨c, r⟩ → K.wp Q (K.next s ⟨c, r⟩) (next r) := Iff.rfl

theorem wp_mono (h : K.wp Q s p) (hQ : ∀ s a, Q s a → Q' s a) : K.wp Q' s p := by
  induction p generalizing s with
  | done a => exact hQ s a h
  | call c next ih => exact ⟨h.1, fun r hr => ih r (h.2 r hr)⟩

theorem wp_bind {f : α → Prog R β} {Q : σ → β → Prop} :
    K.wp Q s (p >>= f) ↔ K.wp (fun s a => K.wp Q s (f a)) s p := by
  induction p generalizing s with
  | done a => rfl
  | call c next ih =>
    simp only [call_bind, wp_call]
    exact and_congr_right fun _ => forall_congr' fun r => imp_congr_right fun _ => ih r

/-- What verifies a program verifies what is left of it after part of a run. -/
theorem wp_runs (h : K.wp Q s p) (hrun : Runs p t q) (ht : K.Assumed s t) :
    K.wp Q (K.after s t) q := by
  induction hrun generalizing s with
  | nil => exact h
  | cons _ ih => exact ih (h.2 _ ht.1) ht.2

/-- A program all of whose calls keep an invariant of the state. -/
theorem wp_of_all_ends {P : C → Prop} {P' : α → Prop} {I : σ → Prop} (hp : p.All P)
    (hends : p.Ends P') (h : I s) (hdemand : ∀ s c, I s → P c → K.demand s c)
    (hnext : ∀ s e, I s → P e.call → I (K.next s e)) (hQ : ∀ s a, I s → P' a → Q s a) :
    K.wp Q s p := by
  induction p generalizing s with
  | done a => exact hQ s a h hends
  | call c next ih =>
    exact ⟨hdemand s c h hp.1, fun r _ => ih r (hp.2 r) (hends r) (hnext s _ h hp.1)⟩

theorem wp_of_all {P : C → Prop} {I : σ → Prop} (hp : p.All P) (h : I s)
    (hdemand : ∀ s c, I s → P c → K.demand s c)
    (hnext : ∀ s e, I s → P e.call → I (K.next s e)) (hQ : ∀ s a, I s → Q s a) :
    K.wp Q s p :=
  wp_of_all_ends hp ends_true h hdemand hnext fun s a hI _ => hQ s a hI

theorem assumed_of_forall (h : ∀ s, ∀ e ∈ t, K.assume s e) (s : σ) : K.Assumed s t := by
  induction t generalizing s with
  | nil => trivial
  | cons e t ih =>
    exact ⟨h s e List.mem_cons_self, ih (fun s e' he => h s e' (List.mem_cons_of_mem e he)) _⟩

/-- The contract whose state is the trace so far. -/
def history (D : List (Event R) → C → Prop) (A : Event R → Prop) :
    Contract (List (Event R)) R where
  demand := D
  assume _ e := A e
  next s e := s ++ [e]

variable {D : List (Event R) → C → Prop} {A : Event R → Prop} {Q : List (Event R) → α → Prop}
  {before : List (Event R)} {e : Event R}

@[simp] theorem history_next (s : List (Event R)) (e : Event R) :
    (history D A).next s e = s ++ [e] := rfl

theorem history_after (s t : List (Event R)) : (history D A).after s t = s ++ t := by
  induction t generalizing s with
  | nil => simp [after]
  | cons e t ih =>
    show (history D A).after (s ++ [e]) t = _
    rw [ih, List.append_assoc]
    rfl

theorem history_runs (h : (history D A).wp Q [] p) (hrun : Runs p t q) (ht : ∀ e ∈ t, A e) :
    (history D A).wp Q t q := by
  have hwp := wp_runs h hrun (assumed_of_forall (fun _ => ht) _)
  rwa [history_after] at hwp

/-- A program of whose calls nothing is demanded, by its complete runs. -/
theorem history_of_runs {P : C → Prop} {s : List (Event R)} (hp : p.All P)
    (hD : ∀ s c, P c → D s c)
    (hQ : ∀ t a, Runs p t (.done a) → (∀ e ∈ t, A e) → Q (s ++ t) a) :
    (history D A).wp Q s p := by
  induction p generalizing s with
  | done a => simpa using hQ [] a (.nil _) (by simp)
  | call c next ih =>
    refine ⟨hD s c hp.1, fun r hr => ih r (hp.2 r) fun t a hrun ht => ?_⟩
    have hcons := hQ (⟨c, r⟩ :: t) a (.cons hrun) (List.forall_mem_cons.mpr ⟨hr, ht⟩)
    rwa [List.append_cons] at hcons

/-- What is demanded of the calls of a program holds of every call of its runs. -/
theorem history_demand (h : (history D A).wp Q [] p) (hrun : Runs p (before ++ e :: t) q)
    (ht : ∀ e ∈ before, A e) : D before e.call := by
  obtain ⟨next, hnext⟩ := hrun.next_call
  exact (history_runs h hnext ht).1

end Contract

/-! ### Evaluation -/

/-- Run a program in an environment that has a state; `none` is a call that has no result. -/
def Prog.eval (env : (c : C) → σ → Option (R c × σ)) : Prog R α → σ → Option (α × σ)
  | .done a, s => some (a, s)
  | .call c next, s => (env c s).bind fun (r, s) => (next r).eval env s

section Eval

variable {env : (c : C) → σ → Option (R c × σ)} {p : Prog R α} {s : σ}

@[simp] theorem Prog.eval_done {a : α} : (Prog.done a : Prog R α).eval env s = some (a, s) := rfl

@[simp] theorem Prog.eval_call {c : C} {next : R c → Prog R α} :
    (Prog.call c next).eval env s = (env c s).bind fun x => (next x.1).eval env x.2 := rfl

theorem Prog.eval_bind {f : α → Prog R β} :
    (p >>= f).eval env s = (p.eval env s).bind fun x => (f x.1).eval env x.2 := by
  induction p generalizing s with
  | done a => rfl
  | call c next ih =>
    rw [call_bind, eval_call, eval_call, Option.bind_assoc]
    exact congrArg _ (funext fun x => ih x.1)

/-- An evaluation keeps an invariant of the environment that all calls of its program keep. -/
theorem Prog.All.eval {P : C → Prop} {I : σ → Prop} {a : α} {s' : σ} (hp : p.All P) (hI : I s)
    (henv : ∀ c r s s', P c → I s → env c s = some (r, s') → I s')
    (h : p.eval env s = some (a, s')) : I s' := by
  induction p generalizing s with
  | done b =>
    cases h
    exact hI
  | call c next ih =>
    rw [eval_call, Option.bind_eq_some_iff] at h
    obtain ⟨⟨r, s1⟩, hcall, hnext⟩ := h
    exact ih r (hp.2 r) (henv c r s s1 hp.1 hI hcall) hnext

/-- An evaluation in an environment that notes its calls is a complete run. -/
theorem Prog.eval_runs {log : σ → List (Event R)} {a : α} {s' : σ}
    (hlog : ∀ c r s s', env c s = some (r, s') → log s' = log s ++ [⟨c, r⟩])
    (h : p.eval env s = some (a, s')) : ∃ t, Runs p t (.done a) ∧ log s' = log s ++ t := by
  induction p generalizing s with
  | done b =>
    cases h
    exact ⟨[], .nil _, by simp⟩
  | call c next ih =>
    rw [eval_call, Option.bind_eq_some_iff] at h
    obtain ⟨⟨r, s1⟩, hcall, hnext⟩ := h
    obtain ⟨t, hrun, ht⟩ := ih r hnext
    refine ⟨⟨c, r⟩ :: t, .cons hrun, ?_⟩
    rw [ht, hlog c r s s1 hcall, List.append_assoc]
    rfl

/-- Environments whose calls agree up to a map of their states evaluate programs alike. -/
theorem Prog.eval_map {τ : Type} {env' : (c : C) → τ → Option (R c × τ)} (f : σ → τ)
    {I : σ → Prop} (hI : I s)
    (henv : ∀ c s, I s → (∀ r s', env c s = some (r, s') → I s') ∧
      (env c s).map (fun x => (x.1, f x.2)) = env' c (f s)) :
    (p.eval env s).map (fun x => (x.1, f x.2)) = p.eval env' (f s) := by
  induction p generalizing s with
  | done a => rfl
  | call c next ih =>
    obtain ⟨hkeep, hcall⟩ := henv c s hI
    rw [eval_call, eval_call, ← hcall]
    cases h : env c s with
    | none => rfl
    | some x => exact ih x.1 (hkeep x.1 x.2 h)

/-- The calls of a trace get their results from the environment. -/
inductive Answers (env : (c : C) → σ → Option (R c × σ)) : σ → List (Event R) → σ → Prop
  | nil (s : σ) : Answers env s [] s
  | cons {c : C} {r : R c} {s s' s'' : σ} {t : List (Event R)} (h : env c s = some (r, s'))
    (ht : Answers env s' t s'') : Answers env s (⟨c, r⟩ :: t) s''

theorem Answers.append {s' s'' : σ} {t t' : List (Event R)} (h : Answers env s t s')
    (h' : Answers env s' t' s'') : Answers env s (t ++ t') s'' := by
  induction h with
  | nil => exact h'
  | cons hcall _ ih => exact .cons hcall (ih h')

/-- An evaluation is a complete run whose calls the environment answers. -/
theorem Prog.eval_answers {a : α} {s' : σ} (h : p.eval env s = some (a, s')) :
    ∃ t, Runs p t (.done a) ∧ Answers env s t s' := by
  induction p generalizing s with
  | done b =>
    cases h
    exact ⟨[], .nil _, .nil _⟩
  | call c next ih =>
    rw [eval_call, Option.bind_eq_some_iff] at h
    obtain ⟨⟨r, s1⟩, hcall, hnext⟩ := h
    obtain ⟨t, hrun, ht⟩ := ih r hnext
    exact ⟨⟨c, r⟩ :: t, .cons hrun, .cons hcall ht⟩

/-- Another environment that answers the same calls alike. -/
theorem Answers.map {τ : Type} {env' : (c : C) → τ → Option (R c × τ)} {P : C → Prop} (f : σ → τ)
    {t : List (Event R)} {s' : σ} (h : Answers env s t s') (ht : ∀ e ∈ t, P e.call)
    (henv : ∀ c r s s', P c → env c s = some (r, s') → env' c (f s) = some (r, f s')) :
    Answers env' (f s) t (f s') := by
  induction h with
  | nil => exact .nil _
  | cons hcall _ ih =>
    rw [List.forall_mem_cons] at ht
    exact .cons (henv _ _ _ _ ht.1 hcall) (ih ht.2)

/-- A complete run whose calls the environment answers is an evaluation. -/
theorem Prog.Runs.eval {t : List (Event R)} {a : α} {s' : σ} (hrun : Runs p t (.done a))
    (h : Answers env s t s') : p.eval env s = some (a, s') := by
  induction h generalizing p with
  | nil =>
    cases hrun
    rfl
  | cons hcall _ ih =>
    cases hrun with
    | cons hrun =>
      rw [eval_call, hcall]
      exact ih hrun

/-- A program comes from one state to another one, where `q` is left of it. -/
def Prog.Goes (env : (c : C) → σ → Option (R c × σ)) (p : Prog R α) (s : σ) (q : Prog R α)
    (s' : σ) : Prop :=
  ∃ t, Runs p t q ∧ Answers env s t s'

namespace Prog.Goes

variable {q : Prog R α} {s' : σ}

theorem call_inv {c : C} {next : R c → Prog R α} (h : (Prog.call c next).Goes env s q s') :
    (q = .call c next ∧ s' = s) ∨
      ∃ r s1, env c s = some (r, s1) ∧ (next r).Goes env s1 q s' := by
  obtain ⟨t, hrun, h⟩ := h
  cases h with
  | nil =>
    cases hrun
    exact .inl ⟨rfl, rfl⟩
  | cons hcall h =>
    cases hrun with
    | cons hrun => exact .inr ⟨_, _, hcall, _, hrun, h⟩

/-- On the way through `p` and then `f`, the end of `p` is not reached, or what is done behind it is
left of `f`. -/
theorem bind_inv {f : α → Prog R β} {q : Prog R β} (h : (p >>= f).Goes env s q s') :
    (∃ p', p.Goes env s p' s') ∨
      ∃ a s1, p.eval env s = some (a, s1) ∧ (f a).Goes env s1 q s' := by
  induction p generalizing s with
  | done a => exact .inr ⟨a, s, rfl, h⟩
  | call c next ih =>
    rcases h.call_inv with ⟨-, rfl⟩ | ⟨r, s1, hcall, h⟩
    · exact .inl ⟨_, [], .nil _, .nil _⟩
    rcases ih r h with ⟨p', t, hrun, ht⟩ | ⟨a, s2, heval, h⟩
    · exact .inl ⟨p', _, .cons hrun, .cons hcall ht⟩
    · refine .inr ⟨a, s2, ?_, h⟩
      rw [eval_call, hcall]
      exact heval

/-- What is left of a program comes to the same end. -/
theorem eval_eq (h : p.Goes env s q s') : q.eval env s' = p.eval env s := by
  obtain ⟨t, hrun, h⟩ := h
  induction h generalizing p with
  | nil =>
    cases hrun
    rfl
  | cons hcall _ ih =>
    cases hrun with
    | cons hrun => rw [ih hrun, eval_call, hcall]; rfl

theorem cons {c : C} {next : R c → Prog R α} {r : R c} {s1 : σ} (hcall : env c s = some (r, s1))
    (h : (next r).Goes env s1 q s') : (Prog.call c next).Goes env s q s' := by
  obtain ⟨t, hrun, ht⟩ := h
  exact ⟨_, .cons hrun, .cons hcall ht⟩

theorem snoc {c : C} {next : R c → Prog R α} {r : R c} {s1 : σ}
    (h : p.Goes env s (.call c next) s1) (hcall : env c s1 = some (r, s')) :
    p.Goes env s (next r) s' := by
  obtain ⟨t, hrun, ht⟩ := h
  exact ⟨_, hrun.snoc r, ht.append (.cons hcall (.nil _))⟩

theorem of_eval {a : α} (h : p.eval env s = some (a, s')) : p.Goes env s (.done a) s' :=
  Prog.eval_answers h

theorem eval_done {a : α} (h : p.Goes env s (.done a) s') : p.eval env s = some (a, s') :=
  h.eval_eq.symm

end Prog.Goes

end Eval

end Program
