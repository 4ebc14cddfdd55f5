import Silksocks.Lib.Program

/-! Interleavings of programs.  A pool is a shared state and any number of threads; a thread runs
the program `body arg` and records its calls.  At each step a new thread starts or some thread makes
one call, whose result and effect on the shared state `act` relates. -/

namespace Program

variable {C : Type} {R : C → Type} {A α σ : Type}

/-- A thread: its argument, the calls it has made, and what it still has to do. -/
structure Thread (A : Type) (R : C → Type) (α : Type) where
  arg : A
  trace : List (Event R)
  prog : Prog R α

structure Pool (σ A : Type) (R : C → Type) (α : Type) where
  shared : σ
  threads : List (Thread A R α)

/-- How threads start and what their calls do. -/
structure Rules (σ A : Type) (R : C → Type) (α : Type) where
  body : A → Prog R α
  spawn : σ → A → σ → Prop
  act : σ → A → Event R → σ → Prop

namespace Rules

variable (P : Rules σ A R α) (G : σ → A → Event R → Prop)

/-- One step of a pool, whose call and result meet the condition `G` on the state before it. -/
inductive Step : Pool σ A R α → Pool σ A R α → Prop
  | spawn {s s' : σ} {ts : List (Thread A R α)} {a : A} (h : P.spawn s a s') :
      Step ⟨s, ts⟩ ⟨s', ts ++ [⟨a, [], P.body a⟩]⟩
  | act {s s' : σ} {before after : List (Thread A R α)} {a : A} {t : List (Event R)} {c : C}
      {next : R c → Prog R α} {r : R c} (hg : G s a ⟨c, r⟩)
      (h : P.act s a ⟨c, r⟩ s') :
      Step ⟨s, before ++ ⟨a, t, .call c next⟩ :: after⟩
        ⟨s', before ++ ⟨a, t ++ [⟨c, r⟩], next r⟩ :: after⟩

/-- The pools reached from the shared state `init` by steps whose calls meet `G`. -/
inductive Reach (init : σ) : Pool σ A R α → Prop
  | init : Reach init ⟨init, []⟩
  | step {p p' : Pool σ A R α} (h : Reach init p) (hs : P.Step G p p') : Reach init p'

/-- The condition that every call meets. -/
def Always : σ → A → Event R → Prop := fun _ _ _ => True

variable {P G} {init : σ} {p : Pool σ A R α}

theorem Reach.mono {G' : σ → A → Event R → Prop} (h : P.Reach G init p)
    (hG : ∀ s a e, G s a e → G' s a e) : P.Reach G' init p := by
  induction h with
  | init => exact .init
  | step _ hs ih =>
    refine ih.step ?_
    cases hs with
    | spawn hs => exact .spawn hs
    | act hg hs => exact .act (hG _ _ _ hg) hs

theorem Reach.spawn {s s' : σ} {ts : List (Thread A R α)} (h : P.Reach G init ⟨s, ts⟩) {a : A}
    (hs : P.spawn s a s') : P.Reach G init ⟨s', ts ++ [⟨a, [], P.body a⟩]⟩ := h.step (.spawn hs)

theorem Reach.act_last {s s' : σ} {ts : List (Thread A R α)} {a : A} {t : List (Event R)} {c : C}
    {next : R c → Prog R α} {r : R c}
    (h : P.Reach G init ⟨s, ts ++ [⟨a, t, .call c next⟩]⟩) (hg : G s a ⟨c, r⟩)
    (hact : P.act s a ⟨c, r⟩ s') : P.Reach G init ⟨s', ts ++ [⟨a, t ++ [⟨c, r⟩], next r⟩]⟩ :=
  h.step (.act hg hact)

theorem Reach.runs (h : P.Reach G init p) :
    ∀ th ∈ p.threads, Prog.Runs (P.body th.arg) th.trace th.prog := by
  induction h with
  | init => intro th hth; cases hth
  | step _ hs ih =>
    intro th hth
    cases hs with
    | spawn h =>
      rcases List.mem_append.mp hth with hth | hth
      · exact ih th hth
      · rw [List.mem_singleton.mp hth]
        exact .nil _
    | act hg h =>
      rcases List.mem_append.mp hth with hth | hth
      · exact ih th (List.mem_append_left _ hth)
      rcases List.mem_cons.mp hth with rfl | hth
      · exact (ih _ (List.mem_append_right _ List.mem_cons_self)).snoc _
      · exact ih th (List.mem_append_right _ (List.mem_cons_of_mem _ hth))

/-- A shared invariant and what it makes true of the calls: if every step keeps `I`, makes `E` true
of the call that it makes and leaves `E` true of earlier calls, then `I` holds of the shared state
and `E` of every call of every thread. -/
theorem Reach.calls {I : σ → Prop} {E : σ → A → Event R → Prop} (h : P.Reach G init p)
    (hinit : I init)
    (hspawn : ∀ s a s', P.spawn s a s' → I s → I s' ∧ ∀ b e, E s b e → E s' b e)
    (hact : ∀ s a t c next r s', Prog.Runs (P.body a) t (.call c next) → G s a ⟨c, r⟩ →
      P.act s a ⟨c, r⟩ s' → I s → (∀ e ∈ t, E s a e) →
      I s' ∧ E s' a ⟨c, r⟩ ∧ ∀ b e, E s b e → E s' b e) :
    I p.shared ∧ ∀ th ∈ p.threads, ∀ e ∈ th.trace, E p.shared th.arg e := by
  induction h with
  | init => exact ⟨hinit, fun th hth => by cases hth⟩
  | step h hs ih =>
    obtain ⟨hI, hE⟩ := ih
    cases hs with
    | spawn hs =>
      obtain ⟨hI', hmono⟩ := hspawn _ _ _ hs hI
      refine ⟨hI', fun th hth e he => ?_⟩
      rcases List.mem_append.mp hth with hth | hth
      · exact hmono _ _ (hE th hth e he)
      · rw [List.mem_singleton.mp hth] at he
        cases he
    | @act s s' before after a t c next r hg hs =>
      have hmem : ⟨a, t, .call c next⟩ ∈ before ++ ⟨a, t, .call c next⟩ :: after :=
        List.mem_append_right _ List.mem_cons_self
      obtain ⟨hI', hnew, hmono⟩ :=
        hact _ _ _ _ _ _ _ (h.runs _ hmem) hg hs hI fun e he => hE _ hmem e he
      refine ⟨hI', fun th hth e he => ?_⟩
      rcases List.mem_append.mp hth with hth | hth
      · exact hmono _ _ (hE th (List.mem_append_left _ hth) e he)
      rcases List.mem_cons.mp hth with rfl | hth
      · rcases List.mem_append.mp he with he | he
        · exact hmono _ _ (hE _ hmem e he)
        · rw [List.mem_singleton.mp he]
          exact hnew
      · exact hmono _ _ (hE th (List.mem_append_right _ (List.mem_cons_of_mem _ hth)) e he)

/-- What is logged in the shared state is justified by the calls of some thread, if each step logs
only what the calls of its own thread justify. -/
theorem Reach.logged {β : Type} {L : σ → List β} {W : β → List (Event R) → Prop}
    (h : P.Reach G init p) (hinit : L init = []) (hW : ∀ b t e, W b t → W b (t ++ [e]))
    (hspawn : ∀ s a s', P.spawn s a s' → ∀ b ∈ L s', b ∈ L s)
    (hact : ∀ s a t c next r s', Prog.Runs (P.body a) t (.call c next) →
      P.act s a ⟨c, r⟩ s' → ∀ b ∈ L s', b ∈ L s ∨ W b t) :
    ∀ b ∈ L p.shared, ∃ th ∈ p.threads, W b th.trace := by
  induction h with
  | init =>
    intro b hb
    rw [hinit] at hb
    cases hb
  | step h hs ih =>
    intro b hb
    cases hs with
    | spawn hs =>
      obtain ⟨th, hth, hw⟩ := ih b (hspawn _ _ _ hs b hb)
      exact ⟨th, List.mem_append_left _ hth, hw⟩
    | @act s s' before after a t c next r hg hs =>
      have hmem : ⟨a, t, .call c next⟩ ∈ before ++ ⟨a, t, .call c next⟩ :: after :=
        List.mem_append_right _ List.mem_cons_self
      have hnew : ⟨a, t ++ [⟨c, r⟩], next r⟩ ∈ before ++ ⟨a, t ++ [⟨c, r⟩], next r⟩ :: after :=
        List.mem_append_right _ List.mem_cons_self
      rcases hact _ _ _ _ _ _ _ (h.runs _ hmem) hs b hb with hb | hw
      · obtain ⟨th, hth, hw⟩ := ih b hb
        rcases List.mem_append.mp hth with hth | hth
        · exact ⟨th, List.mem_append_left _ hth, hw⟩
        rcases List.mem_cons.mp hth with rfl | hth
        · exact ⟨_, hnew, hW _ _ _ hw⟩
        · exact ⟨th, List.mem_append_right _ (List.mem_cons_of_mem _ hth), hw⟩
      · exact ⟨_, hnew, hW _ _ _ hw⟩

end Rules

end Program
