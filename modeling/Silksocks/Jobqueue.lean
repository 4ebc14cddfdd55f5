import Silksocks.Lib.LinkedQueue

/-! The job queue of `thpool.c`.  A job is a node that `thpool_add_work` allocates, and `prev` links
it to the job behind it.  The functions look at `len` to tell whether the queue is empty; an access
through a null pointer has no result. -/

namespace Silksocks

open LinkedQueue

/-- `struct jobqueue`, without its mutex and its semaphore, and the field `prev` of the jobs. -/
structure Jobqueue where
  front : Option Nat
  rear : Option Nat
  len : Int
  prev : Nat → Option Nat

/-- `jobqueue_init`. -/
def jobqueueInit (prev : Nat → Option Nat) : Jobqueue := ⟨none, none, 0, prev⟩

/-- `jobqueue_push`, up to its `bsem_post`. -/
def jobqueuePush (q : Jobqueue) (newjob : Nat) : Option Jobqueue :=
  let prev := Function.update q.prev newjob none
  if q.len = 0 then some ⟨some newjob, some newjob, q.len + 1, prev⟩
  else
    match q.rear with
    | none => none
    | some rear =>
      some ⟨q.front, some newjob, q.len + 1, Function.update prev rear (some newjob)⟩

/-- `jobqueue_pull`, up to its `bsem_post`: the job, the queue that is left, and whether the
function posts. -/
def jobqueuePull (q : Jobqueue) : Option (Option Nat × Jobqueue × Bool) :=
  if q.len = 0 then some (q.front, q, false)
  else if q.len = 1 then some (q.front, ⟨none, none, 0, q.prev⟩, false)
  else
    match q.front with
    | none => none
    | some job => some (some job, { q with front := q.prev job, len := q.len - 1 }, true)

/-- The loop of `jobqueue_clear`, in which `len` goes down to 0: the jobs that it frees, and the
queue that is left. -/
def jobqueueClearLoop : Nat → Jobqueue → Option (List Nat × Jobqueue)
  | 0, q => if q.len = 0 then some ([], q) else none
  | fuel + 1, q =>
    if q.len = 0 then some ([], q)
    else
      (jobqueuePull q).bind fun (job, q, _) =>
        (jobqueueClearLoop fuel q).map fun (jobs, q) => (job.toList ++ jobs, q)

/-- `jobqueue_clear`, but for `bsem_reset`. -/
def jobqueueClear (q : Jobqueue) : Option (List Nat × Jobqueue) :=
  (jobqueueClearLoop q.len.toNat q).map fun (jobs, q) => (jobs, ⟨none, none, 0, q.prev⟩)

/-- The jobs from a pointer on, as many as there are. -/
def followJobs (prev : Nat → Option Nat) : Nat → Option Nat → List Nat
  | 0, _ => []
  | _ + 1, none => []
  | fuel + 1, some job => job :: followJobs prev fuel (prev job)

/-- The jobs in the queue, the next one to be pulled first. -/
def Jobqueue.toList (q : Jobqueue) : List Nat := followJobs q.prev q.len.toNat q.front

/-- The queue holds the jobs `l`, the next one to be pulled first. -/
structure Jobqueue.Holds (q : Jobqueue) (l : List Nat) : Prop where
  repr : Repr ⟨q.front, q.rear, q.prev⟩ l
  len : q.len = l.length

section Holds

variable {q : Jobqueue} {l : List Nat} {job : Nat}

theorem jobqueueInit_holds (prev : Nat → Option Nat) : (jobqueueInit prev).Holds [] :=
  ⟨.empty _ _, rfl⟩

theorem followJobs_eq {prev : Nat → Option Nat} {p : Option Nat} (h : Chains.Linked prev p l) :
    followJobs prev l.length p = l := by
  induction l generalizing p with
  | nil => rfl
  | cons job l ih =>
    obtain ⟨rfl, hl⟩ := h
    rw [List.length_cons, followJobs, ih hl]

theorem Jobqueue.Holds.toList_eq (h : q.Holds l) : q.toList = l := by
  rw [Jobqueue.toList, h.len, Int.toNat_natCast]
  exact followJobs_eq h.repr.linked

theorem Jobqueue.Holds.len_eq_zero (h : q.Holds l) : q.len = 0 ↔ l = [] := by
  rw [h.len, ← List.length_eq_zero_iff]
  omega

theorem Jobqueue.Holds.front_eq (h : q.Holds l) : q.front = l.head? := h.repr.first_eq

/-- A job that is not in the queue goes behind all others. -/
theorem jobqueuePush_holds (h : q.Holds l) (hjob : job ∉ l) :
    ∃ q', jobqueuePush q job = some q' ∧ q'.Holds (l ++ [job]) := by
  unfold jobqueuePush
  by_cases hl : l = []
  · rw [if_pos (h.len_eq_zero.mpr hl)]
    refine ⟨_, rfl, ?_, by simp [h.len]⟩
    subst hl
    exact Repr.single ⟨q.front, q.rear, q.prev⟩ job
  · rw [if_neg fun hlen => hl (h.len_eq_zero.mp hlen)]
    have hlast := List.getLast?_eq_some_getLast hl
    have hrear : q.rear = some (l.getLast hl) := h.repr.last _ hlast
    rw [hrear]
    exact ⟨_, rfl, h.repr.append hlast hjob, by simp [h.len]⟩

theorem jobqueuePull_nil (h : q.Holds []) : jobqueuePull q = some (none, q, false) := by
  rw [jobqueuePull, if_pos (h.len_eq_zero.mpr rfl), h.front_eq]
  rfl

/-- The first job comes out; the function posts if there are more. -/
theorem jobqueuePull_cons (h : q.Holds (job :: l)) :
    ∃ q', jobqueuePull q = some (some job, q', !l.isEmpty) ∧ q'.Holds l := by
  have hfront := h.front_eq
  have hlen := h.len
  rw [List.head?_cons] at hfront
  rw [List.length_cons] at hlen
  unfold jobqueuePull
  rw [if_neg (by omega), hfront]
  cases l with
  | nil =>
    rw [if_pos (by simpa using hlen)]
    exact ⟨_, rfl, .empty _ _, rfl⟩
  | cons k l =>
    rw [if_neg (by rw [hlen, List.length_cons]; omega)]
    refine ⟨_, rfl, h.repr.pop, ?_⟩
    dsimp only
    rw [hlen]
    omega

theorem jobqueueClearLoop_holds (h : q.Holds l) :
    ∃ q', jobqueueClearLoop l.length q = some (l, q') ∧ q'.Holds [] := by
  induction l generalizing q with
  | nil => exact ⟨q, if_pos h.len, h⟩
  | cons job l ih =>
    obtain ⟨q1, hpull, h1⟩ := jobqueuePull_cons h
    obtain ⟨q', hclear, h'⟩ := ih h1
    refine ⟨q', ?_, h'⟩
    have hne : ¬ q.len = 0 := fun h0 => List.cons_ne_nil _ _ (h.len_eq_zero.mp h0)
    rw [List.length_cons, jobqueueClearLoop, if_neg hne, hpull, Option.bind_some]
    dsimp only
    rw [hclear]
    rfl

/-- A queue that is cleared gives back every job. -/
theorem jobqueueClear_holds (h : q.Holds l) :
    ∃ q', jobqueueClear q = some (l, q') ∧ q'.Holds [] := by
  obtain ⟨q', hclear, -⟩ := jobqueueClearLoop_holds h
  refine ⟨⟨none, none, 0, q'.prev⟩, ?_, .empty _ _, rfl⟩
  rw [jobqueueClear, h.len, Int.toNat_natCast, hclear]
  rfl

/-! ### What the functions tell of the queue -/

variable {q' : Jobqueue} {posts : Bool} {jobs : List Nat}

theorem jobqueuePull_none (h : q.Holds l) (hpull : jobqueuePull q = some (none, q', posts)) :
    l = [] ∧ q' = q := by
  cases l with
  | nil =>
    rw [jobqueuePull_nil h] at hpull
    cases hpull
    exact ⟨rfl, rfl⟩
  | cons k l =>
    obtain ⟨q1, hpull', -⟩ := jobqueuePull_cons h
    rw [hpull'] at hpull
    cases hpull

theorem jobqueuePull_some (h : q.Holds l) (hpull : jobqueuePull q = some (some job, q', posts)) :
    ∃ l', l = job :: l' ∧ q'.Holds l' ∧ posts = !l'.isEmpty := by
  cases l with
  | nil =>
    rw [jobqueuePull_nil h] at hpull
    cases hpull
  | cons k l =>
    obtain ⟨q1, hpull', h1⟩ := jobqueuePull_cons h
    rw [hpull'] at hpull
    cases hpull
    exact ⟨l, rfl, h1, rfl⟩

theorem jobqueuePush_some (h : q.Holds l) (hjob : job ∉ l) (hpush : jobqueuePush q job = some q') :
    q'.Holds (l ++ [job]) := by
  obtain ⟨q1, hpush', h1⟩ := jobqueuePush_holds h hjob
  rw [hpush'] at hpush
  cases hpush
  exact h1

theorem jobqueueClear_some (h : q.Holds l) (hclear : jobqueueClear q = some (jobs, q')) :
    jobs = l ∧ q'.Holds [] := by
  obtain ⟨q1, hclear', h1⟩ := jobqueueClear_holds h
  rw [hclear'] at hclear
  cases hclear
  exact ⟨rfl, h1⟩

end Holds

end Silksocks
