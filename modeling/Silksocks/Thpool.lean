import Silksocks.Jobqueue
import Silksocks.Lib.Threads

/-! The thread pool of `thpool.c`, as threads that share the pool.  A thread is a worker, which runs
`thread_do`, or a caller of the functions of `thpool.h`.  What a thread does while it holds a mutex
is one move where it takes no other mutex meanwhile: the moves of `jobqueue_push` and
`jobqueue_pull` end before their `bsem_post`, those of `thpool_wait` before each of its two tests and
before it sleeps, and `thread_do` leaves in two, since `thpool_destroy` reads
`num_threads_alive` without the mutex. -/

namespace Silksocks

open Threads

/-- `struct thpool_` with its job queue and semaphore, and what else the threads share.  `thcountLock`
and `rwmutex` tell whether the mutex is held.  `jobs` are the jobs that are allocated, each with the
work that it stands for, and `ready` and `freed` tell whether `thpool_init` has returned and
`thpool_destroy` has freed the pool. -/
structure Thpool (J : Type) where
  threadsKeepalive : Bool
  numThreadsAlive : Int
  numThreadsWorking : Int
  thcountLock : Bool
  jobqueue : Jobqueue
  rwmutex : Bool
  hasJobs : Int
  jobs : Nat → Option J
  ready : Bool
  freed : Bool

/-- Where a thread is: the statement that it executes next, and what it holds. -/
inductive Pc (J : Type)
  -- `thread_do`, of a thread that `pthread_create` has not made or has made
  | uncreated
  | born
  | test
  | wait
  | asleep
  | recheck
  | count
  | pull
  | pullPost (job : Nat) (work : J)
  | run (job : Nat) (work : J)
  | uncount
  | leave
  | unlock
  | ended
  -- a caller, between calls or in `thpool_add_work`, `thpool_wait` or `thpool_destroy`
  | idle
  | add (job : Nat) (work : J)
  | addPost
  | lock
  | len
  | working
  | block
  | waiting
  | destroy
  | postAll
  | clear
  deriving DecidableEq, Repr

/-- What the other threads see of a move, besides the shared state. -/
inductive PoolAct (J : Type)
  | step
  | spurious
  | call
  | callWait
  | callDestroy
  | pushed (work : J)
  | pulled (work : J)
  | finished (work : J)
  | post
  | postAll
  | idle
  | sawEmpty
  | waited
  | discarded (works : List J)
  deriving DecidableEq, Repr

namespace Pc

variable {J : Type}

/-- Asleep in `bsem_wait`. -/
def isAsleep : Pc J → Bool
  | asleep => true
  | _ => false

/-- Asleep in `thpool_wait`. -/
def isWaiting : Pc J → Bool
  | waiting => true
  | _ => false

/-- A caller that is in none of the functions. -/
def isIdle : Pc J → Bool
  | idle => true
  | _ => false

/-- A thread in `thpool_wait`. -/
def inWait : Pc J → Bool
  | lock | len | working | block | waiting => true
  | _ => false

/-- A thread that runs `thread_do`, or would. -/
def isWorker : Pc J → Bool
  | uncreated | born | test | wait | asleep | recheck | count | pull | pullPost _ _ | run _ _
  | uncount | leave | unlock | ended => true
  | _ => false

end Pc

section Moves

variable {J : Type}

/-- The moves of a thread of a pool that was made for `nThreads` workers. -/
inductive ThpoolMove (nThreads : Nat) : Thpool J → Pc J → PoolAct J → Thpool J → Pc J → Prop
  -- `thread_do`
  | mark {s : Thpool J} (hlock : s.thcountLock = false) :
    ThpoolMove nThreads s .born .step { s with numThreadsAlive := s.numThreadsAlive + 1 } .test
  | test {s : Thpool J} :
    ThpoolMove nThreads s .test .step s (if s.threadsKeepalive then .wait else .leave)
  | take {s : Thpool J} (hv : s.hasJobs = 1) :
    ThpoolMove nThreads s .wait .step { s with hasJobs := 0 } .recheck
  | doze {s : Thpool J} (hv : s.hasJobs ≠ 1) : ThpoolMove nThreads s .wait .step s .asleep
  -- `pthread_cond_wait` may return without a signal
  | wake {s : Thpool J} : ThpoolMove nThreads s .asleep .spurious s .wait
  | recheck {s : Thpool J} :
    ThpoolMove nThreads s .recheck .step s (if s.threadsKeepalive then .count else .test)
  | count {s : Thpool J} (hlock : s.thcountLock = false) :
    ThpoolMove nThreads s .count .step { s with numThreadsWorking := s.numThreadsWorking + 1 } .pull
  | pullNone {s : Thpool J} {q : Jobqueue} (hlock : s.rwmutex = false)
    (hpull : jobqueuePull s.jobqueue = some (none, q, false)) :
    ThpoolMove nThreads s .pull .step { s with jobqueue := q } .uncount
  | pull {s : Thpool J} {q : Jobqueue} {job : Nat} {work : J} {posts : Bool}
    (hlock : s.rwmutex = false) (hpull : jobqueuePull s.jobqueue = some (some job, q, posts))
    (hjob : s.jobs job = some work) :
    ThpoolMove nThreads s .pull (.pulled work) { s with jobqueue := q, rwmutex := posts }
      (if posts then .pullPost job work else .run job work)
  | pullPost {s : Thpool J} {job : Nat} {work : J} :
    ThpoolMove nThreads s (.pullPost job work) .post { s with hasJobs := 1, rwmutex := false }
      (.run job work)
  -- the job returns, and is freed
  | finish {s : Thpool J} {job : Nat} {work : J} :
    ThpoolMove nThreads s (.run job work) (.finished work)
      { s with jobs := Function.update s.jobs job none } .uncount
  | uncount {s : Thpool J} (hlock : s.thcountLock = false) :
    ThpoolMove nThreads s .uncount (if s.numThreadsWorking - 1 = 0 then .idle else .step)
      { s with numThreadsWorking := s.numThreadsWorking - 1 } .test
  | leave {s : Thpool J} (hlock : s.thcountLock = false) :
    ThpoolMove nThreads s .leave .step
      { s with numThreadsAlive := s.numThreadsAlive - 1, thcountLock := true } .unlock
  | unlock {s : Thpool J} :
    ThpoolMove nThreads s .unlock .step { s with thcountLock := false } .ended
  -- the loop of `thpool_init` that waits for the workers
  | init {s : Thpool J} (hready : s.ready = false) (halive : s.numThreadsAlive = nThreads) :
    ThpoolMove nThreads s .idle .step { s with ready := true } .idle
  -- `thpool_add_work`
  | addWork {s : Thpool J} {job : Nat} (work : J) (hready : s.ready = true)
    (hnew : s.jobs job = none) :
    ThpoolMove nThreads s .idle .call
      { s with jobs := Function.update s.jobs job (some work) } (.add job work)
  | push {s : Thpool J} {q : Jobqueue} {job : Nat} {work : J} (hlock : s.rwmutex = false)
    (hpush : jobqueuePush s.jobqueue job = some q) :
    ThpoolMove nThreads s (.add job work) (.pushed work) { s with jobqueue := q, rwmutex := true }
      .addPost
  | addPost {s : Thpool J} :
    ThpoolMove nThreads s .addPost .post { s with hasJobs := 1, rwmutex := false } .idle
  -- `thpool_wait`
  | waitWork {s : Thpool J} (hready : s.ready = true) : ThpoolMove nThreads s .idle .callWait s .lock
  | lock {s : Thpool J} (hlock : s.thcountLock = false) :
    ThpoolMove nThreads s .lock .step { s with thcountLock := true } .len
  | len {s : Thpool J} :
    ThpoolMove nThreads s .len (if s.jobqueue.len = 0 then .sawEmpty else .step) s
      (if s.jobqueue.len = 0 then .working else .block)
  | waited {s : Thpool J} (hzero : s.numThreadsWorking = 0) :
    ThpoolMove nThreads s .working .waited { s with thcountLock := false } .idle
  | working {s : Thpool J} (hne : s.numThreadsWorking ≠ 0) :
    ThpoolMove nThreads s .working .step s .block
  | block {s : Thpool J} :
    ThpoolMove nThreads s .block .step { s with thcountLock := false } .waiting
  | wakeWaiting {s : Thpool J} : ThpoolMove nThreads s .waiting .spurious s .lock
  -- `thpool_destroy`, whose two loops do the same
  | destroy {s : Thpool J} (hready : s.ready = true) :
    ThpoolMove nThreads s .idle .callDestroy { s with threadsKeepalive := false } .destroy
  | alive {s : Thpool J} :
    ThpoolMove nThreads s .destroy .step s (if s.numThreadsAlive = 0 then .clear else .postAll)
  | postAll {s : Thpool J} :
    ThpoolMove nThreads s .postAll .postAll { s with hasJobs := 1 } .destroy
  | clear {s : Thpool J} {q : Jobqueue} {jobs : List Nat} {works : List J}
    (hlock : s.rwmutex = false) (hclear : jobqueueClear s.jobqueue = some (jobs, q))
    (hjobs : jobs.map s.jobs = works.map some) :
    ThpoolMove nThreads s .clear (.discarded works)
      { s with
        jobqueue := q
        hasJobs := 0
        jobs := fun job => if job ∈ jobs then none else s.jobs job
        freed := true } .idle

/-- Whom a move wakes. -/
@[simp] def PoolAct.wake : PoolAct J → Wake (Pc J)
  | .post => .one Pc.isAsleep .wait
  | .postAll => .all Pc.isAsleep .wait
  | .idle => .one Pc.isWaiting .lock
  | _ => .none

/-- The threads of a pool that was made for `nThreads` workers. -/
def thpool (J : Type) (nThreads : Nat) : System (Thpool J) (Pc J) (PoolAct J) where
  move := ThpoolMove nThreads
  wake := PoolAct.wake

/-- What the callers keep to: no call is under way when the pool is destroyed, and none is made from
then on. -/
def ThpoolContract : State (Thpool J) (Pc J) → Nat → PoolAct J → Prop
  | t, _, .call => t.shared.threadsKeepalive = true
  | t, _, .callWait => t.shared.threadsKeepalive = true
  | t, i, .callDestroy => t.shared.threadsKeepalive = true ∧
    ∀ j, j ≠ i → (t.pcs j).isWorker = true ∨ (t.pcs j).isIdle = true
  | _, _, _ => True

/-- One thread at a time waits for the pool. -/
def ThpoolAlone : State (Thpool J) (Pc J) → Nat → PoolAct J → Prop
  | t, i, e => ThpoolContract t i e ∧ (e = .callWait → ∀ j, (t.pcs j).inWait = false)

/-- The pool when `thpool_init` has called `pthread_create` for each thread; `created` tells which
of the calls succeeded. -/
def thpoolCreated (J : Type) (nThreads : Nat) (created : Nat → Bool) (prev : Nat → Option Nat) :
    State (Thpool J) (Pc J) where
  shared :=
    { threadsKeepalive := true
      numThreadsAlive := 0
      numThreadsWorking := 0
      thcountLock := false
      jobqueue := jobqueueInit prev
      rwmutex := false
      hasJobs := 0
      jobs := fun _ => none
      ready := false
      freed := false }
  pcs i := if i < nThreads then if created i then .born else .uncreated else .idle

/-- Which of the allocations of `thpool_init` succeed: of the pool, of the semaphore in
`jobqueue_init` and of the array of the threads. -/
structure ThpoolAllocs where
  pool : Bool
  hasJobs : Bool
  threads : Bool

/-- `thpool_init` up to its last loop.  Where an allocation fails it gives back what it has and
returns `NULL`, before there is any thread. -/
def thpoolInit (J : Type) (nThreads : Nat) (allocs : ThpoolAllocs) (created : Nat → Bool)
    (prev : Nat → Option Nat) : Option (State (Thpool J) (Pc J)) :=
  if allocs.pool = false then none
  else if allocs.hasJobs = false then none
  else if allocs.threads = false then none
  else some (thpoolCreated J nThreads created prev)

/-- What a pool of `nThreads` workers, whose functions `nCallers` threads call, does up to some
point: the moves, and the state there.  The callers keep to `ThpoolContract`. -/
def ThpoolRun (nThreads nCallers : Nat) (created : Nat → Bool) (prev : Nat → Option Nat)
    (ls : List (Nat × PoolAct J)) (t : State (Thpool J) (Pc J)) : Prop :=
  Lts.Run ((thpool J nThreads).Step ThpoolContract (nThreads + nCallers))
    (thpoolCreated J nThreads created prev) ls t

theorem thpool_alone {nThreads nCallers : Nat} {created : Nat → Bool} {prev : Nat → Option Nat}
    {ls : List (Nat × PoolAct J)} {t : State (Thpool J) (Pc J)}
    (h : Lts.Run ((thpool J nThreads).Step ThpoolAlone (nThreads + nCallers))
      (thpoolCreated J nThreads created prev) ls t) : ThpoolRun nThreads nCallers created prev ls t :=
  System.run_mono (fun _ _ _ hg => hg.1) h

end Moves

/-! ### A pool of one worker and one caller -/

section OnePool

/-- A worker at `w` and a caller at `c`. -/
def onePcs (w c : Pc Nat) (i : Nat) : Pc Nat := if i = 0 then w else if i = 1 then c else .idle

/-- What a pool of one worker does, with one caller. -/
def OnePoolRun (ls : List (Nat × PoolAct Nat)) (s : Thpool Nat) (w c : Pc Nat) : Prop :=
  Lts.Run ((thpool Nat 1).Step ThpoolAlone 2)
    (thpoolCreated Nat 1 (fun _ => true) (fun _ => none)) ls ⟨s, onePcs w c⟩

variable {w w' c c' : Pc Nat} {s s' : Thpool Nat} {e : PoolAct Nat} {ls : List (Nat × PoolAct Nat)}

theorem OnePoolRun.alone (h : OnePoolRun ls s w c) :
    Lts.Run ((thpool Nat 1).Step ThpoolAlone (1 + 1))
      (thpoolCreated Nat 1 (fun _ => true) (fun _ => none)) ls ⟨s, onePcs w c⟩ := h

theorem OnePoolRun.run (h : OnePoolRun ls s w c) :
    ThpoolRun 1 1 (fun _ => true) (fun _ => none) ls ⟨s, onePcs w c⟩ :=
  thpool_alone h

theorem onePcs_worker : Function.update (onePcs w c) 0 w' = onePcs w' c := by
  funext i
  by_cases hi : i = 0 <;> simp [onePcs, hi]

theorem onePcs_caller : Function.update (onePcs w c) 1 c' = onePcs w c' := by
  funext i
  by_cases hi : i = 1 <;> simp [onePcs, hi]

theorem onePcs_all {p : Pc Nat → Bool} (hw : p w = false) (hc : p c = false) :
    ∀ i < 2, p (onePcs w c i) = false
  | 0, _ => hw
  | 1, _ => hc

theorem onePcs_init :
    (thpoolCreated Nat 1 (fun _ => true) fun _ => none).pcs = onePcs .born .idle := by
  funext i
  simp only [onePcs, thpoolCreated, ite_self, Nat.lt_one_iff, if_true]

theorem onePool_init : OnePoolRun [] (thpoolCreated Nat 1 (fun _ => true) fun _ => none).shared .born
    .idle := by
  rw [OnePoolRun, ← onePcs_init]
  exact .nil

variable {G : State (Thpool Nat) (Pc Nat) → Nat → PoolAct Nat → Prop}

theorem onePool_worker (hm : ThpoolMove 1 s w e s' w') (hg : G ⟨s, onePcs w c⟩ 0 e)
    (hwake : e.wake = .none) :
    (thpool Nat 1).Step G 2 ⟨s, onePcs w c⟩ (0, e) ⟨s', onePcs w' c⟩ := by
  refine .mk (by decide) hg hm ?_
  rw [onePcs_worker, show (thpool Nat 1).wake e = .none from hwake]
  exact .none

theorem onePool_caller (hm : ThpoolMove 1 s c e s' c') (hg : G ⟨s, onePcs w c⟩ 1 e)
    (hwake : e.wake = .none) :
    (thpool Nat 1).Step G 2 ⟨s, onePcs w c⟩ (1, e) ⟨s', onePcs w c'⟩ := by
  refine .mk (by decide) hg hm ?_
  rw [onePcs_caller, show (thpool Nat 1).wake e = .none from hwake]
  exact .none

/-- The worker would wake somebody, but nobody sleeps there. -/
theorem onePool_worker_nobody {p : Pc Nat → Bool} {a : Pc Nat} (hm : ThpoolMove 1 s w e s' w')
    (hg : G ⟨s, onePcs w c⟩ 0 e) (hwake : e.wake = .one p a) (hw : p w' = false)
    (hc : p c = false) : (thpool Nat 1).Step G 2 ⟨s, onePcs w c⟩ (0, e) ⟨s', onePcs w' c⟩ := by
  refine .mk (by decide) hg hm ?_
  rw [onePcs_worker, show (thpool Nat 1).wake e = _ from hwake]
  exact .nobody (onePcs_all hw hc)

theorem onePool_caller_nobody {p : Pc Nat → Bool} {a : Pc Nat} (hm : ThpoolMove 1 s c e s' c')
    (hg : G ⟨s, onePcs w c⟩ 1 e) (hwake : e.wake = .one p a) (hw : p w = false)
    (hc : p c' = false) : (thpool Nat 1).Step G 2 ⟨s, onePcs w c⟩ (1, e) ⟨s', onePcs w c'⟩ := by
  refine .mk (by decide) hg hm ?_
  rw [onePcs_caller, show (thpool Nat 1).wake e = _ from hwake]
  exact .nobody (onePcs_all hw hc)

/-- The caller wakes the worker. -/
theorem onePool_caller_wakes (hm : ThpoolMove 1 s c e s' c') (hg : G ⟨s, onePcs .asleep c⟩ 1 e)
    (hwake : e.wake = .one Pc.isAsleep .wait) :
    (thpool Nat 1).Step G 2 ⟨s, onePcs .asleep c⟩ (1, e) ⟨s', onePcs .wait c'⟩ := by
  refine .mk (by decide) hg hm ?_
  have hw : Woken 2 (.one Pc.isAsleep .wait) (onePcs .asleep c')
      (Function.update (onePcs .asleep c') 0 .wait) := .one (by decide) rfl
  rw [onePcs_worker] at hw
  rw [onePcs_caller, show (thpool Nat 1).wake e = _ from hwake]
  exact hw

/-- The worker wakes the caller. -/
theorem onePool_worker_wakes (hm : ThpoolMove 1 s w e s' w') (hg : G ⟨s, onePcs w .waiting⟩ 0 e)
    (hwake : e.wake = .one Pc.isWaiting .lock) :
    (thpool Nat 1).Step G 2 ⟨s, onePcs w .waiting⟩ (0, e) ⟨s', onePcs w' .lock⟩ := by
  refine .mk (by decide) hg hm ?_
  have hw : Woken 2 (.one Pc.isWaiting .lock) (onePcs w' .waiting)
      (Function.update (onePcs w' .waiting) 1 .lock) := .one (by decide) rfl
  rw [onePcs_caller] at hw
  rw [onePcs_worker, show (thpool Nat 1).wake e = _ from hwake]
  exact hw

theorem OnePoolRun.worker (h : OnePoolRun ls s w c) (hm : ThpoolMove 1 s w e s' w')
    (hg : ThpoolAlone ⟨s, onePcs w c⟩ 0 e) (hwake : e.wake = .none) :
    OnePoolRun (ls ++ [(0, e)]) s' w' c := h.snoc (onePool_worker hm hg hwake)

theorem OnePoolRun.caller (h : OnePoolRun ls s w c) (hm : ThpoolMove 1 s c e s' c')
    (hg : ThpoolAlone ⟨s, onePcs w c⟩ 1 e) (hwake : e.wake = .none) :
    OnePoolRun (ls ++ [(1, e)]) s' w c' := h.snoc (onePool_caller hm hg hwake)

theorem OnePoolRun.caller_wakes (h : OnePoolRun ls s .asleep c) (hm : ThpoolMove 1 s c e s' c')
    (hg : ThpoolAlone ⟨s, onePcs .asleep c⟩ 1 e) (hwake : e.wake = .one Pc.isAsleep .wait) :
    OnePoolRun (ls ++ [(1, e)]) s' .wait c' := h.snoc (onePool_caller_wakes hm hg hwake)

theorem OnePoolRun.worker_wakes (h : OnePoolRun ls s w .waiting) (hm : ThpoolMove 1 s w e s' w')
    (hg : ThpoolAlone ⟨s, onePcs w .waiting⟩ 0 e) (hwake : e.wake = .one Pc.isWaiting .lock) :
    OnePoolRun (ls ++ [(0, e)]) s' w' .lock := h.snoc (onePool_worker_wakes hm hg hwake)

/-- A pool to which work has been added while its worker sleeps. -/
theorem onePool_pushed : ∃ s, OnePoolRun [(0, .step), (0, .step), (0, .step), (1, .step),
    (1, .call), (1, .pushed 7)] s .asleep .addPost ∧ s.threadsKeepalive = true ∧
    s.jobqueue.toList = [0] ∧ s.jobs 0 = some 7 := by
  have h := onePool_init
  have h := h.worker (.mark rfl) ⟨trivial, nofun⟩ rfl
  have h := h.worker .test ⟨trivial, nofun⟩ rfl
  have h := h.worker (.doze nofun) ⟨trivial, nofun⟩ rfl
  have h := h.caller (.init rfl rfl) ⟨trivial, nofun⟩ rfl
  have h := h.caller (.addWork 7 rfl rfl : ThpoolMove 1 _ .idle .call _ (.add 0 7)) ⟨rfl, nofun⟩ rfl
  have h := h.caller (.push rfl rfl) ⟨trivial, nofun⟩ rfl
  exact ⟨_, h, rfl, rfl, rfl⟩

/-- A pool that has done its work, and for which `thpool_wait` has waited. -/
theorem onePool_waited : ∃ s, OnePoolRun ([(0, .step), (0, .step), (0, .step), (1, .step),
    (1, .call), (1, .pushed 7), (1, .post)] ++ (1, .callWait) :: [(1, .step), (1, .step), (1, .step),
    (0, .step), (0, .step), (0, .step), (0, .pulled 7), (0, .finished 7), (0, .idle), (0, .step),
    (0, .step), (1, .step), (1, .sawEmpty)] ++ [(1, .waited)]) s .asleep .idle ∧
    s.ready = true ∧ s.threadsKeepalive = true ∧ s.hasJobs = 0 ∧ s.thcountLock = false ∧
    s.numThreadsAlive = 1 ∧ s.rwmutex = false ∧ s.jobqueue.toList = [] := by
  have h := onePool_init
  have h := h.worker (.mark rfl) ⟨trivial, nofun⟩ rfl
  have h := h.worker .test ⟨trivial, nofun⟩ rfl
  have h := h.worker (.doze nofun) ⟨trivial, nofun⟩ rfl
  have h := h.caller (.init rfl rfl) ⟨trivial, nofun⟩ rfl
  have h := h.caller (.addWork 7 rfl rfl : ThpoolMove 1 _ .idle .call _ (.add 0 7)) ⟨rfl, nofun⟩ rfl
  have h := h.caller (.push rfl rfl) ⟨trivial, nofun⟩ rfl
  have h := h.caller_wakes .addPost ⟨trivial, nofun⟩ rfl
  have h := h.caller (.waitWork rfl) ⟨rfl, fun _ j => by
    simp only [onePcs]; split <;> [rfl; split <;> rfl]⟩ rfl
  have h := h.caller (.lock rfl) ⟨trivial, nofun⟩ rfl
  have h := h.caller .len ⟨trivial, nofun⟩ rfl
  have h := h.caller .block ⟨trivial, nofun⟩ rfl
  have h := h.worker (.take rfl) ⟨trivial, nofun⟩ rfl
  have h := h.worker .recheck ⟨trivial, nofun⟩ rfl
  have h := h.worker (.count rfl) ⟨trivial, nofun⟩ rfl
  have h := h.worker (.pull rfl rfl rfl) ⟨trivial, nofun⟩ rfl
  have h := h.worker .finish ⟨trivial, nofun⟩ rfl
  have h := h.worker_wakes (.uncount rfl) ⟨trivial, nofun⟩ rfl
  have h := h.worker .test ⟨trivial, nofun⟩ rfl
  have h := h.worker (.doze nofun) ⟨trivial, nofun⟩ rfl
  have h := h.caller (.lock rfl) ⟨trivial, nofun⟩ rfl
  have h := h.caller .len ⟨trivial, nofun⟩ rfl
  have h := h.caller (.waited rfl) ⟨trivial, nofun⟩ rfl
  exact ⟨_, h, rfl, rfl, rfl, rfl, rfl, rfl, rfl⟩

/-- A pool that is freed while its worker has not left it yet, and with a job in its queue. -/
theorem onePool_freed : ∃ ls s, OnePoolRun ls s .unlock .idle ∧ s.freed = true := by
  have h := onePool_init
  have h := h.worker (.mark rfl) ⟨trivial, nofun⟩ rfl
  have h := h.worker .test ⟨trivial, nofun⟩ rfl
  have h := h.worker (.doze nofun) ⟨trivial, nofun⟩ rfl
  have h := h.caller (.init rfl rfl) ⟨trivial, nofun⟩ rfl
  have h := h.caller (.addWork 7 rfl rfl : ThpoolMove 1 _ .idle .call _ (.add 0 7)) ⟨rfl, nofun⟩ rfl
  have h := h.caller (.push rfl rfl) ⟨trivial, nofun⟩ rfl
  have h := h.caller_wakes .addPost ⟨trivial, nofun⟩ rfl
  have h := h.caller (.destroy rfl) ⟨⟨rfl, fun j hj => by
    by_cases h0 : j = 0
    · exact .inl (by rw [h0]; rfl)
    · exact .inr (by simp [onePcs, h0, hj, Pc.isIdle])⟩, nofun⟩ rfl
  have h := h.worker (.take rfl) ⟨trivial, nofun⟩ rfl
  have h := h.worker .recheck ⟨trivial, nofun⟩ rfl
  have h := h.worker .test ⟨trivial, nofun⟩ rfl
  have h := h.worker (.leave rfl) ⟨trivial, nofun⟩ rfl
  have h := h.caller .alive ⟨trivial, nofun⟩ rfl
  have h := h.caller (e := .discarded [7]) (.clear rfl rfl rfl) ⟨trivial, nofun⟩ rfl
  exact ⟨_, _, h, rfl⟩

end OnePool

end Silksocks
