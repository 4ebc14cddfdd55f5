import Silksocks.ThpoolWakeups

/-! The progress of the thread pool.  Whatever the scheduler does, the threads come to rest, and when
they do, every job is done and the calls of `thpool_init` and `thpool_wait` have returned. -/

namespace Silksocks

open Threads

section Defs

variable {J : Type}

/-- Where a thread stays unless it is called, or woken. -/
def Pc.isResting : Pc J → Bool
  | uncreated | asleep | ended | idle | waiting => true
  | _ => false

/-- Where a thread waits for `thcount_lock`. -/
def Pc.needsCount : Pc J → Bool
  | born | count | uncount | leave | lock => true
  | _ => false

/-- Where a thread waits for `rwmutex`. -/
def Pc.needsQueue : Pc J → Bool
  | pull | add _ _ | clear => true
  | _ => false

/-- How many moves a thread makes at most until it rests, those of threads that it wakes and posts
to included. -/
@[simp] def Pc.movesLeft : Pc J → Nat
  | uncreated | asleep | ended | idle | waiting => 0
  | wait | unlock | block | postAll | clear => 1
  | leave | working | destroy => 2
  | test | len => 3
  | born | lock => 4
  | uncount => 8
  | pull | run _ _ => 9
  | count => 10
  | recheck => 11
  | addPost => 13
  | pullPost _ _ => 22
  | add _ _ => 28

/-- How many moves the jobs in the queue, the semaphore and the return of `thpool_init` make for. -/
@[simp] def Thpool.movesLeft (s : Thpool J) : Nat :=
  14 * s.jobqueue.toList.length + (if s.hasJobs = 1 then 11 else 0) + (!s.ready).toNat

namespace PoolAct

/-- Moves that nothing in the pool asks for. -/
def isChoice : PoolAct J → Bool
  | spurious | call | callWait | callDestroy => true
  | _ => false

/-- How many moves a move makes for at most, itself included. -/
@[simp] def makesFor (n : Nat) : PoolAct J → Nat
  | spurious => 5
  | call => 29
  | callWait => 5
  | callDestroy => 3
  | postAll => n + 13
  | _ => 0

/-- How many moves a thread makes because it is woken. -/
@[simp] def movesWoken : PoolAct J → Nat
  | post | postAll => 1
  | idle => 4
  | _ => 0

end PoolAct

/-- No thread of the `n` threads has anything to do. -/
def ThpoolAtRest (nThreads n : Nat) (t : State (Thpool J) (Pc J)) : Prop :=
  ∀ e t', (thpool J nThreads).Step ThpoolContract n t e t' → e.2.isChoice = true

end Defs

section Rest

variable {J : Type} {nThreads nCallers : Nat} {created : Nat → Bool} {prev : Nat → Option Nat}
  {ls : List (Nat × PoolAct J)} {t : State (Thpool J) (Pc J)} {s s' : Thpool J} {pc pc' : Pc J}
  {e : PoolAct J}

/-! ### Rest -/

theorem ThpoolMove.exists (hq : s.jobqueue.Holds s.jobqueue.toList)
    (halloc : ∀ job ∈ s.jobqueue.toList, (s.jobs job).isSome = true)
    (hfresh : ∀ job work, pc = .add job work → job ∉ s.jobqueue.toList)
    (hcount : pc.needsCount = true → s.thcountLock = false)
    (hqueue : pc.needsQueue = true → s.rwmutex = false) (hpc : pc.isResting = false) :
    ∃ e s' pc', ThpoolMove nThreads s pc e s' pc' ∧ e.isChoice = false := by
  cases pc with
  | uncreated | asleep | ended | idle | waiting => cases hpc
  | born => exact ⟨_, _, _, .mark (hcount rfl), rfl⟩
  | test => exact ⟨_, _, _, .test, rfl⟩
  | wait =>
    by_cases hv : s.hasJobs = 1
    · exact ⟨_, _, _, .take hv, rfl⟩
    · exact ⟨_, _, _, .doze hv, rfl⟩
  | recheck => exact ⟨_, _, _, .recheck, rfl⟩
  | count => exact ⟨_, _, _, .count (hcount rfl), rfl⟩
  | pull =>
    cases hlist : s.jobqueue.toList with
    | nil =>
      rw [hlist] at hq
      exact ⟨_, _, _, .pullNone (hqueue rfl) (jobqueuePull_nil hq), rfl⟩
    | cons job l =>
      rw [hlist] at hq
      obtain ⟨work, hwork⟩ := Option.isSome_iff_exists.mp (halloc job (hlist ▸ List.mem_cons_self))
      obtain ⟨q', hpull, -⟩ := jobqueuePull_cons hq
      exact ⟨_, _, _, .pull (hqueue rfl) hpull hwork, rfl⟩
  | pullPost job work => exact ⟨_, _, _, .pullPost, rfl⟩
  | run job work => exact ⟨_, _, _, .finish, rfl⟩
  | uncount => exact ⟨_, _, _, .uncount (hcount rfl), by split <;> rfl⟩
  | leave => exact ⟨_, _, _, .leave (hcount rfl), rfl⟩
  | unlock => exact ⟨_, _, _, .unlock, rfl⟩
  | add job work =>
    obtain ⟨q', hpush, -⟩ := jobqueuePush_holds hq (hfresh job work rfl)
    exact ⟨_, _, _, .push (hqueue rfl) hpush, rfl⟩
  | addPost => exact ⟨_, _, _, .addPost, rfl⟩
  | lock => exact ⟨_, _, _, .lock (hcount rfl), rfl⟩
  | len => exact ⟨_, _, _, .len, by split <;> rfl⟩
  | working =>
    by_cases hzero : s.numThreadsWorking = 0
    · exact ⟨_, _, _, .waited hzero, rfl⟩
    · exact ⟨_, _, _, .working hzero, rfl⟩
  | block => exact ⟨_, _, _, .block, rfl⟩
  | destroy => exact ⟨_, _, _, .alive, rfl⟩
  | postAll => exact ⟨_, _, _, .postAll, rfl⟩
  | clear =>
    obtain ⟨q', hclear, -⟩ := jobqueueClear_holds hq
    have hworks : s.jobqueue.toList.map s.jobs = s.queued.map some := by
      rw [Thpool.queued, List.map_filterMap_some_eq_filter_map_isSome, List.filter_eq_self.mpr]
      simpa using halloc
    exact ⟨_, _, _, .clear (hqueue rfl) hclear hworks, rfl⟩

theorem owner_moves (h : (pc.ownsCount || pc.ownsQueue) = true) :
    pc.needsCount = false ∧ pc.needsQueue = false ∧ pc.isResting = false := by
  cases pc <;> first | exact ⟨rfl, rfl, rfl⟩ | cases h

/-- Where no thread has anything to do, each one rests. -/
theorem thpool_isResting (h : ThpoolRun nThreads nCallers created prev ls t)
    (hrest : ThpoolAtRest nThreads (nThreads + nCallers) t) (i : Nat)
    (hi : i < nThreads + nCallers) : (t.pcs i).isResting = true := by
  have hcounts := thpool_counts h
  have hmoves (j : Nat) (hj : j < nThreads + nCallers)
      (hcount : (t.pcs j).needsCount = true → t.shared.thcountLock = false)
      (hqueue : (t.pcs j).needsQueue = true → t.shared.rwmutex = false) :
      (t.pcs j).isResting = true := by
    by_contra hno
    obtain ⟨e, s', pc', (hm : ThpoolMove nThreads _ _ e s' pc'), he⟩ := ThpoolMove.exists
      (thpool_memory h).1
      (thpool_allocated h) (fun job work hadd => thpool_notQueued h hj (congrArg Pc.job hadd))
      hcount hqueue (Bool.eq_false_iff.mpr hno)
    have hguard : ThpoolContract t j e := by
      cases e <;> trivial
    obtain ⟨t', hstep⟩ := System.step_of_move (P := thpool J nThreads) hj hguard hm
    exact Bool.false_ne_true (he.symm.trans (hrest _ _ hstep))
  -- whoever owns a mutex can go on, so nobody does
  have hfree (j : Nat) (hj : j < nThreads + nCallers) :
      (t.pcs j).ownsCount = false ∧ (t.pcs j).ownsQueue = false := by
    rw [← Bool.or_eq_false_iff]
    by_contra hown
    obtain ⟨hcount, hqueue, hno⟩ := owner_moves (Bool.not_eq_false _ ▸ hown)
    have hrest := hmoves j hj (fun hn => absurd hn (Bool.eq_false_iff.mp hcount))
      (fun hn => absurd hn (Bool.eq_false_iff.mp hqueue))
    rw [hno] at hrest
    cases hrest
  have hcount : t.shared.thcountLock = false := by
    have hzero := hcounts.thcountLock.trans (number_eq_zero.mpr fun j hj => (hfree j hj).1)
    exact Bool.toNat_eq_zero.mp hzero
  have hqueue : t.shared.rwmutex = false := by
    have hzero := hcounts.rwmutex.trans (number_eq_zero.mpr fun j hj => (hfree j hj).2)
    exact Bool.toNat_eq_zero.mp hzero
  exact hmoves i hi (fun _ => hcount) fun _ => hqueue

/-- The threads of a pool at rest before it is destroyed. -/
theorem thpool_rest_pcs (h : ThpoolRun nThreads nCallers created prev ls t)
    (hready : t.shared.ready = true) (hkeep : t.shared.threadsKeepalive = true)
    (hrest : ThpoolAtRest nThreads (nThreads + nCallers) t) (i : Nat)
    (hi : i < nThreads + nCallers) :
    (i < nThreads → t.pcs i = .asleep) ∧
      (nThreads ≤ i → t.pcs i = .idle ∨ t.pcs i = .waiting) := by
  have hpc := thpool_isResting h hrest i hi
  have hend := thpool_keepalive h i hkeep
  have hworker := thpool_isWorker h i
  refine ⟨fun hlt => ?_, fun hge => ?_⟩
  · have hnew := thpool_isNew h i hlt hready
    have hw := hworker.mpr hlt
    generalize t.pcs i = pc at hpc hend hw hnew
    cases pc <;> simp_all [Pc.isResting, Pc.isWorker, Pc.isNew, Pc.isEnding]
  · have hw : ¬ (t.pcs i).isWorker = true := fun hw => absurd (hworker.mp hw) (Nat.not_lt.mpr hge)
    generalize t.pcs i = pc at hpc hw
    cases pc <;> simp_all [Pc.isResting, Pc.isWorker]

/-- When the threads of a pool have nothing to do any more, every job is done, the workers sleep and
no caller waits; or the pool is destroyed and freed. -/
theorem thpool_atRest
    (h : Lts.Run ((thpool J nThreads).Step ThpoolAlone (nThreads + nCallers))
      (thpoolCreated J nThreads created prev) ls t) (hn : 0 < nThreads)
    (hready : t.shared.ready = true) (hrest : ThpoolAtRest nThreads (nThreads + nCallers) t) :
    (t.shared.threadsKeepalive = true ∧ (∀ i < nThreads, t.pcs i = .asleep) ∧
      (∀ i, nThreads ≤ i → i < nThreads + nCallers → t.pcs i = .idle) ∧
      (worksOf PoolAct.pushedWork ls : Multiset J) = worksOf PoolAct.finishedWork ls) ∨
      t.shared.freed = true := by
  have hrun := thpool_alone h
  cases hkeep : t.shared.threadsKeepalive with
  | false =>
    refine .inr ?_
    have hone := thpool_inDestroy hrun
    rw [hkeep, number_eq_zero.mpr fun i hi => ?_] at hone
    · by_contra hfreed
      rw [Bool.eq_false_iff.mpr hfreed] at hone
      cases hone
    · have hpc := thpool_isResting hrun hrest i hi
      generalize t.pcs i = pc at hpc
      cases pc <;> first | rfl | cases hpc
  | true =>
    have hpcs := thpool_rest_pcs hrun hready hkeep hrest
    have hplace (i : Nat) (hi : i < nThreads + nCallers) :
        t.pcs i = .asleep ∨ t.pcs i = .idle ∨ t.pcs i = .waiting := by
      by_cases hlt : i < nThreads
      · exact .inl ((hpcs i hi).1 hlt)
      · exact .inr ((hpcs i hi).2 (Nat.not_lt.mp hlt))
    have hsleeps := (hpcs 0 (by omega)).1 hn
    have hv : t.shared.hasJobs ≠ 1 := fun hv => by
      rcases thpool_awake hrun hv with hnone | ⟨i, hi, hwait⟩
      · have hno := hnone 0 (by omega)
        rw [hsleeps] at hno
        cases hno
      · rcases hplace i hi with hpc | hpc | hpc <;> rw [hpc] at hwait <;> cases hwait
    have hqueue : t.shared.jobqueue.toList = [] := by
      by_contra hne
      rcases thpool_served hrun hkeep hne with hv' | ⟨i, hi, hserve⟩
      · exact hv hv'
      · rcases hplace i hi with hpc | hpc | hpc <;> rw [hpc] at hserve <;> cases hserve
    have hworking : t.shared.numThreadsWorking = 0 := by
      rw [(thpool_counts hrun).working, number_eq_zero.mpr fun i hi => ?_]
      · rfl
      · rcases hplace i hi with hpc | hpc | hpc <;> rw [hpc] <;> rfl
    refine .inl ⟨rfl, fun i hi => (hpcs i (by omega)).1 hi, fun i hge hi => ?_, ?_⟩
    · refine ((hpcs i hi).2 hge).resolve_right fun hpc => ?_
      rcases thpool_parked h hi (by rw [hpc]; rfl) with hne | hne
      · exact hne hqueue
      · exact hne hworking
    · have horder := thpool_order hrun
      have honce := thpool_once hrun
      rw [total_eq_zero fun i hi => by
        rcases hplace i hi with hpc | hpc | hpc <;> rw [hpc] <;> rfl, add_zero] at honce
      rw [Thpool.queued, hqueue] at horder
      rw [horder, List.filterMap_nil, List.append_nil, worksOf_takenWork, honce,
        thpool_discardedWork hrun hkeep]
      exact add_zero _

/-- The worker sleeps and the caller has returned. -/
theorem onePool_atRest {s : Thpool Nat} (hready : s.ready = true) :
    ThpoolAtRest 1 2 ⟨s, onePcs .asleep .idle⟩ := by
  rintro e t' ⟨hi, hg, hm, -⟩
  rename_i s' f' i a e
  have hpc : onePcs .asleep .idle i = .asleep ∨ onePcs .asleep .idle i = .idle := by
    simp only [onePcs]
    split <;> simp
  rcases hpc with hpc | hpc <;> rw [hpc] at hm
  · cases hm
    rfl
  · cases hm with
    | init hno => exact absurd (hno.symm.trans hready) Bool.false_ne_true
    | addWork | waitWork | destroy => rfl

theorem thpool_atRest_waited : ∃ ls s, OnePoolRun ls s .asleep .idle ∧
    ThpoolAtRest 1 2 ⟨s, onePcs .asleep .idle⟩ ∧ (s.threadsKeepalive = true ∧
      (worksOf PoolAct.pushedWork ls : Multiset Nat) = worksOf PoolAct.finishedWork ls ∨
      s.freed = true) := by
  obtain ⟨s, h, hready, -⟩ := onePool_waited
  have hrest := onePool_atRest hready
  exact ⟨_, s, h, hrest, (thpool_atRest h.alone (by decide) hready hrest).imp_left
    fun hdone => ⟨hdone.1, hdone.2.2.2⟩⟩

/-! ### Coming to rest -/

theorem ThpoolMove.movesLeft (hm : ThpoolMove nThreads s pc e s' pc')
    (hq : s.jobqueue.Holds s.jobqueue.toList)
    (hfresh : ∀ job work, pc = .add job work → job ∉ s.jobqueue.toList) (n : Nat) :
    s'.movesLeft + pc'.movesLeft + (e.wake).number n * e.movesWoken + 1 ≤
      s.movesLeft + pc.movesLeft + e.makesFor n := by
  have htoken : (if s.hasJobs = 1 then 11 else 0) ≤ 11 := by split <;> omega
  cases hm with
  | test =>
    split <;> simp
  | recheck =>
    split <;> simp
  | take hv =>
    simp [hv]
    omega
  | pullNone hlock hpull =>
    obtain ⟨hlist, rfl⟩ := jobqueuePull_none hq hpull
    simp
  | pull hlock hpull hjob =>
    obtain ⟨l, hlist, hq', rfl⟩ := jobqueuePull_some hq hpull
    split <;>
    · simp [hlist, hq'.toList_eq]
      try omega
  | uncount =>
    split <;> simp
  | len =>
    split <;> simp
  | alive =>
    split <;> simp
  | push _ hpush =>
    have hq' := jobqueuePush_some hq (hfresh _ _ rfl) hpush
    simp [hq'.toList_eq]
    omega
  | init hready =>
    simp [hready]
  | clear _ hclear =>
    obtain ⟨rfl, hq'⟩ := jobqueueClear_some hq hclear
    simp [hq'.toList_eq]
  | _ =>
    simp
    try omega

/-- The threads come to rest.  A run is no longer than the workers and the calls make for: the pool
does not poll, but for `thpool_destroy` and the loop of `thpool_init`, and wakes nobody twice for the
same job.  The rounds of the former are charged; those of the latter, which change nothing, are not
moves. -/
theorem thpool_length_le (h : ThpoolRun nThreads nCallers created prev ls t) :
    ls.length ≤ 4 * nThreads + 1 +
      (ls.map fun e => e.2.makesFor (nThreads + nCallers)).sum := by
  have hmeasure := System.run_measure (w := Pc.movesLeft) (m := Thpool.movesLeft)
    (c := PoolAct.makesFor (nThreads + nCallers)) (k := PoolAct.movesWoken) h ?_ ?_
  · have hshared : (thpoolCreated J nThreads created prev).shared.movesLeft = 1 := by
      rw [Thpool.movesLeft, show (thpoolCreated J nThreads created prev).shared.jobqueue.toList = []
        from (jobqueueInit_holds prev).toList_eq]
      rfl
    have hworkers : total Pc.movesLeft (thpoolCreated J nThreads created prev).pcs
        (nThreads + nCallers) ≤ 4 * number Pc.isWorker (thpoolCreated J nThreads created prev).pcs
          (nThreads + nCallers) := by
      refine total_le_mul fun i _ => ?_
      rcases thpoolCreated_pcs created prev i with hpc | hpc | hpc <;>
        rw [hpc] <;> simp [Pc.isWorker]
    have hnumber : number Pc.isWorker (thpoolCreated J nThreads created prev).pcs
        (nThreads + nCallers) ≤ nThreads :=
      number_le_of_lt fun i _ hi => (@thpool_isWorker J nThreads nCallers _ _ _ _ .nil i).mp hi
    omega
  · exact fun ls s f i e s' a hrun hi hm => hm.movesLeft (thpool_memory hrun).1
      (fun job work hadd => thpool_notQueued hrun hi (congrArg Pc.job hadd)) _
  · intro e b b' hmv
    cases e <;> simp only [thpool, PoolAct.wake, Wake.Moves] at hmv <;> obtain ⟨hb, rfl⟩ := hmv <;>
      cases b <;> simp_all [Pc.isAsleep, Pc.isWaiting]

theorem thpool_length_le_waited : ∃ ls s,
    ThpoolRun 1 1 (fun _ => true) (fun _ => none) ls ⟨s, onePcs .asleep .idle⟩ ∧
      ls.length ≤ 4 * 1 + 1 + (ls.map fun e => e.2.makesFor 2).sum := by
  obtain ⟨s, h, -⟩ := onePool_waited
  exact ⟨_, s, h.run, thpool_length_le h.run⟩

/-! ### The returns of `thpool_init` and `thpool_wait` -/

/-- The threads that were not created. -/
theorem thpool_uncreated (h : ThpoolRun nThreads nCallers created prev ls t) (i : Nat) :
    t.pcs i = .uncreated ↔ i < nThreads ∧ created i = false := by
  refine System.run_pcs (Q := fun _ i pc => pc = .uncreated ↔ i < nThreads ∧ created i = false) h
    ?_ ?_ ?_ i
  · intro i
    by_cases hi : i < nThreads
    · cases hcreated : created i <;> simp [thpoolCreated, hi, hcreated]
    · simp [thpoolCreated, hi]
  · intro ls s f i e s' a _ _ _ hQ hm
    refine ⟨?_, fun j _ => hQ j⟩
    have hpc : f i ≠ .uncreated := fun hpc => by
      generalize f i = pc at hm hpc
      subst hpc
      cases hm
    have ha : a ≠ .uncreated := fun ha => by
      have hnew := hm.isNew_eq
      rw [ha] at hnew
      cases hnew
    rw [← hQ i]
    exact iff_of_false ha hpc
  · intro s e j b b' hmv hQ
    rcases wake_moves hmv with ⟨rfl, rfl⟩ | ⟨rfl, rfl⟩ <;> simpa using hQ

theorem ThpoolMove.call_ready (hm : ThpoolMove nThreads s pc e s' pc')
    (he : e = .call ∨ e = .callWait) : s.ready = true := by
  cases hm with
  | addWork _ hready => exact hready
  | waitWork hready => exact hready
  | uncount => split at he <;> simp at he
  | len => split at he <;> simp at he
  | _ => simp at he

/-- No function of the pool is called before `thpool_init` has returned. -/
theorem thpool_notReady (h : ThpoolRun nThreads nCallers created prev ls t) (i : Nat)
    (hready : t.shared.ready = false) : (t.pcs i).inCall = false := by
  refine System.run_pcs (Q := fun s _ pc => s.ready = false → pc.inCall = false) h ?_ ?_ ?_ i hready
  · exact fun i _ => thpoolCreated_free rfl rfl rfl i
  · intro ls s f i e s' a _ _ _ hQ hm
    have hback (hready : s'.ready = false) : s.ready = false := by
      rcases hm.ready_eq with he | ⟨he, -⟩
      · exact he ▸ hready
      · rw [he] at hready
        cases hready
    have hcall (hready : s'.ready = false) : ¬ (e = .call ∨ e = .callWait) := fun he => by
      have hno := hback hready
      rw [hm.call_ready he] at hno
      cases hno
    exact ⟨fun hready => hm.inCall_eq (fun he => hcall hready (.inl he))
      (fun he => hcall hready (.inr he)) fun _ => hQ i (hback hready),
      fun j _ hready => hQ j (hback hready)⟩
  · intro s e j b b' hmv hQ
    rcases wake_moves hmv with ⟨rfl, rfl⟩ | ⟨rfl, rfl⟩ <;> exact hQ

/-- The loop of `thpool_init` ends if and only if every thread was created: not before all workers
are in their loops, and always once nothing else is left to do. -/
theorem thpool_initLoop (h : ThpoolRun nThreads nCallers created prev ls t) :
    (t.shared.ready = true → (∀ i < nThreads, created i = true) ∧
      ∀ i < nThreads, (t.pcs i).isNew = false) ∧
      ((∀ i < nThreads, created i = true) → 0 < nCallers →
        ThpoolAtRest nThreads (nThreads + nCallers) t → t.shared.ready = true) := by
  refine ⟨fun hready => ⟨fun i hi => ?_, fun i hi => thpool_isNew h i hi hready⟩,
    fun hcreated hcallers hrest => ?_⟩
  · by_contra hno
    have hpc := (thpool_uncreated h i).mpr ⟨hi, Bool.eq_false_iff.mpr hno⟩
    have hnew := thpool_isNew h i hi hready
    rw [hpc] at hnew
    cases hnew
  · by_contra hready
    rw [Bool.not_eq_true] at hready
    have hkeep : t.shared.threadsKeepalive = true := by
      by_contra hend
      have := thpool_ready h (Bool.eq_false_iff.mpr hend)
      rw [hready] at this
      cases this
    -- every worker sleeps, so all are alive, and the loop of the first caller ends
    have hasleep (i : Nat) (hi : i < nThreads) : t.pcs i = .asleep := by
      have hpc := thpool_isResting h hrest i (by omega)
      have hw := (thpool_isWorker h i).mpr hi
      have hend := thpool_keepalive h i hkeep
      have hborn : t.pcs i ≠ .uncreated := fun hpc => by
        have hno := ((thpool_uncreated h i).mp hpc).2
        rw [hcreated i hi] at hno
        cases hno
      generalize t.pcs i = pc at hpc hw hend hborn
      cases pc <;> simp_all [Pc.isResting, Pc.isWorker, Pc.isEnding]
    have halive : t.shared.numThreadsAlive = nThreads := by
      rw [(thpool_counts h).alive, number_eq_of_iff (m := nThreads) (fun i hi => ?_) (by omega)]
      refine ⟨fun hlive => (thpool_isWorker h i).mp (isWorker_of_isLive hlive), fun hi => ?_⟩
      rw [hasleep i hi]
      rfl
    have hidle : t.pcs nThreads = .idle := by
      have hpc := thpool_isResting h hrest nThreads (by omega)
      have hcall := thpool_notReady h nThreads hready
      have hw : ¬ (t.pcs nThreads).isWorker = true := fun hw =>
        absurd ((thpool_isWorker h nThreads).mp hw) (Nat.lt_irrefl _)
      generalize t.pcs nThreads = pc at hpc hcall hw
      cases pc <;> simp_all [Pc.isResting, Pc.isWorker, Pc.inCall]
    have hm : (thpool J nThreads).move t.shared (t.pcs nThreads) .step
        { t.shared with ready := true } .idle := by
      rw [hidle]
      exact .init hready halive
    have hguard : ThpoolContract t nThreads .step := trivial
    obtain ⟨t', hstep⟩ := System.step_of_move (n := nThreads + nCallers) (by omega) hguard hm
    cases hrest _ _ hstep

theorem thpoolInit_eq_none {allocs : ThpoolAllocs} :
    thpoolInit J nThreads allocs created prev = none ↔
      ¬ (allocs.pool = true ∧ allocs.hasJobs = true ∧ allocs.threads = true) := by
  cases allocs with
  | mk pool hasJobs threads => cases pool <;> cases hasJobs <;> cases threads <;> simp [thpoolInit]

theorem thpoolInit_some {allocs : ThpoolAllocs} {t : State (Thpool J) (Pc J)}
    (h : thpoolInit J nThreads allocs created prev = some t) :
    t = thpoolCreated J nThreads created prev := by
  simp only [thpoolInit, Option.ite_none_left_eq_some] at h
  exact (Option.some.inj h.2.2.2).symm

/-- `thpool_init` returns `NULL` if and only if one of its allocations fails.  Otherwise it returns
the pool if and only if every thread was created: not before all workers are in their loops, and
always once nothing else is left to do. -/
theorem thpool_init_returns (allocs : ThpoolAllocs) (created : Nat → Bool)
    (prev : Nat → Option Nat) :
    (thpoolInit J nThreads allocs created prev = none ↔
      ¬ (allocs.pool = true ∧ allocs.hasJobs = true ∧ allocs.threads = true)) ∧
      ∀ t0 ls t, thpoolInit J nThreads allocs created prev = some t0 →
        Lts.Run ((thpool J nThreads).Step ThpoolContract (nThreads + nCallers)) t0 ls t →
        (t.shared.ready = true → (∀ i < nThreads, created i = true) ∧
          ∀ i < nThreads, (t.pcs i).isNew = false) ∧
          ((∀ i < nThreads, created i = true) → 0 < nCallers →
            ThpoolAtRest nThreads (nThreads + nCallers) t → t.shared.ready = true) := by
  refine ⟨thpoolInit_eq_none, fun t0 ls t hinit h => ?_⟩
  obtain rfl := thpoolInit_some hinit
  exact thpool_initLoop h

/-- The one worker is created, so that `thpool_init` returns the pool. -/
theorem thpool_init_returns_waited : ∃ t0 ls s,
    thpoolInit Nat 1 ⟨true, true, true⟩ (fun _ => true) (fun _ => none) = some t0 ∧
      Lts.Run ((thpool Nat 1).Step ThpoolContract (1 + 1)) t0 ls ⟨s, onePcs .asleep .idle⟩ ∧
      s.ready = true ∧ ∀ i < 1, (onePcs .asleep .idle i).isNew = false := by
  obtain ⟨s, h, hready, -⟩ := onePool_waited
  have hloop := (@thpool_init_returns Nat 1 1 ⟨true, true, true⟩ (fun _ => true) fun _ => none).2 _ _ _
    rfl h.run
  have hready' : s.ready = true :=
    hloop.2 (fun _ _ => rfl) (by decide) (onePool_atRest hready)
  exact ⟨_, _, s, rfl, h.run, hready', (hloop.1 hready').2⟩

/-- What `thpool_wait` has seen when it has found the queue empty. -/
theorem ThpoolMove.working_inv (hm : ThpoolMove nThreads s pc e s' pc') (hpc' : pc' = .working) :
    pc = .len ∧ s.jobqueue.len = 0 := by
  cases hm with
  | test => split at hpc' <;> cases hpc'
  | recheck => split at hpc' <;> cases hpc'
  | pull => split at hpc' <;> cases hpc'
  | alive => split at hpc' <;> cases hpc'
  | len =>
    by_cases hlen : s.jobqueue.len = 0
    · exact ⟨rfl, hlen⟩
    · rw [if_neg hlen] at hpc'
      cases hpc'
  | _ => cases hpc'

theorem ThpoolMove.waited_inv (hm : ThpoolMove nThreads s pc .waited s' pc') :
    pc = .working ∧ s.numThreadsWorking = 0 := by
  generalize he : PoolAct.waited = e at hm
  cases hm with
  | uncount => split at he <;> cases he
  | len => split at he <;> cases he
  | waited hzero => exact ⟨rfl, hzero⟩
  | _ => cases he

theorem ThpoolMove.callWait_inv (hm : ThpoolMove nThreads s pc .callWait s' pc') : pc' = .lock := by
  generalize he : PoolAct.callWait = e at hm
  cases hm with
  | uncount => split at he <;> cases he
  | len => split at he <;> cases he
  | waitWork => rfl
  | _ => cases he

theorem running_eq_zero (h : pc.isBusy = false) : (pc.running : Multiset J) = 0 := by
  cases pc <;> first | rfl | cases h

theorem worksOf_append (f : PoolAct J → List J) (ls ls' : List (Nat × PoolAct J)) :
    worksOf f (ls ++ ls') = worksOf f ls ++ worksOf f ls' :=
  List.flatMap_append

theorem worksOf_le_append (f : PoolAct J → List J) (ls ls' : List (Nat × PoolAct J)) :
    (worksOf f ls : Multiset J) ≤ worksOf f (ls ++ ls') := by
  rw [worksOf_append, ← Multiset.coe_add]
  exact Multiset.le_add_right _ _

/-- Where the queue is empty and the pool goes on, what was pushed is pulled. -/
theorem thpool_pushed_eq_pulled (h : ThpoolRun nThreads nCallers created prev ls t)
    (hkeep : t.shared.threadsKeepalive = true) (hqueue : t.shared.jobqueue.toList = []) :
    (worksOf PoolAct.pushedWork ls : Multiset J) = worksOf PoolAct.pulledWork ls := by
  have horder := thpool_order h
  rw [Thpool.queued, hqueue] at horder
  rw [horder, List.filterMap_nil, List.append_nil, worksOf_takenWork,
    thpool_discardedWork h hkeep]
  exact add_zero _

/-- From the moment that `thpool_wait` finds the queue empty, what was pushed before the call is
pulled. -/
theorem thpool_wait_pulled {t1 : State (Thpool J) (Pc J)} {ls' : List (Nat × PoolAct J)} {i : Nat}
    (h : ThpoolRun nThreads nCallers created prev ls t) (hpc : t.pcs i ≠ .working)
    (h' : Lts.Run ((thpool J nThreads).Step ThpoolContract (nThreads + nCallers)) t ls' t1)
    (hworking : t1.pcs i = .working) :
    (worksOf PoolAct.pushedWork ls : Multiset J) ≤ worksOf PoolAct.pulledWork (ls ++ ls') := by
  refine h'.invariant (I := fun ls' t1 => t1.pcs i = .working →
    (worksOf PoolAct.pushedWork ls : Multiset J) ≤ worksOf PoolAct.pulledWork (ls ++ ls')) ?_ ?_
    hworking
  · exact fun hpc' => absurd hpc' hpc
  · rintro k t2 l t3 hk hI ⟨hj, hg, hm, hw⟩ hpc'
    rename_i s s' f f' j a e
    have hrun : ThpoolRun nThreads nCallers created prev (ls ++ k) ⟨s, f⟩ := h.append hk
    have hgrow := worksOf_le_append PoolAct.pulledWork (ls ++ k) [(j, e)]
    rw [← List.append_assoc]
    refine le_trans ?_ hgrow
    dsimp only at hI hpc'
    have hupd : Function.update f j a i = .working := by
      rcases hw.moves i with he | hmv
      · exact he.symm.trans hpc'
      · rcases wake_moves hmv with ⟨-, hb⟩ | ⟨-, hb⟩ <;> rw [hb] at hpc' <;> cases hpc'
    by_cases hij : i = j
    · subst hij
      rw [Function.update_self] at hupd
      obtain ⟨hlen, hzero⟩ := hm.working_inv hupd
      have hqueue : s.jobqueue.toList = [] := (thpool_memory hrun).1.len_eq_zero.mp hzero
      have hkeep : s.threadsKeepalive = true := by
        by_contra hend
        have hcall : (f i).inCall = false := thpool_ending hrun i (Bool.eq_false_iff.mpr hend)
        rw [hlen] at hcall
        cases hcall
      rw [← thpool_pushed_eq_pulled hrun hkeep hqueue]
      exact worksOf_le_append ..
    · rw [Function.update_of_ne hij] at hupd
      exact hI hupd

/-- A call of `thpool_wait` returns only when every job that was pushed before it is done. -/
theorem thpool_wait_returns {ls' : List (Nat × PoolAct J)} {i : Nat}
    (h : ThpoolRun nThreads nCallers created prev (ls ++ (i, .callWait) :: ls' ++ [(i, .waited)]) t) :
    (worksOf PoolAct.pushedWork ls : Multiset J) ≤
      worksOf PoolAct.finishedWork (ls ++ (i, .callWait) :: ls' ++ [(i, .waited)]) := by
  obtain ⟨t2, h2, hlast⟩ := Lts.Run.snoc_inv h
  have honce := thpool_once h2
  have hcounts := thpool_counts h2
  rw [List.append_cons] at h2
  obtain ⟨t1, h1, h12⟩ := h2.split
  have hpc1 : t1.pcs i = .lock := by
    obtain ⟨t0, -, hcall⟩ := Lts.Run.snoc_inv h1
    obtain ⟨-, -, hm, hw⟩ := hcall
    cases hw
    exact (Function.update_self ..).trans hm.callWait_inv
  obtain ⟨hworking, hzero⟩ : t2.pcs i = .working ∧ t2.shared.numThreadsWorking = 0 := by
    obtain ⟨-, -, hm, -⟩ := hlast
    exact hm.waited_inv
  have hpulled := thpool_wait_pulled h1 (by rw [hpc1]; nofun) h12 hworking
  have hnone := number_eq_zero.mp (Int.ofNat_inj.mp (hcounts.working.symm.trans hzero))
  have hrunning : total (fun pc : Pc J => (pc.running : Multiset J)) t2.pcs (nThreads + nCallers) =
      0 := total_eq_zero fun j hj => running_eq_zero (hnone j hj)
  rw [hrunning, add_zero] at honce
  calc (worksOf PoolAct.pushedWork ls : Multiset J)
      ≤ worksOf PoolAct.pushedWork (ls ++ [(i, .callWait)]) := worksOf_le_append ..
    _ ≤ worksOf PoolAct.pulledWork (ls ++ [(i, .callWait)] ++ ls') := hpulled
    _ = worksOf PoolAct.finishedWork (ls ++ (i, .callWait) :: ls') := by
      rw [← List.append_cons, honce]
    _ ≤ worksOf PoolAct.finishedWork (ls ++ (i, .callWait) :: ls' ++ [(i, .waited)]) :=
      worksOf_le_append ..

theorem thpool_wait_returns_waited : ∃ ls s,
    ThpoolRun 1 1 (fun _ => true) (fun _ => none) ls ⟨s, onePcs .asleep .idle⟩ ∧
      (([7] : List Nat) : Multiset Nat) ≤ worksOf PoolAct.finishedWork ls := by
  obtain ⟨s, h, -⟩ := onePool_waited
  exact ⟨_, s, h.run, thpool_wait_returns h.run⟩

end Rest

end Silksocks
