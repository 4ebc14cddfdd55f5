import Silksocks.ThpoolJobs

/-! The mutexes and the counters of the thread pool.  Each mutex has one owner, `num_threads_alive`
and `num_threads_working` count the workers that they name, and when `thpool_destroy` frees the pool,
no worker runs any more. -/

namespace Silksocks

open Threads

section Defs

variable {J : Type}

namespace Pc

/-- A worker between the two updates of `num_threads_alive`. -/
def isLive : Pc J → Bool
  | test | wait | asleep | recheck | count | pull | pullPost _ _ | run _ _ | uncount | leave => true
  | _ => false

/-- A worker between the two updates of `num_threads_working`. -/
def isBusy : Pc J → Bool
  | pull | pullPost _ _ | run _ _ | uncount => true
  | _ => false

/-- A thread that has locked `thcount_lock`. -/
def ownsCount : Pc J → Bool
  | unlock | len | working | block => true
  | _ => false

/-- A thread that has locked `rwmutex`. -/
def ownsQueue : Pc J → Bool
  | pullPost _ _ | addPost => true
  | _ => false

/-- A thread in `thpool_destroy`. -/
def inDestroy : Pc J → Bool
  | destroy | postAll | clear => true
  | _ => false

/-- A thread that has come to the end of the pool: a worker behind its loop, or `thpool_destroy`. -/
def isEnding : Pc J → Bool
  | leave | unlock | ended | destroy | postAll | clear => true
  | _ => false

/-- A thread in `thpool_add_work` or `thpool_wait`. -/
def inCall : Pc J → Bool
  | add _ _ | addPost | lock | len | working | block | waiting => true
  | _ => false

/-- A worker that has not come to its loop yet. -/
def isNew : Pc J → Bool
  | uncreated | born => true
  | _ => false

end Pc

/-- The counters and the mutexes of the pool tell where its `n` threads are. -/
structure PoolCounts (t : State (Thpool J) (Pc J)) (n : Nat) : Prop where
  alive : t.shared.numThreadsAlive = number Pc.isLive t.pcs n
  working : t.shared.numThreadsWorking = number Pc.isBusy t.pcs n
  thcountLock : t.shared.thcountLock.toNat = number Pc.ownsCount t.pcs n
  rwmutex : t.shared.rwmutex.toNat = number Pc.ownsQueue t.pcs n

end Defs

section Locks

variable {J : Type} {nThreads nCallers : Nat} {created : Nat → Bool} {prev : Nat → Option Nat}
  {ls : List (Nat × PoolAct J)} {t : State (Thpool J) (Pc J)} {s s' : Thpool J} {pc pc' : Pc J}
  {e : PoolAct J}

/-! ### Mutexes and counters -/

theorem ThpoolMove.alive_eq (hm : ThpoolMove nThreads s pc e s' pc') :
    s'.numThreadsAlive + pc.isLive.toNat = s.numThreadsAlive + pc'.isLive.toNat := by
  cases hm with
  | test => split <;> rfl
  | recheck => split <;> rfl
  | pull => split <;> rfl
  | len => split <;> rfl
  | alive => split <;> rfl
  | _ => simp [Pc.isLive]

theorem ThpoolMove.working_eq (hm : ThpoolMove nThreads s pc e s' pc') :
    s'.numThreadsWorking + pc.isBusy.toNat = s.numThreadsWorking + pc'.isBusy.toNat := by
  cases hm with
  | test => split <;> rfl
  | recheck => split <;> rfl
  | pull => split <;> rfl
  | len => split <;> rfl
  | alive => split <;> rfl
  | _ => simp [Pc.isBusy]

theorem ThpoolMove.thcountLock_eq (hm : ThpoolMove nThreads s pc e s' pc')
    (hown : pc.ownsCount = true → s.thcountLock = true) :
    s'.thcountLock.toNat + pc.ownsCount.toNat = s.thcountLock.toNat + pc'.ownsCount.toNat := by
  cases hm with
  | test => split <;> rfl
  | recheck => split <;> rfl
  | pull => split <;> rfl
  | len => split <;> rfl
  | alive => split <;> rfl
  | lock hlock => simp [Pc.ownsCount, hlock]
  | leave hlock => simp [Pc.ownsCount, hlock]
  | unlock => simp [Pc.ownsCount, hown rfl]
  | waited => simp [Pc.ownsCount, hown rfl]
  | block => simp [Pc.ownsCount, hown rfl]
  | _ => rfl

theorem ThpoolMove.rwmutex_eq (hm : ThpoolMove nThreads s pc e s' pc')
    (hown : pc.ownsQueue = true → s.rwmutex = true) :
    s'.rwmutex.toNat + pc.ownsQueue.toNat = s.rwmutex.toNat + pc'.ownsQueue.toNat := by
  cases hm with
  | test => split <;> rfl
  | recheck => split <;> rfl
  | pull hlock => split <;> simp_all [Pc.ownsQueue]
  | len => split <;> rfl
  | alive => split <;> rfl
  | push hlock => simp [Pc.ownsQueue, hlock]
  | pullPost => simp [Pc.ownsQueue, hown rfl]
  | addPost => simp [Pc.ownsQueue, hown rfl]
  | _ => rfl

/-- What holds of no thread in the beginning. -/
theorem thpoolCreated_free {p : Pc J → Bool} (hborn : p .born = false)
    (huncreated : p .uncreated = false) (hidle : p .idle = false) (i : Nat) :
    p ((thpoolCreated J nThreads created prev).pcs i) = false := by
  rcases thpoolCreated_pcs created prev i with hpc | hpc | hpc <;>
    rw [hpc] <;> assumption

theorem thpool_counts (h : ThpoolRun nThreads nCallers created prev ls t) :
    PoolCounts t (nThreads + nCallers) := by
  have hwake (p : Pc J → Bool) (hasleep : p .asleep = p .wait) (hwaiting : p .waiting = p .lock)
      (e : PoolAct J) (b b' : Pc J) (hmv : ((thpool J nThreads).wake e).Moves b b') :
      p b' = p b := by
    rcases wake_moves hmv with ⟨rfl, rfl⟩ | ⟨rfl, rfl⟩
    · exact hasleep.symm
    · exact hwaiting.symm
  exact
    { alive := System.run_counter h rfl (fun i _ => thpoolCreated_free rfl rfl rfl i)
        (fun _ _ _ _ _ hm => hm.alive_eq) (hwake _ rfl rfl)
      working := System.run_counter h rfl (fun i _ => thpoolCreated_free rfl rfl rfl i)
        (fun _ _ _ _ _ hm => hm.working_eq) (hwake _ rfl rfl)
      thcountLock := System.run_mutex h rfl (fun i _ => thpoolCreated_free rfl rfl rfl i)
        (fun _ _ _ _ _ hm hown => hm.thcountLock_eq hown) (hwake _ rfl rfl)
      rwmutex := System.run_mutex h rfl (fun i _ => thpoolCreated_free rfl rfl rfl i)
        (fun _ _ _ _ _ hm hown => hm.rwmutex_eq hown) (hwake _ rfl rfl) }

/-! ### Workers and callers -/

theorem ThpoolMove.isWorker_eq (hm : ThpoolMove nThreads s pc e s' pc') :
    pc'.isWorker = pc.isWorker := by
  cases hm with
  | test => split <;> rfl
  | recheck => split <;> rfl
  | pull => split <;> rfl
  | len => split <;> rfl
  | alive => split <;> rfl
  | _ => rfl

/-- The first threads are the workers. -/
theorem thpool_isWorker (h : ThpoolRun nThreads nCallers created prev ls t) (i : Nat) :
    (t.pcs i).isWorker = true ↔ i < nThreads := by
  refine System.run_pcs (Q := fun _ i pc => pc.isWorker = true ↔ i < nThreads) h ?_ ?_ ?_ i
  · intro i
    by_cases hi : i < nThreads
    · cases hcreated : created i <;> simp [thpoolCreated, hi, hcreated, Pc.isWorker]
    · simp [thpoolCreated, hi, Pc.isWorker]
  · intro ls s f i e s' a _ _ _ hQ hm
    refine ⟨?_, fun j _ => hQ j⟩
    rw [hm.isWorker_eq]
    exact hQ i
  · intro s e j b b' hmv hQ
    rcases wake_moves hmv with ⟨rfl, rfl⟩ | ⟨rfl, rfl⟩ <;> exact hQ

theorem isWorker_of_isLive (h : pc.isLive = true) : pc.isWorker = true := by
  cases pc <;> first | rfl | cases h

theorem isWorker_of_isNew (h : pc.isNew = true) : pc.isWorker = true := by
  cases pc <;> first | rfl | cases h

theorem isNew_of_isLive (h : pc.isLive = true) : pc.isNew = false := by
  cases pc <;> first | rfl | cases h

theorem isLive_of_isBusy (h : pc.isBusy = true) : pc.isLive = true := by
  cases pc <;> first | rfl | cases h

theorem card_running_le (pc : Pc J) : (pc.running : Multiset J).card ≤ pc.isBusy.toNat := by
  cases pc <;> simp [Pc.running, Pc.isBusy]

/-- No more jobs run than threads work. -/
theorem thpool_card_running (h : ThpoolRun nThreads nCallers created prev ls t) :
    (total (fun pc => (pc.running : Multiset J)) t.pcs (nThreads + nCallers)).card ≤
      t.shared.numThreadsWorking := by
  have hcard := map_total Multiset.cardHom (fun pc : Pc J => (pc.running : Multiset J)) t.pcs
    (nThreads + nCallers)
  have hle := total_le_total (f := t.pcs) (n := nThreads + nCallers) (card_running_le (J := J))
  rw [(thpool_counts h).working]
  exact Int.ofNat_le.mpr ((hcard : Multiset.card _ = _).trans_le hle)

theorem thpool_working_le (h : ThpoolRun nThreads nCallers created prev ls t) :
    t.shared.numThreadsWorking ≤ t.shared.numThreadsAlive := by
  rw [(thpool_counts h).working, (thpool_counts h).alive]
  refine Int.ofNat_le.mpr (total_le_total fun pc => ?_)
  cases hbusy : pc.isBusy with
  | false => exact Nat.zero_le _
  | true => rw [isLive_of_isBusy hbusy]

theorem thpool_alive_le (h : ThpoolRun nThreads nCallers created prev ls t) :
    t.shared.numThreadsAlive ≤ nThreads := by
  rw [(thpool_counts h).alive]
  exact Int.ofNat_le.mpr (number_le_of_lt fun i _ hi =>
    (thpool_isWorker h i).mp (isWorker_of_isLive hi))

/-- Each mutex has at most one owner, and no more jobs run than threads work, no more threads work
than are alive, and no more are alive than were asked for. -/
theorem thpool_exclusion (h : ThpoolRun nThreads nCallers created prev ls t) :
    PoolCounts t (nThreads + nCallers) ∧
      (∀ i < nThreads + nCallers, ∀ j < nThreads + nCallers, (t.pcs i).ownsCount = true →
        (t.pcs j).ownsCount = true → i = j) ∧
      (∀ i < nThreads + nCallers, ∀ j < nThreads + nCallers, (t.pcs i).ownsQueue = true →
        (t.pcs j).ownsQueue = true → i = j) ∧
      (total (fun pc => (pc.running : Multiset J)) t.pcs (nThreads + nCallers)).card ≤
        t.shared.numThreadsWorking ∧
      t.shared.numThreadsWorking ≤ t.shared.numThreadsAlive ∧
      t.shared.numThreadsAlive ≤ nThreads := by
  have hc := thpool_counts h
  refine ⟨hc, fun i hi j hj => ?_, fun i hi j hj => ?_, thpool_card_running h,
    thpool_working_le h, thpool_alive_le h⟩
  · exact number_unique (p := Pc.ownsCount) (hc.thcountLock ▸ Bool.toNat_le _) hi hj
  · exact number_unique (p := Pc.ownsQueue) (hc.rwmutex ▸ Bool.toNat_le _) hi hj

theorem thpool_exclusion_waited : ∃ ls s,
    ThpoolRun 1 1 (fun _ => true) (fun _ => none) ls ⟨s, onePcs .asleep .idle⟩ ∧
      s.numThreadsWorking ≤ s.numThreadsAlive ∧ s.numThreadsAlive ≤ 1 := by
  obtain ⟨s, h, -⟩ := onePool_waited
  exact ⟨_, s, h.run, (thpool_exclusion h.run).2.2.2.2⟩

/-! ### The end of the pool -/

theorem ThpoolMove.keepalive_eq (hm : ThpoolMove nThreads s pc e s' pc') :
    s'.threadsKeepalive = s.threadsKeepalive ∨
      e = .callDestroy ∧ s'.threadsKeepalive = false ∧ s.ready = true := by
  cases hm with
  | destroy hready => exact .inr ⟨rfl, rfl, hready⟩
  | _ => exact .inl rfl

theorem ThpoolMove.ready_eq (hm : ThpoolMove nThreads s pc e s' pc') :
    s'.ready = s.ready ∨ s'.ready = true ∧ s.numThreadsAlive = nThreads := by
  cases hm with
  | init _ halive => exact .inr ⟨rfl, halive⟩
  | _ => exact .inl rfl

theorem ThpoolMove.freed_eq (hm : ThpoolMove nThreads s pc e s' pc') :
    s'.freed = s.freed ∨ pc = .clear := by
  cases hm with
  | clear => exact .inr rfl
  | _ => exact .inl rfl

theorem ThpoolMove.numThreadsAlive_eq (hm : ThpoolMove nThreads s pc e s' pc') :
    s'.numThreadsAlive = s.numThreadsAlive ∨ pc.isNew = true ∨ pc.isLive = true := by
  cases hm with
  | mark => exact .inr (.inl rfl)
  | leave => exact .inr (.inr rfl)
  | _ => exact .inl rfl

/-- The pool is ready before it is destroyed. -/
theorem thpool_ready (h : ThpoolRun nThreads nCallers created prev ls t)
    (hkeep : t.shared.threadsKeepalive = false) : t.shared.ready = true := by
  refine System.run_shared (I := fun _ s => s.threadsKeepalive = false → s.ready = true) h ?_ ?_
    hkeep
  · rintro ⟨⟩
  · intro ls s f i e s' a _ _ _ hI hm hkeep
    have hready : s.ready = true := by
      rcases hm.keepalive_eq with he | ⟨-, -, hready⟩
      · exact hI (he ▸ hkeep)
      · exact hready
    rcases hm.ready_eq with he | ⟨he, -⟩
    · exact he.trans hready
    · exact he

theorem ThpoolMove.isEnding_eq (hm : ThpoolMove nThreads s pc e s' pc')
    (hkeep : s'.threadsKeepalive = true) (hpc : pc.isEnding = false) : pc'.isEnding = false := by
  cases hm with
  | test => rw [if_pos hkeep]; rfl
  | recheck => rw [if_pos hkeep]; rfl
  | pull => split <;> rfl
  | len => split <;> rfl
  | leave | unlock | alive | postAll | clear => cases hpc
  | destroy => cases hkeep
  | _ => rfl

/-- Before the pool is destroyed, no worker leaves and nobody destroys. -/
theorem thpool_keepalive (h : ThpoolRun nThreads nCallers created prev ls t) (i : Nat)
    (hkeep : t.shared.threadsKeepalive = true) : (t.pcs i).isEnding = false := by
  refine System.run_pcs (Q := fun s _ pc => s.threadsKeepalive = true → pc.isEnding = false) h
    ?_ ?_ ?_ i hkeep
  · exact fun i _ => thpoolCreated_free rfl rfl rfl i
  · intro ls s f i e s' a _ _ _ hQ hm
    have hback (hkeep : s'.threadsKeepalive = true) : s.threadsKeepalive = true := by
      rcases hm.keepalive_eq with he | ⟨-, hend, -⟩
      · exact he ▸ hkeep
      · rw [hend] at hkeep
        cases hkeep
    exact ⟨fun hkeep => hm.isEnding_eq hkeep (hQ i (hback hkeep)),
      fun j _ hkeep => hQ j (hback hkeep)⟩
  · intro s e j b b' hmv hQ
    rcases wake_moves hmv with ⟨rfl, rfl⟩ | ⟨rfl, rfl⟩ <;> exact hQ

theorem ThpoolMove.discardedWork_eq (hm : ThpoolMove nThreads s pc e s' pc') (hpc : pc ≠ .clear) :
    e.discardedWork = [] := by
  cases hm with
  | uncount => split <;> rfl
  | len => split <;> rfl
  | clear => exact absurd rfl hpc
  | _ => rfl

/-- Before the pool is destroyed, no job is given up. -/
theorem thpool_discardedWork (h : ThpoolRun nThreads nCallers created prev ls t)
    (hkeep : t.shared.threadsKeepalive = true) : worksOf PoolAct.discardedWork ls = [] := by
  refine System.run_shared (I := fun ls s => s.threadsKeepalive = true →
    worksOf PoolAct.discardedWork ls = []) h ?_ ?_ hkeep
  · exact fun _ => rfl
  · intro ls s f i e s' a hrun _ _ hI hm hkeep
    have hback : s.threadsKeepalive = true := by
      rcases hm.keepalive_eq with he | ⟨-, hend, -⟩
      · exact he ▸ hkeep
      · rw [hend] at hkeep
        cases hkeep
    have hpc : f i ≠ .clear := fun hclear => by
      have hend : (f i).isEnding = false := thpool_keepalive hrun i hback
      rw [hclear] at hend
      cases hend
    rw [worksOf_snoc, hI hback, hm.discardedWork_eq hpc]
    rfl

theorem inCall_of_isWorker (h : pc.isWorker = true) : pc.inCall = false := by
  cases pc <;> first | rfl | cases h

theorem inCall_of_isIdle (h : pc.isIdle = true) : pc.inCall = false := by
  cases pc <;> first | rfl | cases h

theorem ThpoolMove.inCall_eq (hm : ThpoolMove nThreads s pc e s' pc') (hcall : e ≠ .call)
    (hwait : e ≠ .callWait) (hpc : e ≠ .callDestroy → pc.inCall = false) : pc'.inCall = false := by
  cases hm with
  | test => split <;> rfl
  | recheck => split <;> rfl
  | pull => split <;> rfl
  | alive => split <;> rfl
  | addWork => exact absurd rfl hcall
  | waitWork => exact absurd rfl hwait
  | push | lock | working | block | wakeWaiting => cases hpc nofun
  | len => cases hpc (by split <;> nofun)
  | _ => rfl

/-- Once the pool is being destroyed, no other call is under way. -/
theorem thpool_ending (h : ThpoolRun nThreads nCallers created prev ls t) (i : Nat)
    (hkeep : t.shared.threadsKeepalive = false) : (t.pcs i).inCall = false := by
  refine System.run_pcs (Q := fun s _ pc => s.threadsKeepalive = false → pc.inCall = false) h
    ?_ ?_ ?_ i hkeep
  · exact fun i _ => thpoolCreated_free rfl rfl rfl i
  · intro ls s f i e s' a _ _ hg hQ hm
    have hsame (hne : e ≠ .callDestroy) : s'.threadsKeepalive = s.threadsKeepalive :=
      hm.keepalive_eq.resolve_right fun hend => hne hend.1
    refine ⟨fun hkeep => hm.inCall_eq ?_ ?_ fun hne => hQ i (hsame hne ▸ hkeep),
      fun j hji hkeep => ?_⟩
    · rintro rfl
      rw [hsame nofun, show s.threadsKeepalive = true from hg] at hkeep
      cases hkeep
    · rintro rfl
      rw [hsame nofun, show s.threadsKeepalive = true from hg] at hkeep
      cases hkeep
    · rcases hm.keepalive_eq with he | ⟨rfl, -, -⟩
      · exact hQ j (he ▸ hkeep)
      · rcases hg.2 j hji with hj | hj
        · exact inCall_of_isWorker hj
        · exact inCall_of_isIdle hj
  · intro s e j b b' hmv hQ
    rcases wake_moves hmv with ⟨rfl, rfl⟩ | ⟨rfl, rfl⟩ <;> exact hQ

/-- No thread starts anew. -/
theorem ThpoolMove.isNew_eq (hm : ThpoolMove nThreads s pc e s' pc') : pc'.isNew = false := by
  cases hm with
  | test => split <;> rfl
  | recheck => split <;> rfl
  | pull => split <;> rfl
  | len => split <;> rfl
  | alive => split <;> rfl
  | _ => rfl

/-- From the return of `thpool_init` on, every worker is in its loop or behind it. -/
theorem thpool_isNew (h : ThpoolRun nThreads nCallers created prev ls t) (i : Nat)
    (hi : i < nThreads) (hready : t.shared.ready = true) : (t.pcs i).isNew = false := by
  refine System.run_pcs (Q := fun s i pc => i < nThreads → s.ready = true → pc.isNew = false) h
    ?_ ?_ ?_ i hi hready
  · rintro i _ ⟨⟩
  · intro ls s f i e s' a hrun hi _ hQ hm
    have hnew (j : Nat) (hj : j < nThreads) (hready : s'.ready = true) : (f j).isNew = false := by
      rcases hm.ready_eq with he | ⟨-, halive⟩
      · exact hQ j hj (he ▸ hready)
      · -- as many workers are live as there are
        have hcount := (thpool_counts hrun).alive
        rw [show (⟨s, f⟩ : State (Thpool J) (Pc J)).shared.numThreadsAlive = nThreads from halive]
          at hcount
        refine isNew_of_isLive (forall_lt_of_number_eq (n := nThreads + nCallers) (fun k _ hk => ?_)
          (Int.ofNat_inj.mp hcount.symm) j hj)
        exact (thpool_isWorker hrun k).mp (isWorker_of_isLive hk)
    refine ⟨fun hi hready => ?_, fun j _ hj hready => hnew j hj hready⟩
    exact hm.isNew_eq
  · intro s e j b b' hmv hQ
    rcases wake_moves hmv with ⟨rfl, rfl⟩ | ⟨rfl, rfl⟩ <;> exact hQ

/-- A pool that is freed was destroyed before. -/
theorem thpool_freed_keepalive (h : ThpoolRun nThreads nCallers created prev ls t)
    (hfreed : t.shared.freed = true) : t.shared.threadsKeepalive = false := by
  refine System.run_shared (I := fun _ s => s.freed = true → s.threadsKeepalive = false) h ?_ ?_
    hfreed
  · rintro ⟨⟩
  · intro ls s f i e s' a hrun _ _ hI hm hfreed
    have hkeep : s.threadsKeepalive = false := by
      rcases hm.freed_eq with he | hpc
      · exact hI (he ▸ hfreed)
      · by_contra hkeep
        have hend := thpool_keepalive hrun i (Bool.not_eq_false _ ▸ hkeep)
        rw [show (⟨s, f⟩ : State (Thpool J) (Pc J)).pcs i = .clear from hpc] at hend
        cases hend
    rcases hm.keepalive_eq with he | ⟨-, he, -⟩
    · exact he.trans hkeep
    · exact he

theorem ThpoolMove.clear_eq (hm : ThpoolMove nThreads s pc e s' pc') (hpc : pc' = .clear) :
    s'.numThreadsAlive = 0 := by
  cases hm with
  | alive =>
    by_contra hne
    rw [if_neg hne] at hpc
    cases hpc
  | test => split at hpc <;> cases hpc
  | recheck => split at hpc <;> cases hpc
  | pull => split at hpc <;> cases hpc
  | len => split at hpc <;> cases hpc
  | _ => cases hpc

/-- Where the pool is cleared, and from then on, no worker is alive. -/
theorem thpool_cleared (h : ThpoolRun nThreads nCallers created prev ls t) (i : Nat)
    (hclear : t.pcs i = .clear ∨ t.shared.freed = true) : t.shared.numThreadsAlive = 0 := by
  refine System.run_pcs (Q := fun s _ pc => pc = .clear ∨ s.freed = true →
    s.numThreadsAlive = 0) h ?_ ?_ ?_ i hclear
  · exact fun i _ => rfl
  · intro ls s f i e s' a hrun hi _ hQ hm
    have hstay (j : Nat) (hj : f j = .clear ∨ s.freed = true) : s'.numThreadsAlive = 0 := by
      have hzero := hQ j hj
      have hend : s.threadsKeepalive = false := by
        rcases hj with hj | hfreed
        · by_contra hkeep
          have hpc := thpool_keepalive hrun j (Bool.not_eq_false _ ▸ hkeep)
          rw [show (⟨s, f⟩ : State (Thpool J) (Pc J)).pcs j = .clear from hj] at hpc
          cases hpc
        · exact thpool_freed_keepalive hrun hfreed
      rcases hm.numThreadsAlive_eq with he | hnew | hlive
      · exact he.trans hzero
      · have hworker := (thpool_isWorker hrun i).mp (isWorker_of_isNew hnew)
        have hold := thpool_isNew hrun i hworker (thpool_ready hrun hend)
        exact absurd hnew (Bool.eq_false_iff.mp hold)
      · have hcount := (thpool_counts hrun).alive.symm.trans hzero
        exact absurd hlive (Bool.eq_false_iff.mp (number_eq_zero.mp (Int.ofNat_inj.mp hcount) i hi))
    have hfreed (hfreed : s'.freed = true) : s'.numThreadsAlive = 0 := by
      rcases hm.freed_eq with he | hpc
      · exact hstay i (.inr (he ▸ hfreed))
      · exact hstay i (.inl hpc)
    refine ⟨fun hpc => ?_, fun j _ hj => ?_⟩
    · exact hpc.elim hm.clear_eq hfreed
    · exact hj.elim (fun hpc => hstay j (.inl hpc)) hfreed
  · intro s e j b b' hmv hQ
    rcases wake_moves hmv with ⟨rfl, rfl⟩ | ⟨rfl, rfl⟩ <;> simpa using hQ

theorem ThpoolMove.inDestroy_eq (hm : ThpoolMove nThreads s pc e s' pc')
    (hcall : e = .callDestroy → s.threadsKeepalive = true)
    (hpc : pc.inDestroy = true → s.freed = false) :
    (!s'.threadsKeepalive).toNat + (s.freed.toNat + pc.inDestroy.toNat) =
      (!s.threadsKeepalive).toNat + (s'.freed.toNat + pc'.inDestroy.toNat) := by
  cases hm with
  | test => split <;> rfl
  | recheck => split <;> rfl
  | pull => split <;> rfl
  | len => split <;> rfl
  | alive => split <;> rfl
  | destroy =>
    simp only [Pc.inDestroy, hcall rfl, Bool.not_false, Bool.not_true, Bool.toNat_true,
      Bool.toNat_false]
    omega
  | clear => simp [Pc.inDestroy, hpc rfl]
  | _ => rfl

/-- One thread destroys the pool. -/
theorem thpool_inDestroy (h : ThpoolRun nThreads nCallers created prev ls t) :
    (!t.shared.threadsKeepalive).toNat =
      t.shared.freed.toNat + number Pc.inDestroy t.pcs (nThreads + nCallers) := by
  refine (System.run_balance_with (I := fun _ _ => True) (w := fun pc : Pc J => pc.inDestroy.toNat)
    (l := fun _ s => (!s.threadsKeepalive).toNat) (r := fun _ s => s.freed.toNat) h trivial
    ?_ ?_ ?_).2
  · rw [total_eq_zero fun i _ => by rw [thpoolCreated_free (p := Pc.inDestroy) rfl rfl rfl i]; rfl]
    rfl
  · intro ls s f i e s' a hrun hi hg _ heq hm
    refine ⟨trivial, hm.inDestroy_eq ?_ fun hpc => ?_⟩
    · rintro rfl
      exact hg.1
    · have hle := le_total (w := fun pc : Pc J => pc.inDestroy.toNat) (f := f) hi
      have hone : (f i).inDestroy.toNat = 1 := by rw [hpc]; rfl
      have := Bool.toNat_le (!s.threadsKeepalive)
      by_contra hfreed
      rw [Bool.not_eq_false] at hfreed
      rw [hfreed, Bool.toNat_true] at heq
      omega
  · intro e b b' hmv
    rcases wake_moves hmv with ⟨rfl, rfl⟩ | ⟨rfl, rfl⟩ <;> rfl

/-- The places of the threads in a pool that is freed. -/
theorem thpool_freed_pcs (h : ThpoolRun nThreads nCallers created prev ls t)
    (hfreed : t.shared.freed = true) (i : Nat) (hi : i < nThreads + nCallers) :
    t.pcs i = .unlock ∨ t.pcs i = .ended ∨ t.pcs i = .idle := by
  have hend := thpool_freed_keepalive h hfreed
  have hlive : (t.pcs i).isLive = false :=
    number_eq_zero.mp (Int.ofNat_inj.mp ((thpool_counts h).alive.symm.trans
      (thpool_cleared h i (.inr hfreed)))) i hi
  have hdestroy : (t.pcs i).inDestroy = false := by
    have hone := thpool_inDestroy h
    rw [hend, hfreed] at hone
    exact number_eq_zero.mp (by simpa using hone) i hi
  have hcall := thpool_ending h i hend
  have hnew : (t.pcs i).isNew = false := by
    by_contra hnew
    rw [Bool.not_eq_false] at hnew
    have hworker := (thpool_isWorker h i).mp (isWorker_of_isNew hnew)
    rw [thpool_isNew h i hworker (thpool_ready h hend)] at hnew
    cases hnew
  generalize t.pcs i = pc at hlive hdestroy hcall hnew ⊢
  cases pc <;> simp_all [Pc.isLive, Pc.inDestroy, Pc.inCall, Pc.isNew]

theorem ThpoolMove.toList_eq (hm : ThpoolMove nThreads s pc e s' pc')
    (hq : s.jobqueue.Holds s.jobqueue.toList) :
    s'.jobqueue.toList = s.jobqueue.toList ∨ s'.jobqueue.toList = [] ∨ pc.isLive = true ∨
      pc.inCall = true := by
  cases hm with
  | pull => exact .inr (.inr (.inl rfl))
  | pullNone => exact .inr (.inr (.inl rfl))
  | push => exact .inr (.inr (.inr rfl))
  | clear _ hclear =>
    obtain ⟨rfl, hq'⟩ := jobqueueClear_some hq hclear
    exact .inr (.inl hq'.toList_eq)
  | _ => exact .inl rfl

theorem ThpoolMove.freed_toList (hm : ThpoolMove nThreads s pc e s' pc')
    (hq : s.jobqueue.Holds s.jobqueue.toList) (hfreed : s.freed = false)
    (hfreed' : s'.freed = true) : s'.jobqueue.toList = [] := by
  cases hm with
  | clear _ hclear =>
    obtain ⟨rfl, hq'⟩ := jobqueueClear_some hq hclear
    exact hq'.toList_eq
  | _ => exact absurd hfreed' (by simp [hfreed])

/-- A pool that is freed holds no job any more. -/
theorem thpool_freed_toList (h : ThpoolRun nThreads nCallers created prev ls t)
    (hfreed : t.shared.freed = true) : t.shared.jobqueue.toList = [] := by
  refine System.run_shared (I := fun _ s => s.freed = true → s.jobqueue.toList = []) h ?_ ?_ hfreed
  · rintro ⟨⟩
  · intro ls s f i e s' a hrun hi _ hI hm hfreed
    have hq : s.jobqueue.Holds s.jobqueue.toList := (thpool_memory hrun).1
    cases hs : s.freed with
    | false => exact hm.freed_toList hq hs hfreed
    | true =>
      have hpc : f i = .unlock ∨ f i = .ended ∨ f i = .idle := thpool_freed_pcs hrun hs i hi
      rcases hm.toList_eq hq with he | he | hlive | hcall
      · exact he.trans (hI hs)
      · exact he
      · rcases hpc with hpc | hpc | hpc <;> rw [hpc] at hlive <;> cases hlive
      · rcases hpc with hpc | hpc | hpc <;> rw [hpc] at hcall <;> cases hcall

/-- When the pool is freed, at most one worker still has a mutex of it to unlock and no other thread
touches it; every job is freed, and its work is done or was given up in the queue. -/
theorem thpool_freed (h : ThpoolRun nThreads nCallers created prev ls t)
    (hfreed : t.shared.freed = true) :
    (∀ i < nThreads, t.pcs i = .unlock ∨ t.pcs i = .ended) ∧
      (∀ i < nThreads, ∀ j < nThreads, t.pcs i = .unlock → t.pcs j = .unlock → i = j) ∧
      (∀ i, nThreads ≤ i → i < nThreads + nCallers → t.pcs i = .idle) ∧
      (∀ job, t.shared.jobs job = none) ∧
      (worksOf PoolAct.pushedWork ls : Multiset J) =
        worksOf PoolAct.finishedWork ls + worksOf PoolAct.discardedWork ls := by
  have hpcs := thpool_freed_pcs h hfreed
  have hqueue := thpool_freed_toList h hfreed
  refine ⟨fun i hi => ?_, fun i hi j hj hpi hpj => ?_, fun i hi hlt => ?_, fun job => ?_, ?_⟩
  · rcases hpcs i (by omega) with hpc | hpc | hpc
    · exact .inl hpc
    · exact .inr hpc
    · have hworker := (thpool_isWorker h i).mpr hi
      rw [hpc] at hworker
      cases hworker
  · refine number_unique (p := Pc.ownsCount) (n := nThreads + nCallers) (f := t.pcs) ?_
      (by omega) (by omega) (by rw [hpi]; rfl) (by rw [hpj]; rfl)
    exact (thpool_counts h).thcountLock ▸ Bool.toNat_le _
  · have hcaller : ¬ (t.pcs i).isWorker = true := fun hw => by
      have := (thpool_isWorker h i).mp hw
      omega
    rcases hpcs i hlt with hpc | hpc | hpc
    · exact absurd (by rw [hpc]; rfl) hcaller
    · exact absurd (by rw [hpc]; rfl) hcaller
    · exact hpc
  · have hmem := (thpool_memory h).2 job
    rw [hqueue, total_eq_zero fun i hi => by
      rcases hpcs i hi with hpc | hpc | hpc <;> rw [hpc] <;> rfl] at hmem
    cases hjob : t.shared.jobs job with
    | none => rfl
    | some work => simp [hjob] at hmem
  · have horder := thpool_order h
    have honce := thpool_once h
    rw [total_eq_zero fun i hi => by
      rcases hpcs i hi with hpc | hpc | hpc <;> rw [hpc] <;> rfl, add_zero] at honce
    rw [Thpool.queued, hqueue] at horder
    rw [horder, List.filterMap_nil, List.append_nil, worksOf_takenWork, honce]

/-- The pool may be freed while a worker is about to unlock a mutex of it. -/
theorem thpool_freed_unlock : ∃ ls s,
    ThpoolRun 1 1 (fun _ => true) (fun _ => none) ls ⟨s, onePcs .unlock .idle⟩ ∧ s.freed = true ∧
      ∀ job, s.jobs job = none := by
  obtain ⟨ls, s, h, hfreed⟩ := onePool_freed
  exact ⟨ls, s, h.run, hfreed, (thpool_freed h.run hfreed).2.2.2.1⟩

end Locks

end Silksocks
