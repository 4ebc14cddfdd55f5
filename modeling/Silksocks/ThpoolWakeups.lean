import Silksocks.ThpoolLocks

/-! The wakeups of the thread pool.  While a job waits in the queue, the semaphore is posted or some
thread is about to see to it, and while a thread waits in `thpool_wait`, a job is in the queue or at
work: no wakeup is lost. -/

namespace Silksocks

open Threads

section Defs

variable {J : Type}

namespace Pc

/-- A thread that is about to look into the queue, or to post. -/
def isServing : Pc J → Bool
  | recheck | count | pull | pullPost _ _ | addPost => true
  | _ => false

/-- A thread that goes to sleep in `thpool_wait`, or sleeps there. -/
def isParked : Pc J → Bool
  | block | waiting => true
  | _ => false

end Pc

/-- What `thpool_wait` waits for has not come about. -/
def Thpool.isOccupied (s : Thpool J) : Prop :=
  s.jobqueue.toList ≠ [] ∨ s.numThreadsWorking ≠ 0

end Defs

section Wakeups

variable {J : Type} {nThreads nCallers : Nat} {created : Nat → Bool} {prev : Nat → Option Nat}
  {ls : List (Nat × PoolAct J)} {t : State (Thpool J) (Pc J)} {s s' : Thpool J} {pc pc' : Pc J}
  {e : PoolAct J}

/-! ### Wakeups -/

/-- Who takes the semaphore sees to the queue, and leaves it posted unless the queue is empty. -/
theorem ThpoolMove.serves (hm : ThpoolMove nThreads s pc e s' pc')
    (hq : s.jobqueue.Holds s.jobqueue.toList)
    (h : (s.threadsKeepalive = true → s.jobqueue.toList ≠ [] → s.hasJobs = 1) ∨
      pc.isServing = true) :
    (s'.threadsKeepalive = true → s'.jobqueue.toList ≠ [] → s'.hasJobs = 1) ∨
      pc'.isServing = true := by
  cases hm with
  | take | count | push => exact .inr rfl
  | pullPost | addPost | postAll => exact .inl fun _ _ => rfl
  | destroy => exact .inl nofun
  | recheck =>
    by_cases hkeep : s.threadsKeepalive = true
    · rw [if_pos hkeep]
      exact .inr rfl
    · exact .inl fun h => absurd h hkeep
  | pullNone hlock hpull =>
    obtain ⟨hlist, rfl⟩ := jobqueuePull_none hq hpull
    exact .inl fun _ hne => absurd hlist hne
  | pull hlock hpull hjob =>
    obtain ⟨l, hlist, hq', rfl⟩ := jobqueuePull_some hq hpull
    cases l with
    | nil => exact .inl fun _ hne => absurd hq'.toList_eq hne
    | cons k' l => exact .inr rfl
  | clear _ hclear =>
    obtain ⟨rfl, hq'⟩ := jobqueueClear_some hq hclear
    exact .inl fun _ hne => absurd hq'.toList_eq hne
  | _ => exact .inl (h.resolve_right nofun)

/-- While a job waits in the queue, the semaphore is posted or some thread is about to see to it. -/
theorem thpool_served (h : ThpoolRun nThreads nCallers created prev ls t)
    (hkeep : t.shared.threadsKeepalive = true) (hne : t.shared.jobqueue.toList ≠ []) :
    t.shared.hasJobs = 1 ∨ ∃ i < nThreads + nCallers, (t.pcs i).isServing = true := by
  refine (System.run_exists (I := fun s => s.threadsKeepalive = true → s.jobqueue.toList ≠ [] →
    s.hasJobs = 1) (p := fun pc : Pc J => pc.isServing = true) h ?_ ?_ ?_).imp_left
    fun hI => hI hkeep hne
  · exact fun _ hne => absurd (jobqueueInit_holds prev).toList_eq hne
  · exact fun ls s f i e s' a hrun _ hm hI => hm.serves (thpool_memory hrun).1 hI
  · intro e b b' hmv hb
    rcases wake_moves hmv with ⟨rfl, rfl⟩ | ⟨rfl, rfl⟩ <;> cases hb

/-- A move that leaves the semaphore posted has posted it, or is none of a worker that goes to sleep
or takes it. -/
theorem ThpoolMove.posted (hm : ThpoolMove nThreads s pc e s' pc') (hv : s'.hasJobs = 1) :
    e = .post ∨ e = .postAll ∨ s.hasJobs = 1 ∧ pc ≠ .wait ∧ pc'.isAsleep = false := by
  cases hm with
  | pullPost | addPost => exact .inl rfl
  | postAll => exact .inr (.inl rfl)
  | take | clear => cases hv
  | doze hne => exact absurd hv hne
  | test => exact .inr (.inr ⟨hv, nofun, by split <;> rfl⟩)
  | recheck => exact .inr (.inr ⟨hv, nofun, by split <;> rfl⟩)
  | pull => exact .inr (.inr ⟨hv, nofun, by split <;> rfl⟩)
  | len => exact .inr (.inr ⟨hv, nofun, by split <;> rfl⟩)
  | alive => exact .inr (.inr ⟨hv, nofun, by split <;> rfl⟩)
  | _ => exact .inr (.inr ⟨hv, nofun, rfl⟩)

/-- While the semaphore is posted, nobody sleeps on it or some worker is about to take it. -/
theorem thpool_awake (h : ThpoolRun nThreads nCallers created prev ls t)
    (hv : t.shared.hasJobs = 1) : (∀ i < nThreads + nCallers, (t.pcs i).isAsleep = false) ∨
      ∃ i < nThreads + nCallers, t.pcs i = .wait := by
  refine h.invariant (I := fun _ t => t.shared.hasJobs = 1 →
    (∀ i < nThreads + nCallers, (t.pcs i).isAsleep = false) ∨
      ∃ i < nThreads + nCallers, t.pcs i = .wait) ?_ ?_ hv
  · rintro ⟨⟩
  · rintro ls t1 l t2 hrun hI ⟨hi, hg, hm, hw⟩ hv
    rename_i s s' f f' i a e
    dsimp only at hI hv ⊢
    rcases hm.posted hv with rfl | rfl | ⟨hv, hpc, ha⟩
    · cases hw with
      | one hj hp => exact .inr ⟨_, hj, Function.update_self ..⟩
      | nobody hnone => exact .inl hnone
    · cases hw
      refine .inl fun j hj => ?_
      dsimp only
      split
      next => rfl
      next hno => exact Bool.eq_false_iff.mpr hno
    · rcases hI hv with hnone | ⟨j, hj, hwait⟩
      · refine .inl fun j hj => ?_
        have hold : (Function.update f i a j).isAsleep = false := by
          by_cases hji : j = i
          · rwa [hji, Function.update_self]
          · rw [Function.update_of_ne hji]
            exact hnone j hj
        rcases hw.moves j with he | hmv
        · rwa [he]
        · rcases wake_moves hmv with ⟨-, hb⟩ | ⟨-, hb⟩ <;> rw [hb] <;> rfl
      · have hji : j ≠ i := by
          rintro rfl
          exact hpc hwait
        refine .inr ⟨j, hj, ?_⟩
        have hold : Function.update f i a j = .wait := by rwa [Function.update_of_ne hji]
        rcases hw.moves j with he | hmv
        · exact he.trans hold
        · rw [hold] at hmv
          rcases wake_moves hmv with ⟨hb, -⟩ | ⟨hb, -⟩ <;> cases hb

/-- No wakeup is lost: while a job waits in the queue and a worker sleeps, another thread is about
to take the job, to post the semaphore, or to take it while it is posted. -/
theorem thpool_noLostWakeup (h : ThpoolRun nThreads nCallers created prev ls t)
    (hkeep : t.shared.threadsKeepalive = true) (hne : t.shared.queued ≠ []) {i : Nat}
    (hi : i < nThreads + nCallers) (hasleep : t.pcs i = .asleep) :
    ∃ j < nThreads + nCallers, (t.pcs j).isServing = true ∨
      t.shared.hasJobs = 1 ∧ t.pcs j = .wait := by
  have hlist : t.shared.jobqueue.toList ≠ [] := fun he => hne (by rw [Thpool.queued, he]; rfl)
  rcases thpool_served h hkeep hlist with hv | ⟨j, hj, hserve⟩
  · rcases thpool_awake h hv with hnone | ⟨j, hj, hwait⟩
    · have hno := hnone i hi
      rw [hasleep] at hno
      cases hno
    · exact ⟨j, hj, .inr ⟨hv, hwait⟩⟩
  · exact ⟨j, hj, .inl hserve⟩

theorem thpool_noLostWakeup_pushed : ∃ ls s,
    ThpoolRun 1 1 (fun _ => true) (fun _ => none) ls ⟨s, onePcs .asleep .addPost⟩ ∧
      ∃ j < 2, (onePcs .asleep .addPost j).isServing = true ∨
        s.hasJobs = 1 ∧ onePcs .asleep .addPost j = .wait := by
  obtain ⟨s, h, hkeep, hlist, hjob⟩ := onePool_pushed
  have hqueued : s.queued = [7] := by simp [Thpool.queued, hlist, hjob]
  exact ⟨_, s, h.run, thpool_noLostWakeup h.run hkeep (by simp [hqueued]) (i := 0)
    (by decide) rfl⟩

/-! ### The end of `thpool_wait` -/

theorem ThpoolMove.inWait_eq (hm : ThpoolMove nThreads s pc e s' pc') (hpc' : pc'.inWait = true) :
    pc.inWait = true ∨ e = .callWait := by
  cases hm with
  | test => split at hpc' <;> cases hpc'
  | recheck => split at hpc' <;> cases hpc'
  | pull => split at hpc' <;> cases hpc'
  | alive => split at hpc' <;> cases hpc'
  | waitWork => exact .inr rfl
  | lock | len | working | block | wakeWaiting => exact .inl rfl
  | _ => cases hpc'

/-- One thread at a time is in `thpool_wait`, if it is not called while another one is. -/
theorem thpool_inWait_unique
    (h : Lts.Run ((thpool J nThreads).Step ThpoolAlone (nThreads + nCallers))
      (thpoolCreated J nThreads created prev) ls t) {i j : Nat} (hi : (t.pcs i).inWait = true)
    (hj : (t.pcs j).inWait = true) : i = j := by
  refine System.run_unique (p := Pc.inWait) h (fun i => thpoolCreated_free rfl rfl rfl i) ?_ ?_ hi hj
  · exact fun s f i e s' a hg hm ha => (hm.inWait_eq ha).imp_right hg.2
  · intro e b b' hmv
    rcases wake_moves hmv with ⟨rfl, rfl⟩ | ⟨rfl, rfl⟩ <;> rfl

/-- A thread that parks has found the pool occupied. -/
theorem ThpoolMove.parks (hm : ThpoolMove nThreads s pc e s' pc')
    (hq : s.jobqueue.Holds s.jobqueue.toList) (hpc' : pc'.isParked = true)
    (hpc : pc.isParked = true → s.isOccupied) : s'.isOccupied := by
  cases hm with
  | test => split at hpc' <;> cases hpc'
  | recheck => split at hpc' <;> cases hpc'
  | pull => split at hpc' <;> cases hpc'
  | alive => split at hpc' <;> cases hpc'
  | len =>
    refine .inl fun hnil => ?_
    rw [if_pos (hq.len_eq_zero.mpr hnil)] at hpc'
    cases hpc'
  | working hne => exact .inr hne
  | block => exact hpc rfl
  | _ => cases hpc'

/-- The pool stays occupied until the last worker that works signals. -/
theorem ThpoolMove.occupied (hm : ThpoolMove nThreads s pc e s' pc')
    (hq : s.jobqueue.Holds s.jobqueue.toList)
    (hfresh : ∀ job work, pc = .add job work → job ∉ s.jobqueue.toList)
    (hnonneg : 0 ≤ s.numThreadsWorking) (hbusy : pc.isBusy = true → s.numThreadsWorking ≠ 0)
    (hclear : pc ≠ .clear) (hocc : s.isOccupied) :
    s'.isOccupied ∨ e = .idle ∧ s.thcountLock = false := by
  cases hm with
  | count =>
    refine .inl (.inr ?_)
    dsimp only
    omega
  | pullNone | pull => exact .inl (.inr (hbusy rfl))
  | uncount hlock =>
    by_cases hzero : s.numThreadsWorking - 1 = 0
    · rw [if_pos hzero]
      exact .inr ⟨rfl, hlock⟩
    · exact .inl (.inr hzero)
  | push _ hpush =>
    have hq' := jobqueuePush_some hq (hfresh _ _ rfl) hpush
    refine .inl (.inl ?_)
    rw [hq'.toList_eq]
    simp
  | clear => exact absurd rfl hclear
  | _ => exact .inl hocc

/-- A thread is in `thpool_wait` alone, and parks there only while the pool is occupied. -/
theorem thpool_parked
    (h : Lts.Run ((thpool J nThreads).Step ThpoolAlone (nThreads + nCallers))
      (thpoolCreated J nThreads created prev) ls t) {i : Nat} (hi : i < nThreads + nCallers)
    (hpc : (t.pcs i).isParked = true) : t.shared.isOccupied := by
  refine h.invariant (I := fun _ t => ∀ i < nThreads + nCallers, (t.pcs i).isParked = true →
    t.shared.isOccupied) ?_ ?_ i hi hpc
  · intro i _ hpc
    rw [thpoolCreated_free (p := Pc.isParked) rfl rfl rfl i] at hpc
    cases hpc
  · rintro ls t1 l t2 halone hI ⟨hi, hg, hm, hw⟩ j hj hpc
    rename_i s s' f f' i a e
    have hrun : ThpoolRun nThreads nCallers created prev ls ⟨s, f⟩ := thpool_alone halone
    obtain ⟨hq, -⟩ := thpool_memory hrun
    have hcounts := thpool_counts hrun
    dsimp only at hI hpc ⊢
    have hpark : (Function.update f i a j).isParked = true := by
      rcases hw.moves j with he | hmv
      · rwa [← he]
      · rcases wake_moves hmv with ⟨-, hb⟩ | ⟨-, hb⟩ <;> rw [hb] at hpc <;> cases hpc
    by_cases hji : j = i
    · subst hji
      rw [Function.update_self] at hpark
      exact hm.parks hq hpark (hI j hj)
    · rw [Function.update_of_ne hji] at hpark
      have hwait : (f j).inWait = true := by
        generalize f j = pc at hpark
        cases pc <;> first | rfl | cases hpark
      have hclear : f i ≠ .clear := fun hclear => by
        have hend : s.threadsKeepalive = false := by
          by_contra hkeep
          have hpc := thpool_keepalive hrun i (Bool.not_eq_false _ ▸ hkeep)
          rw [show (⟨s, f⟩ : State (Thpool J) (Pc J)).pcs i = .clear from hclear] at hpc
          cases hpc
        have hcall : (f j).inCall = false := thpool_ending hrun j hend
        generalize f j = pc at hpark hcall
        cases pc <;> first | cases hpark; done | cases hcall
      have hbusy (hpc : (f i).isBusy = true) : s.numThreadsWorking ≠ 0 := fun hzero => by
        have hnone := number_eq_zero.mp (Int.ofNat_inj.mp (hcounts.working.symm.trans hzero)) i hi
        exact absurd hpc (Bool.eq_false_iff.mp hnone)
      have hnonneg : 0 ≤ s.numThreadsWorking := hcounts.working ▸ Int.natCast_nonneg _
      refine (hm.occupied hq (fun job work hadd => ?_) hnonneg hbusy hclear
        (hI j hj hpark)).elim id ?_
      · exact thpool_notQueued hrun hi (congrArg Pc.job hadd)
      · -- the signal wakes thread j, which is parked no more
        rintro ⟨rfl, hlock⟩
        have hwaiting : f j = .waiting := by
          have hnone : number Pc.ownsCount f (nThreads + nCallers) = 0 := by
            rw [← hcounts.thcountLock, hlock]
            rfl
          have hown := number_eq_zero.mp hnone j hj
          generalize f j = pc at hpark hown
          cases pc <;> first | rfl | cases hpark; done | cases hown
        have hunique {k : Nat} (hk : (f k).inWait = true) : k = j :=
          thpool_inWait_unique halone hk hwait
        cases hw with
        | @one _ _ _ k hk hp =>
          by_cases hki : k = i
          · subst hki
            rw [Function.update_self] at hp
            have ha : a.inWait = true := by
              cases a <;> first | rfl | cases hp
            exact absurd (hunique ((hm.inWait_eq ha).resolve_right nofun)).symm hji
          · rw [Function.update_of_ne hki] at hp
            have hfk : (f k).inWait = true := by
              generalize f k = pc at hp
              cases pc <;> first | rfl | cases hp
            obtain rfl := hunique hfk
            rw [Function.update_self] at hpc
            cases hpc
        | nobody hnone =>
          have hno := hnone j hj
          rw [Function.update_of_ne hji, hwaiting] at hno
          cases hno

end Wakeups

end Silksocks
