import Silksocks.Thpool

/-! The jobs of the thread pool.  Under every interleaving the jobs are pulled in the order in which
they were pushed, each one once, and what is allocated for a job is what the queue and the threads
hold: a job is freed once, and not before its work is done. -/

namespace Silksocks

open Threads

section Defs

variable {J : Type}

namespace PoolAct

def pushedWork : PoolAct J → List J
  | pushed work => [work]
  | _ => []

/-- The work that a move takes out of the queue. -/
def takenWork : PoolAct J → List J
  | pulled work => [work]
  | discarded works => works
  | _ => []

def pulledWork : PoolAct J → List J
  | pulled work => [work]
  | _ => []

/-- The work that is given up when the queue is cleared. -/
def discardedWork : PoolAct J → List J
  | discarded works => works
  | _ => []

def finishedWork : PoolAct J → List J
  | finished work => [work]
  | _ => []

end PoolAct

/-- The work of the moves `ls`, as `f` tells it of each of them. -/
def worksOf (f : PoolAct J → List J) (ls : List (Nat × PoolAct J)) : List J :=
  ls.flatMap fun e => f e.2

namespace Pc

/-- The job that a thread has allocated and not pushed yet, or pulled and not freed yet. -/
def job : Pc J → Option (Nat × J)
  | add job work | pullPost job work | run job work => some (job, work)
  | _ => none

def jobs (pc : Pc J) : List Nat := (pc.job.map Prod.fst).toList

/-- The work that a worker has pulled and not finished yet. -/
def running : Pc J → List J
  | pullPost _ work | run _ work => [work]
  | _ => []

end Pc

/-- The work in the queue, that of the next job first. -/
def Thpool.queued (s : Thpool J) : List J := s.jobqueue.toList.filterMap s.jobs

/-- What becomes of the jobs of `n` threads: they leave the queue in the order in which they were
pushed; those that were pulled are finished or running, each once; and a job is allocated while the
queue or one of the threads holds it. -/
structure JobsKept (ls : List (Nat × PoolAct J)) (t : State (Thpool J) (Pc J)) (n : Nat) : Prop where
  order : worksOf PoolAct.pushedWork ls = worksOf PoolAct.takenWork ls ++ t.shared.queued
  once : (worksOf PoolAct.pulledWork ls : Multiset J) =
    worksOf PoolAct.finishedWork ls + total (fun pc => (pc.running : Multiset J)) t.pcs n
  memory : ∀ job, (t.shared.jobs job).isSome.toNat =
    t.shared.jobqueue.toList.count job + total (fun pc => pc.jobs.count job) t.pcs n

end Defs

section Jobs

variable {J : Type} {nThreads nCallers : Nat} {created : Nat → Bool} {prev : Nat → Option Nat}
  {ls : List (Nat × PoolAct J)} {t : State (Thpool J) (Pc J)} {s s' : Thpool J} {pc pc' : Pc J}
  {e : PoolAct J}

@[simp] theorem worksOf_nil (f : PoolAct J → List J) : worksOf f [] = [] := rfl

@[simp] theorem worksOf_snoc (f : PoolAct J → List J) (i : Nat) :
    worksOf f (ls ++ [(i, e)]) = worksOf f ls ++ f e := by
  simp [worksOf]

/-- A woken thread holds what it held. -/
theorem wake_moves {a b : Pc J} (h : (PoolAct.wake e).Moves a b) :
    (a = .asleep ∧ b = .wait) ∨ (a = .waiting ∧ b = .lock) := by
  cases e <;> simp only [PoolAct.wake, Wake.Moves] at h <;> obtain ⟨ha, rfl⟩ := h <;>
    cases a <;> simp_all [Pc.isAsleep, Pc.isWaiting]

theorem thpoolCreated_pcs (created : Nat → Bool) (prev : Nat → Option Nat) (i : Nat) :
    (thpoolCreated J nThreads created prev).pcs i = .born ∨
    (thpoolCreated J nThreads created prev).pcs i = .uncreated ∨
    (thpoolCreated J nThreads created prev).pcs i = .idle := by
  simp only [thpoolCreated]
  split
  · split <;> simp
  · simp

/-! ### Memory -/

/-- A move keeps the queue a list and the accounts of the memory. -/
theorem ThpoolMove.memory (hm : ThpoolMove nThreads s pc e s' pc')
    (hq : s.jobqueue.Holds s.jobqueue.toList)
    (hle : ∀ job, s.jobqueue.toList.count job + pc.jobs.count job ≤ (s.jobs job).isSome.toNat) :
    s'.jobqueue.Holds s'.jobqueue.toList ∧
      ∀ job, (s'.jobs job).isSome.toNat + (s.jobqueue.toList.count job + pc.jobs.count job) =
        (s.jobs job).isSome.toNat + (s'.jobqueue.toList.count job + pc'.jobs.count job) := by
  cases hm with
  | test => exact ⟨hq, by split <;> exact fun _ => rfl⟩
  | recheck => exact ⟨hq, by split <;> exact fun _ => rfl⟩
  | len => exact ⟨hq, by split <;> exact fun _ => rfl⟩
  | alive => exact ⟨hq, by split <;> exact fun _ => rfl⟩
  | pullNone hlock hpull =>
    obtain ⟨hlist, rfl⟩ := jobqueuePull_none hq hpull
    exact ⟨hq, fun _ => rfl⟩
  | @pull q job work posts hlock hpull hjob =>
    obtain ⟨l, hlist, hq', rfl⟩ := jobqueuePull_some hq hpull
    have hpc : (if (!l.isEmpty) = true then Pc.pullPost job work else .run job work).jobs =
        [job] := by split <;> rfl
    refine ⟨by rwa [hq'.toList_eq], fun k => ?_⟩
    rw [hpc, hq'.toList_eq, hlist, List.count_cons, List.count_singleton]
    simp [Pc.jobs, Pc.job]
  | @finish job work =>
    refine ⟨hq, fun k => ?_⟩
    have hk := hle k
    by_cases hkj : k = job
    · subst hkj
      simp only [Pc.jobs, Pc.job, Option.map_some, Option.toList_some, List.count_singleton_self]
        at hk ⊢
      have := Bool.toNat_le (s.jobs k).isSome
      simp
      omega
    · simp [Pc.jobs, Pc.job, hkj, Ne.symm hkj]
  | @addWork job work hready hnew =>
    refine ⟨hq, fun k => ?_⟩
    by_cases hkj : k = job
    · subst hkj
      simp [Pc.jobs, Pc.job, hnew]
      omega
    · simp [Pc.jobs, Pc.job, hkj, Ne.symm hkj]
  | @push q job work hlock hpush =>
    have hmem : job ∉ s.jobqueue.toList := fun hmem => by
      have hk := hle job
      have := Bool.toNat_le (s.jobs job).isSome
      have := List.count_pos_iff.mpr hmem
      simp only [Pc.jobs, Pc.job, Option.map_some, Option.toList_some,
        List.count_singleton_self] at hk
      omega
    have hq' := jobqueuePush_some hq hmem hpush
    refine ⟨by rwa [hq'.toList_eq], fun k => ?_⟩
    rw [hq'.toList_eq, List.count_append]
    simp [Pc.jobs, Pc.job]
  | @clear q jobs works hlock hclear hjobs =>
    obtain ⟨rfl, hq'⟩ := jobqueueClear_some hq hclear
    refine ⟨by rwa [hq'.toList_eq], fun k => ?_⟩
    have hk := hle k
    rw [hq'.toList_eq]
    by_cases hmem : k ∈ s.jobqueue.toList
    · have hone := List.count_eq_one_of_mem hq.repr.nodup hmem
      have := Bool.toNat_le (s.jobs k).isSome
      simp [Pc.jobs, Pc.job, hmem, hone] at hk ⊢
      omega
    · simp [Pc.jobs, Pc.job, hmem, List.count_eq_zero]
  | _ => exact ⟨hq, fun _ => rfl⟩

theorem thpool_memory (h : ThpoolRun nThreads nCallers created prev ls t) :
    t.shared.jobqueue.Holds t.shared.jobqueue.toList ∧
      ∀ job, (t.shared.jobs job).isSome.toNat = t.shared.jobqueue.toList.count job +
        total (fun pc => pc.jobs.count job) t.pcs (nThreads + nCallers) := by
  have hbal := System.run_balance_with (W := Nat → Nat)
    (I := fun _ s => s.jobqueue.Holds s.jobqueue.toList)
    (w := fun pc job => pc.jobs.count job) (l := fun _ s job => (s.jobs job).isSome.toNat)
    (r := fun _ s job => s.jobqueue.toList.count job) h ?_ ?_ ?_ ?_
  · refine ⟨hbal.1, fun job => (congrFun hbal.2 job).trans ?_⟩
    rw [Pi.add_apply, total_apply]
  · exact jobqueueInit_holds prev
  · funext job
    have hzero : total (fun (pc : Pc J) job => pc.jobs.count job)
        (thpoolCreated J nThreads created prev).pcs (nThreads + nCallers) = 0 := by
      refine total_eq_zero fun i _ => ?_
      rcases thpoolCreated_pcs created prev i with hpc | hpc | hpc <;>
        rw [hpc] <;> rfl
    rw [hzero]
    rfl
  · intro ls s f i e s' a hrun hi hg hq heq hm
    have hle (job : Nat) : s.jobqueue.toList.count job + (f i).jobs.count job ≤
        (s.jobs job).isSome.toNat := by
      have hjob : (s.jobs job).isSome.toNat = s.jobqueue.toList.count job +
          total (fun pc job => pc.jobs.count job) f (nThreads + nCallers) job := congrFun heq job
      have hmine := le_total (w := fun pc : Pc J => pc.jobs.count job) (f := f) hi
      rw [total_apply] at hjob
      omega
    obtain ⟨hq', hmem⟩ := hm.memory hq hle
    exact ⟨hq', funext hmem⟩
  · intro e b b' hmv
    rcases wake_moves hmv with ⟨rfl, rfl⟩ | ⟨rfl, rfl⟩ <;> rfl

/-! ### The work of the jobs -/

theorem count_jobs_eq_zero {job : Nat} : pc.jobs.count job = 0 ↔ ∀ work, pc.job ≠ some (job, work) := by
  rw [List.count_eq_zero, Pc.jobs]
  cases hjob : pc.job with
  | none => simp
  | some held =>
    obtain ⟨k, work⟩ := held
    simp [eq_comm]

theorem one_le_count_jobs {job : Nat} {work : J} (h : pc.job = some (job, work)) :
    1 ≤ pc.jobs.count job := by
  rw [Pc.jobs, h]
  simp

/-- A job that neither the thread nor the queue holds stays as it is. -/
theorem ThpoolMove.jobs_eq (hm : ThpoolMove nThreads s pc e s' pc')
    (hq : s.jobqueue.Holds s.jobqueue.toList) {job : Nat} (hpc : pc.jobs.count job = 0)
    (hqueue : job ∉ s.jobqueue.toList) (hjob : (s.jobs job).isSome = true) :
    s'.jobs job = s.jobs job := by
  cases hm with
  | @finish k work =>
    refine Function.update_of_ne ?_ ..
    rintro rfl
    exact count_jobs_eq_zero.mp hpc work rfl
  | @addWork k work hready hnew =>
    refine Function.update_of_ne ?_ ..
    rintro rfl
    rw [hnew] at hjob
    cases hjob
  | @clear q jobs works hlock hclear hjobs =>
    obtain ⟨rfl, -⟩ := jobqueueClear_some hq hclear
    exact if_neg hqueue
  | _ => rfl

/-- A thread takes up a job together with its work. -/
theorem ThpoolMove.held (hm : ThpoolMove nThreads s pc e s' pc')
    (hmine : ∀ job work, pc.job = some (job, work) → s.jobs job = some work) {job : Nat} {work : J}
    (hjob : pc'.job = some (job, work)) : s'.jobs job = some work := by
  cases hm with
  | test => split at hjob <;> cases hjob
  | recheck => split at hjob <;> cases hjob
  | len => split at hjob <;> cases hjob
  | alive => split at hjob <;> cases hjob
  | pull _ _ hwork =>
    split at hjob <;> cases hjob <;> exact hwork
  | pullPost => exact hmine job work hjob
  | addWork w hready hnew =>
    cases hjob
    exact Function.update_self ..
  | _ => cases hjob

/-- The jobs in the queue are allocated. -/
theorem thpool_allocated (h : ThpoolRun nThreads nCallers created prev ls t) :
    ∀ job ∈ t.shared.jobqueue.toList, (t.shared.jobs job).isSome = true := by
  intro job hjob
  have hone := (thpool_memory h).2 job
  have hpos := List.count_pos_iff.mpr hjob
  cases hsome : (t.shared.jobs job).isSome with
  | true => rfl
  | false =>
    rw [hsome, Bool.toNat_false] at hone
    omega

/-- A job that a thread holds is not in the queue. -/
theorem thpool_notQueued (h : ThpoolRun nThreads nCallers created prev ls t) {i job : Nat} {work : J}
    (hi : i < nThreads + nCallers) (hjob : (t.pcs i).job = some (job, work)) :
    job ∉ t.shared.jobqueue.toList := by
  have hone := (thpool_memory h).2 job
  have hmine := le_total (w := fun pc : Pc J => pc.jobs.count job) (f := t.pcs) hi
  have hcount := one_le_count_jobs hjob
  have := Bool.toNat_le (t.shared.jobs job).isSome
  exact List.count_eq_zero.mp (by omega)

/-- A thread holds a job for as long as it is allocated for its work. -/
theorem thpool_held (h : ThpoolRun nThreads nCallers created prev ls t) (i : Nat)
    (hi : i < nThreads + nCallers) :
    ∀ job work, (t.pcs i).job = some (job, work) → t.shared.jobs job = some work := by
  refine System.run_pcs (Q := fun s i pc => i < nThreads + nCallers →
    ∀ job work, pc.job = some (job, work) → s.jobs job = some work) h ?_ ?_ ?_ i hi
  · intro i _ job work hjob
    rcases thpoolCreated_pcs created prev i with hpc | hpc | hpc <;>
      rw [hpc] at hjob <;> cases hjob
  · intro ls s f i e s' a hrun hi _ hheld hm
    obtain ⟨hq, hmem⟩ := thpool_memory hrun
    refine ⟨fun _ job work hjob => hm.held (hheld i hi) hjob, fun j hji hj job work hjob => ?_⟩
    have hsome := hheld j hj job work hjob
    -- thread j holds it, so neither thread i nor the queue does
    have hone : (s.jobs job).isSome.toNat = s.jobqueue.toList.count job +
      total (fun pc : Pc J => pc.jobs.count job) f (nThreads + nCallers) := hmem job
    have hboth := add_le_total (w := fun pc : Pc J => pc.jobs.count job) (f := f) hi hj (Ne.symm hji)
    have hcount := one_le_count_jobs hjob
    rw [hsome, Option.isSome_some, Bool.toNat_true] at hone
    have heq : s'.jobs job = s.jobs job :=
      hm.jobs_eq hq (by omega) (List.count_eq_zero.mp (by omega)) (by rw [hsome]; rfl)
    exact heq.trans hsome
  · intro s e j b b' hmv hheld hj job work hjob
    rcases wake_moves hmv with ⟨rfl, rfl⟩ | ⟨rfl, rfl⟩ <;> cases hjob

/-! ### The order of the jobs -/

/-- What a move pushes goes to the end of the queue, and what it takes comes from its front. -/
theorem ThpoolMove.queued (hm : ThpoolMove nThreads s pc e s' pc')
    (hq : s.jobqueue.Holds s.jobqueue.toList)
    (hle : ∀ job, s.jobqueue.toList.count job + pc.jobs.count job ≤ (s.jobs job).isSome.toNat)
    (hmine : ∀ job work, pc.job = some (job, work) → s.jobs job = some work) :
    s.queued ++ e.pushedWork = e.takenWork ++ s'.queued := by
  have hrest (k : Nat) (v : Option J)
      (hk : k ∉ s.jobqueue.toList) : s.jobqueue.toList.filterMap (Function.update s.jobs k v) =
        s.queued := by
    refine List.filterMap_congr fun j hj => Function.update_of_ne ?_ ..
    rintro rfl
    exact hk hj
  cases hm with
  | uncount => split <;> simp [PoolAct.pushedWork, PoolAct.takenWork, Thpool.queued]
  | len => split <;> simp [PoolAct.pushedWork, PoolAct.takenWork]
  | pullNone hlock hpull =>
    obtain ⟨hlist, rfl⟩ := jobqueuePull_none hq hpull
    simp [PoolAct.pushedWork, PoolAct.takenWork, Thpool.queued]
  | pull hlock hpull hjob =>
    obtain ⟨l, hlist, hq', rfl⟩ := jobqueuePull_some hq hpull
    simp [PoolAct.pushedWork, PoolAct.takenWork, Thpool.queued, hlist, hq'.toList_eq, hjob]
  | @finish job work =>
    have hk := hle job
    have := Bool.toNat_le (s.jobs job).isSome
    have : 1 ≤ (Pc.run job work).jobs.count job := one_le_count_jobs rfl
    have hnot : job ∉ s.jobqueue.toList := List.count_eq_zero.mp (by omega)
    simp [PoolAct.pushedWork, PoolAct.takenWork, Thpool.queued, hrest job none hnot]
  | @addWork job work hready hnew =>
    have hk := hle job
    rw [hnew] at hk
    have hnot : job ∉ s.jobqueue.toList :=
      List.count_eq_zero.mp (Nat.le_zero.mp ((Nat.le_add_right _ _).trans hk))
    simp [PoolAct.pushedWork, PoolAct.takenWork, Thpool.queued, hrest job (some work) hnot]
  | @push q job work hlock hpush =>
    have hk := hle job
    have := Bool.toNat_le (s.jobs job).isSome
    have : 1 ≤ (Pc.add job work).jobs.count job := one_le_count_jobs rfl
    have hnot : job ∉ s.jobqueue.toList := List.count_eq_zero.mp (by omega)
    have hq' := jobqueuePush_some hq hnot hpush
    simp [PoolAct.pushedWork, PoolAct.takenWork, Thpool.queued, hq'.toList_eq, hmine job work rfl]
  | @clear q jobs works hlock hclear hjobs =>
    obtain ⟨rfl, hq'⟩ := jobqueueClear_some hq hclear
    have hworks : s.queued = works := by
      have hid : s.queued = (s.jobqueue.toList.map s.jobs).filterMap id := by
        rw [List.filterMap_map]
        rfl
      rw [hid, hjobs]
      simp
    simp [PoolAct.pushedWork, PoolAct.takenWork, Thpool.queued, hq'.toList_eq, ← hworks]
  | _ => simp [PoolAct.pushedWork, PoolAct.takenWork, Thpool.queued]

theorem thpool_order (h : ThpoolRun nThreads nCallers created prev ls t) :
    worksOf PoolAct.pushedWork ls = worksOf PoolAct.takenWork ls ++ t.shared.queued := by
  refine System.run_shared (I := fun ls s =>
    worksOf PoolAct.pushedWork ls = worksOf PoolAct.takenWork ls ++ s.queued) h ?_ ?_
  · rfl
  · intro ls s f i e s' a hrun hi _ horder hm
    obtain ⟨hq, hmem⟩ := thpool_memory hrun
    have hle (job : Nat) : s.jobqueue.toList.count job + (f i).jobs.count job ≤
        (s.jobs job).isSome.toNat := by
      have hjob : (s.jobs job).isSome.toNat = s.jobqueue.toList.count job +
          total (fun pc : Pc J => pc.jobs.count job) f (nThreads + nCallers) := hmem job
      have hmine := le_total (w := fun pc : Pc J => pc.jobs.count job) (f := f) hi
      omega
    rw [worksOf_snoc, worksOf_snoc, horder, List.append_assoc, List.append_assoc,
      hm.queued hq hle (thpool_held hrun i hi)]

/-- A move pulls a job to run it, and finishes one that it runs. -/
theorem ThpoolMove.running (hm : ThpoolMove nThreads s pc e s' pc') :
    e.pulledWork ++ pc.running = e.finishedWork ++ pc'.running := by
  cases hm with
  | test => split <;> rfl
  | recheck => split <;> rfl
  | pull => split <;> rfl
  | uncount => split <;> rfl
  | len => split <;> rfl
  | alive => split <;> rfl
  | _ => rfl

theorem thpool_once (h : ThpoolRun nThreads nCallers created prev ls t) :
    (worksOf PoolAct.pulledWork ls : Multiset J) = worksOf PoolAct.finishedWork ls +
      total (fun pc => (pc.running : Multiset J)) t.pcs (nThreads + nCallers) := by
  refine System.run_balance (w := fun pc : Pc J => (pc.running : Multiset J))
    (l := fun ls _ => (worksOf PoolAct.pulledWork ls : Multiset J))
    (r := fun ls _ => (worksOf PoolAct.finishedWork ls : Multiset J)) h ?_ ?_ ?_
  · refine (add_zero _).symm.trans (congrArg _ (total_eq_zero fun i _ => ?_).symm)
    rcases thpoolCreated_pcs created prev i with hpc | hpc | hpc <;>
      rw [hpc] <;> rfl
  · intro ls s i e s' a a' hm
    have hrun : (e.pulledWork : Multiset J) + a.running = e.finishedWork + a'.running := by
      simp only [Multiset.coe_add, hm.running]
    simp only [worksOf_snoc, ← Multiset.coe_add]
    calc (worksOf PoolAct.pulledWork ls : Multiset J) + e.pulledWork +
          (worksOf PoolAct.finishedWork ls + a.running)
        = worksOf PoolAct.pulledWork ls + (worksOf PoolAct.finishedWork ls +
            (e.pulledWork + a.running)) := by abel
      _ = worksOf PoolAct.pulledWork ls + (worksOf PoolAct.finishedWork ls + e.finishedWork +
            a'.running) := by rw [hrun, add_assoc]
  · intro e b b' hmv
    rcases wake_moves hmv with ⟨rfl, rfl⟩ | ⟨rfl, rfl⟩ <;> rfl

/-- What leaves the queue is run or given up. -/
theorem worksOf_takenWork (ls : List (Nat × PoolAct J)) : (worksOf PoolAct.takenWork ls : Multiset J) =
    worksOf PoolAct.pulledWork ls + worksOf PoolAct.discardedWork ls := by
  induction ls with
  | nil => rfl
  | cons e ls ih =>
    have hone : e.2.takenWork = e.2.pulledWork ++ e.2.discardedWork := by
      cases e.2 <;> simp [PoolAct.takenWork, PoolAct.pulledWork, PoolAct.discardedWork]
    simp only [worksOf, List.flatMap_cons, hone, ← Multiset.coe_add] at ih ⊢
    rw [ih]
    abel

theorem worksOf_takenWork_eq (h : worksOf PoolAct.discardedWork ls = []) :
    worksOf PoolAct.takenWork ls = worksOf PoolAct.pulledWork ls := by
  induction ls with
  | nil => rfl
  | cons e ls ih =>
    simp only [worksOf, List.flatMap_cons, List.append_eq_nil_iff] at h ih ⊢
    rw [ih h.2]
    refine congrArg (· ++ _) ?_
    cases he : e.2 <;> simp_all [PoolAct.takenWork, PoolAct.pulledWork, PoolAct.discardedWork]

/-- Under every interleaving, no job is lost, run twice, overtaken or freed too early. -/
theorem thpool_jobsKept (h : ThpoolRun nThreads nCallers created prev ls t) :
    JobsKept ls t (nThreads + nCallers) :=
  ⟨thpool_order h, thpool_once h, (thpool_memory h).2⟩

theorem thpool_jobsKept_waited : ∃ ls s,
    ThpoolRun 1 1 (fun _ => true) (fun _ => none) ls ⟨s, onePcs .asleep .idle⟩ ∧
      JobsKept ls ⟨s, onePcs .asleep .idle⟩ 2 := by
  obtain ⟨s, h, -⟩ := onePool_waited
  exact ⟨_, s, h.run, thpool_jobsKept h.run⟩

end Jobs

end Silksocks
