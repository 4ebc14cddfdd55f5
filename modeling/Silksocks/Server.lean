import Silksocks.Descriptors
import Silksocks.ThpoolLocks

/-! The server: `main`, the thread pool and the sessions.  `main` accepts clients and adds a session
of each to the pool, whose workers run them.  Seen from outside, this is the process that starts a
session for each client, with at most as many sessions under way as the pool has threads. -/

namespace Silksocks

open Program Threads

/-- A session, as far as it has come. -/
abbrev SessionThread : Type := Thread Int Call.Result (Option Int)

/-- The process.  The work of a job is the place of its session in `accepted`, the sessions in the
order in which their clients were accepted; `pending` is that of a client that `main` has accepted
and not added to the pool yet. -/
structure Server where
  pool : State (Thpool Nat) (Pc Nat)
  fds : List Int
  accepted : List SessionThread
  pending : Option Nat

inductive ServerAct
  | accept (fd : Int)
  | acceptFail
  | addFail
  | pool (e : Nat × PoolAct Nat)
  | session (k : Nat) (e : SessionEvent)

/-- The moves of the thread pool in a step of the process. -/
def ServerAct.poolActs : ServerAct → List (Nat × PoolAct Nat)
  | pool e => [e]
  | _ => []

/-- A step of the process.  `main` is the one caller of the pool, and never destroys it. -/
inductive ServerStep (nThreads : Nat) : Server → ServerAct → Server → Prop
  | accept {s : Server} {fd : Int} (hidle : s.pool.pcs nThreads = .idle)
    (hready : s.pool.shared.ready = true) (hpending : s.pending = none)
    (hfd : LowestFree s.fds fd) :
    ServerStep nThreads s (.accept fd)
      { s with
        fds := fd :: s.fds
        accepted := s.accepted ++ [⟨fd, [], socks5Run fd⟩]
        pending := some s.accepted.length }
  -- `main` tries again
  | acceptFail {s : Server} (hpending : s.pending = none) : ServerStep nThreads s .acceptFail s
  -- `main` does not look at what `thpool_add_work` returns
  | addFail {s : Server} (hpending : s.pending.isSome = true) :
    ServerStep nThreads s .addFail { s with pending := none }
  | add {s : Server} {t : State (Thpool Nat) (Pc Nat)} {job k : Nat} (hpending : s.pending = some k)
    (hstep : (thpool Nat nThreads).Step ThpoolContract (nThreads + 1) s.pool (nThreads, .call) t)
    (hadd : t.pcs nThreads = .add job k) :
    ServerStep nThreads s (.pool (nThreads, .call)) { s with pool := t, pending := none }
  | pool {s : Server} {e : Nat × PoolAct Nat} {t : State (Thpool Nat) (Pc Nat)}
    (hstep : (thpool Nat nThreads).Step ThpoolContract (nThreads + 1) s.pool e t)
    (hcall : e.2 ≠ .call ∧ e.2 ≠ .callWait ∧ e.2 ≠ .callDestroy)
    -- a job is finished when its session has ended
    (hdone : ∀ k, e.2 = .finished k → ∃ th st, s.accepted[k]? = some th ∧ th.prog = .done st) :
    ServerStep nThreads s (.pool e) { s with pool := t }
  | session {s : Server} {i job k : Nat} {a : Int} {t : List SessionEvent} {c : Call}
    {next : c.Result → Session (Option Int)} {r : c.Result} {fds : List Int}
    (hrun : s.pool.pcs i = .run job k) (hi : i < nThreads + 1)
    (hth : s.accepted[k]? = some ⟨a, t, .call c next⟩) (hact : FdAct s.fds a ⟨c, r⟩ fds) :
    ServerStep nThreads s (.session k ⟨c, r⟩)
      { s with fds := fds, accepted := s.accepted.set k ⟨a, t ++ [⟨c, r⟩], next r⟩ }

/-- The process when `thpool_init` has created its threads and `fds` are open. -/
def serverInit (nThreads : Nat) (created : Nat → Bool) (prev : Nat → Option Nat)
    (fds : List Int) : Server where
  pool := thpoolCreated Nat nThreads created prev
  fds := fds
  accepted := []
  pending := none

abbrev ServerRun (nThreads : Nat) (created : Nat → Bool) (prev : Nat → Option Nat)
    (fds : List Int) (ls : List ServerAct) (s : Server) : Prop :=
  Lts.Run (ServerStep nThreads) (serverInit nThreads created prev fds) ls s

section Refines

variable {nThreads : Nat} {created : Nat → Bool} {prev : Nat → Option Nat} {fds : List Int}
  {ls : List ServerAct} {s : Server}

/-! ### The parts of the process -/

/-- The pool of the process runs as a pool of one caller. -/
theorem server_pool (h : ServerRun nThreads created prev fds ls s) :
    ThpoolRun nThreads 1 created prev (ls.flatMap ServerAct.poolActs) s.pool := by
  have hsim : ∃ t, ThpoolRun nThreads 1 created prev (ls.flatMap ServerAct.poolActs) t ∧
      s.pool = t := by
    refine h.simulates (R := fun s t => s.pool = t) rfl ?_
    rintro s1 l s2 t1 rfl hs
    cases hs with
    | accept | acceptFail | addFail | session => exact ⟨_, .nil, rfl⟩
    | add hpending hstep hadd => exact ⟨_, .single hstep, rfl⟩
    | pool hstep hcall hdone => exact ⟨_, .single hstep, rfl⟩
  obtain ⟨t, ht, rfl⟩ := hsim
  exact ht

/-- The sessions run as in the process that starts one for each client. -/
theorem server_sessions (h : ServerRun nThreads created prev fds ls s) :
    sessions.Reach Rules.Always fds ⟨s.fds, s.accepted⟩ := by
  refine h.invariant (I := fun _ s => sessions.Reach Rules.Always fds ⟨s.fds, s.accepted⟩)
    .init ?_
  intro ls s1 l s2 _ hreach hs
  cases hs with
  | acceptFail | addFail | add | pool => exact hreach
  | accept hidle hready hpending hfd => exact hreach.spawn ⟨hfd, rfl⟩
  | @session i job k a t c next r fds' hrun hi hth hact =>
    obtain ⟨hk, hget⟩ := List.getElem?_eq_some_iff.mp hth
    have hsplit : s1.accepted =
        s1.accepted.take k ++ ⟨a, t, .call c next⟩ :: s1.accepted.drop (k + 1) := by
      rw [← hget, ← List.drop_eq_getElem_cons hk, List.take_append_drop]
    refine hreach.step ?_
    rw [List.set_eq_take_append_cons_drop, if_pos hk]
    nth_rewrite 1 [hsplit]
    exact .act trivial hact

/-! ### The moves of the pool -/

section Moves

variable {J : Type} {n : Nat} {ps ps' : Thpool J} {pc pc' : Pc J} {e : PoolAct J}
  {t t' : State (Thpool J) (Pc J)} {l : Nat × PoolAct J}

theorem ThpoolMove.add_inv (hm : ThpoolMove n ps pc e ps' pc') (hcall : e ≠ .call) {job : Nat}
    {work : J} (hpc' : pc' = .add job work) : False := by
  cases hm with
  | test => split at hpc' <;> cases hpc'
  | recheck => split at hpc' <;> cases hpc'
  | pull => split at hpc' <;> cases hpc'
  | len => split at hpc' <;> cases hpc'
  | alive => split at hpc' <;> cases hpc'
  | addWork => exact hcall rfl
  | _ => cases hpc'

theorem ThpoolMove.idle_inv (hm : ThpoolMove n ps .idle e ps' pc')
    (hcall : e ≠ .call ∧ e ≠ .callWait ∧ e ≠ .callDestroy) : pc' = .idle := by
  cases hm with
  | init => rfl
  | addWork => exact absurd rfl hcall.1
  | waitWork => exact absurd rfl hcall.2.1
  | destroy => exact absurd rfl hcall.2.2

theorem ThpoolMove.pushed_inv {work : J} (hm : ThpoolMove n ps pc (.pushed work) ps' pc') :
    ∃ job, pc = .add job work := by
  generalize he : PoolAct.pushed work = e at hm
  cases hm with
  | uncount => split at he <;> cases he
  | len => split at he <;> cases he
  | push =>
    cases he
    exact ⟨_, rfl⟩
  | _ => cases he

variable {G : State (Thpool J) (Pc J) → Nat → PoolAct J → Prop} {m j : Nat}

/-- Only `.call` brings a thread to the push of a job. -/
theorem step_add {job : Nat} {work : J} (hs : (thpool J n).Step G m t l t') (hcall : l.2 ≠ .call)
    (hpc : t'.pcs j = .add job work) : j ≠ l.1 ∧ t.pcs j = .add job work := by
  obtain ⟨hi, hg, hm, hw⟩ := hs
  rename_i ps ps' f f' i a e
  dsimp only at hpc hcall ⊢
  have hupd : Function.update f i a j = .add job work := by
    rcases hw.moves j with he | hmv
    · exact he.symm.trans hpc
    · rcases wake_moves hmv with ⟨-, hb⟩ | ⟨-, hb⟩ <;> rw [hb] at hpc <;> cases hpc
  by_cases hj : j = i
  · subst hj
    rw [Function.update_self] at hupd
    exact (hm.add_inv hcall hupd).elim
  · rw [Function.update_of_ne hj] at hupd
    exact ⟨hj, hupd⟩

theorem step_idle (hs : (thpool J n).Step G m t l t')
    (hcall : l.2 ≠ .call ∧ l.2 ≠ .callWait ∧ l.2 ≠ .callDestroy) (hpc : t.pcs j = .idle) :
    t'.pcs j = .idle := by
  obtain ⟨hi, hg, hm, hw⟩ := hs
  rename_i ps ps' f f' i a e
  dsimp only at hpc hcall ⊢
  have hupd : Function.update f i a j = .idle := by
    by_cases hj : j = i
    · subst hj
      rw [hpc] at hm
      rw [Function.update_self]
      exact hm.idle_inv hcall
    · rwa [Function.update_of_ne hj]
  rcases hw.moves j with he | hmv
  · exact he.trans hupd
  · rw [hupd] at hmv
    rcases wake_moves hmv with ⟨hb, -⟩ | ⟨hb, -⟩ <;> cases hb

theorem step_pushed {work : J} (hs : (thpool J n).Step G m t l t') (hl : l.2 = .pushed work) :
    l.1 < m ∧ ∃ job, t.pcs l.1 = .add job work := by
  obtain ⟨hi, hg, hm, -⟩ := hs
  dsimp only at hl
  subst hl
  exact ⟨hi, hm.pushed_inv⟩

end Moves

/-! ### Sessions and jobs -/

/-- The sessions whose jobs have come as far as `f` tells, in this order. -/
def serverWorks (f : PoolAct Nat → List Nat) (ls : List ServerAct) : List Nat :=
  worksOf f (ls.flatMap ServerAct.poolActs)

@[simp] theorem serverWorks_nil (f : PoolAct Nat → List Nat) : serverWorks f [] = [] := rfl

theorem serverWorks_snoc (f : PoolAct Nat → List Nat) (l : ServerAct) :
    serverWorks f (ls ++ [l]) = serverWorks f ls ++ worksOf f l.poolActs := by
  simp [serverWorks, worksOf]

/-- The sessions are added to the pool in the order of the accepts, each one once, begin when their
jobs are pulled, and have ended when their jobs are finished. -/
structure SessionsKept (nThreads : Nat) (pushed pulled finished : List Nat) (s : Server) :
    Prop where
  order : pushed.Pairwise (· < ·)
  bound : ∀ k ∈ pushed, k < s.accepted.length
  pending : ∀ k, s.pending = some k → s.pool.pcs nThreads = .idle ∧ k < s.accepted.length ∧
    ∀ j ∈ pushed, j < k
  adding : ∀ job k, s.pool.pcs nThreads = .add job k → s.pending = none ∧ k < s.accepted.length ∧
    ∀ j ∈ pushed, j < k
  begun : ∀ k th, s.accepted[k]? = some th → th.trace ≠ [] → k ∈ pulled
  ended : ∀ k ∈ finished,
    ∃ th st, s.accepted[k]? = some th ∧ th.prog = .done st

namespace SessionsKept

variable {pushed pulled finished : List Nat}

theorem accept (h : SessionsKept nThreads pushed pulled finished s)
    (hidle : s.pool.pcs nThreads = .idle) (fd : Int) : SessionsKept nThreads pushed pulled finished
      { s with
        fds := fd :: s.fds
        accepted := s.accepted ++ [⟨fd, [], socks5Run fd⟩]
        pending := some s.accepted.length } where
  order := h.order
  bound k hk := by
    rw [List.length_append]
    exact Nat.lt_add_right _ (h.bound k hk)
  pending k hk := by
    cases hk
    exact ⟨hidle, by simp, h.bound⟩
  adding job k hadd := by cases hadd.symm.trans hidle
  begun k th hth hne := by
    rcases List.getElem?_append .. ▸ hth with hth
    split at hth
    · exact h.begun k th hth hne
    · obtain rfl := List.mem_singleton.mp (List.mem_of_getElem? hth)
      exact absurd rfl hne
  ended k hk := by
    obtain ⟨th, st, hth, hst⟩ := h.ended k hk
    exact ⟨th, st, by rwa [List.getElem?_append_left (List.getElem?_eq_some_iff.mp hth).1], hst⟩

theorem addFail (h : SessionsKept nThreads pushed pulled finished s) :
    SessionsKept nThreads pushed pulled finished { s with pending := none } where
  order := h.order
  bound := h.bound
  pending := nofun
  adding job k hadd := ⟨rfl, (h.adding job k hadd).2⟩
  begun := h.begun
  ended := h.ended

theorem session (h : SessionsKept nThreads pushed pulled finished s) {k : Nat} {a : Int}
    {t t' : List SessionEvent} {c : Call} {next : c.Result → Session (Option Int)}
    {prog : Session (Option Int)}
    (hk : k ∈ pulled) (hth : s.accepted[k]? = some ⟨a, t, .call c next⟩)
    (fds : List Int) : SessionsKept nThreads pushed pulled finished
      { s with fds := fds, accepted := s.accepted.set k ⟨a, t', prog⟩ } where
  order := h.order
  bound j hj := by
    rw [List.length_set]
    exact h.bound j hj
  pending j hj := by
    rw [List.length_set]
    exact h.pending j hj
  adding job j hadd := by
    rw [List.length_set]
    exact h.adding job j hadd
  begun j th hj hne := by
    by_cases hkj : k = j
    · exact hkj ▸ hk
    · rw [List.getElem?_set_ne hkj] at hj
      exact h.begun j th hj hne
  ended j hj := by
    obtain ⟨th, st, hthj, hst⟩ := h.ended j hj
    have hkj : k ≠ j := by
      rintro rfl
      rw [hth] at hthj
      cases hthj
      cases hst
    exact ⟨th, st, by rwa [List.getElem?_set_ne hkj], hst⟩

theorem add (h : SessionsKept nThreads pushed pulled finished s)
    {t : State (Thpool Nat) (Pc Nat)} {job k : Nat} (hpending : s.pending = some k)
    (hadd : t.pcs nThreads = .add job k) :
    SessionsKept nThreads pushed pulled finished { s with pool := t, pending := none } where
  order := h.order
  bound := h.bound
  pending := nofun
  adding job' k' hadd' := by
    cases hadd.symm.trans hadd'
    exact ⟨rfl, (h.pending k hpending).2⟩
  begun := h.begun
  ended := h.ended

end SessionsKept

theorem server_keepalive (h : ServerRun nThreads created prev fds ls s) :
    s.pool.shared.threadsKeepalive = true := by
  refine h.invariant (I := fun _ s => s.pool.shared.threadsKeepalive = true) rfl ?_
  intro ls s1 l s2 _ hkeep hs
  have hstep {l : Nat × PoolAct Nat} {t : State (Thpool Nat) (Pc Nat)}
      (hs : (thpool Nat nThreads).Step ThpoolContract (nThreads + 1) s1.pool l t)
      (hl : l.2 ≠ .callDestroy) : t.shared.threadsKeepalive = true := by
    generalize s1.pool = t1 at hkeep hs
    obtain ⟨-, -, hm, -⟩ := hs
    exact (hm.keepalive_eq.resolve_right fun hend => hl hend.1).trans hkeep
  cases hs with
  | accept | acceptFail | addFail | session => exact hkeep
  | add hpending hs hadd => exact hstep hs nofun
  | pool hs hcall hdone => exact hstep hs hcall.2.2

/-- A session that a worker runs has been pulled. -/
theorem server_running (h : ServerRun nThreads created prev fds ls s) {i job k : Nat}
    (hi : i < nThreads + 1) (hrun : s.pool.pcs i = .run job k) :
    k ∈ serverWorks PoolAct.pulledWork ls := by
  have honce := thpool_once (server_pool h)
  have hle := Finset.single_le_sum (f := fun i => ((s.pool.pcs i).running : Multiset Nat))
    (fun _ _ => Multiset.zero_le _) (Finset.mem_range.mpr hi)
  have hmem : k ∈ ((s.pool.pcs i).running : Multiset Nat) := by
    rw [hrun]
    simp [Pc.running]
  rw [← Multiset.mem_coe, serverWorks, honce]
  exact Multiset.mem_add.mpr (.inr (Multiset.mem_of_le hle hmem))

theorem SessionsKept.pool {l : Nat × PoolAct Nat} {t : State (Thpool Nat) (Pc Nat)}
    {pushed pulled finished : List Nat} (h : SessionsKept nThreads pushed pulled finished s)
    (hworker : ∀ i, (s.pool.pcs i).isWorker = true ↔ i < nThreads)
    (hs : (thpool Nat nThreads).Step ThpoolContract (nThreads + 1) s.pool l t)
    (hcall : l.2 ≠ .call ∧ l.2 ≠ .callWait ∧ l.2 ≠ .callDestroy)
    (hdone : ∀ k, l.2 = .finished k → ∃ th st, s.accepted[k]? = some th ∧ th.prog = .done st) :
    SessionsKept nThreads (pushed ++ l.2.pushedWork) (pulled ++ l.2.pulledWork)
      (finished ++ l.2.finishedWork) { s with pool := t } := by
  -- what is pushed is what `main` was adding
  have hpush (k : Nat) (hk : k ∈ l.2.pushedWork) :
      l.1 = nThreads ∧ ∃ job, s.pool.pcs nThreads = .add job k := by
    have hl : l.2 = .pushed k := by
      cases he : l.2 <;> rw [he] at hk <;> simp_all [PoolAct.pushedWork]
    obtain ⟨hlt, job, hadd⟩ := step_pushed hs hl
    have hmain : l.1 = nThreads := by
      have hno : ¬ l.1 < nThreads := fun hlt => by
        have hw := (hworker l.1).mpr hlt
        rw [hadd] at hw
        cases hw
      omega
    exact ⟨hmain, job, hmain ▸ hadd⟩
  refine ⟨?_, ?_, ?_, ?_, ?_, ?_⟩
  · refine List.pairwise_append.mpr ⟨h.order, ?_, fun j hj k hk => ?_⟩
    · cases l.2 <;> simp [PoolAct.pushedWork]
    · obtain ⟨-, job, hadd⟩ := hpush k hk
      exact (h.adding job k hadd).2.2 j hj
  · intro k hk
    rcases List.mem_append.mp hk with hk | hk
    · exact h.bound k hk
    · obtain ⟨-, job, hadd⟩ := hpush k hk
      exact (h.adding job k hadd).2.1
  · intro k hk
    obtain ⟨hidle, hlt, hbound⟩ := h.pending k hk
    refine ⟨step_idle hs hcall hidle, hlt, fun j hj => ?_⟩
    rcases List.mem_append.mp hj with hj | hj
    · exact hbound j hj
    · obtain ⟨-, job, hadd⟩ := hpush j hj
      cases hadd.symm.trans hidle
  · intro job k hadd
    obtain ⟨hne, hadd⟩ := step_add hs hcall.1 hadd
    obtain ⟨hpending, hlt, hbound⟩ := h.adding job k hadd
    refine ⟨hpending, hlt, fun j hj => ?_⟩
    rcases List.mem_append.mp hj with hj | hj
    · exact hbound j hj
    · exact absurd (hpush j hj).1.symm hne
  · exact fun k th hth hne => List.mem_append_left _ (h.begun k th hth hne)
  · intro k hk
    rcases List.mem_append.mp hk with hk | hk
    · exact h.ended k hk
    · refine hdone k ?_
      cases he : l.2 <;> rw [he] at hk <;> simp_all [PoolAct.finishedWork]

theorem server_sessionsKept (h : ServerRun nThreads created prev fds ls s) :
    SessionsKept nThreads (serverWorks PoolAct.pushedWork ls) (serverWorks PoolAct.pulledWork ls)
      (serverWorks PoolAct.finishedWork ls) s := by
  refine h.invariant (I := fun ls s => SessionsKept nThreads (serverWorks PoolAct.pushedWork ls)
    (serverWorks PoolAct.pulledWork ls) (serverWorks PoolAct.finishedWork ls) s) ?_ ?_
  · refine ⟨.nil, nofun, nofun, fun job k hpc => ?_, nofun, nofun⟩
    have hidle : (thpoolCreated Nat nThreads created prev).pcs nThreads = .idle :=
      if_neg (Nat.lt_irrefl _)
    cases hpc.symm.trans hidle
  intro ls s1 l s2 hrun hI hs
  rw [serverWorks_snoc, serverWorks_snoc, serverWorks_snoc]
  cases hs with
  | accept hidle hready hpending hfd =>
    simpa [ServerAct.poolActs] using hI.accept hidle _
  | acceptFail hpending => simpa [ServerAct.poolActs] using hI
  | addFail hpending => simpa [ServerAct.poolActs] using hI.addFail
  | add hpending hs hadd =>
    simpa [ServerAct.poolActs, worksOf, PoolAct.pushedWork, PoolAct.pulledWork,
      PoolAct.finishedWork] using hI.add hpending hadd
  | pool hs hcall hdone =>
    simpa [ServerAct.poolActs, worksOf] using
      hI.pool (thpool_isWorker (server_pool hrun)) hs hcall hdone
  | session hpc hi hth hact =>
    simpa [ServerAct.poolActs] using hI.session (server_running hrun hi hpc) hth _

/-- The sessions that have been pulled come in the order of the accepts. -/
theorem server_pulled (h : ServerRun nThreads created prev fds ls s) :
    (serverWorks PoolAct.pulledWork ls).Pairwise (· < ·) := by
  have hpool := server_pool h
  have horder := thpool_order hpool
  rw [worksOf_takenWork_eq (thpool_discardedWork hpool (server_keepalive h))] at horder
  refine (server_sessionsKept h).order.sublist ?_
  rw [serverWorks, serverWorks, horder]
  exact List.sublist_append_left ..

/-- A session that has begun and not ended. -/
def UnderWay (th : SessionThread) : Prop := th.trace ≠ [] ∧ ∀ st, th.prog ≠ .done st

/-- Sessions under way are those that workers run. -/
theorem server_underWay (h : ServerRun nThreads created prev fds ls s) {k : Nat}
    {th : SessionThread} (hth : s.accepted[k]? = some th) (hway : UnderWay th) :
    k ∈ total (fun pc : Pc Nat => (pc.running : Multiset Nat)) s.pool.pcs (nThreads + 1) := by
  have hkept := server_sessionsKept h
  have hpulled : k ∈ (serverWorks PoolAct.pulledWork ls : Multiset Nat) :=
    hkept.begun k th hth hway.1
  rw [serverWorks, thpool_once (server_pool h)] at hpulled
  refine (Multiset.mem_add.mp hpulled).resolve_left fun hfinished => ?_
  obtain ⟨th', st, hth', hst⟩ := hkept.ended k hfinished
  cases hth.symm.trans hth'
  exact hway.2 st hst

/-- A session has one worker. -/
theorem server_worker (h : ServerRun nThreads created prev fds ls s) {i j k job job' : Nat}
    (hi : i < nThreads + 1) (hj : j < nThreads + 1) (hpi : s.pool.pcs i = .run job k)
    (hpj : s.pool.pcs j = .run job' k) : i = j := by
  by_contra hne
  have hnodup : (serverWorks PoolAct.pulledWork ls).Nodup :=
    (server_pulled h).imp fun hlt => Nat.ne_of_lt hlt
  have hone := List.nodup_iff_count_le_one.mp hnodup k
  have hcount := congrArg (Multiset.count k) (thpool_once (server_pool h))
  have htotal := map_total (Multiset.countAddMonoidHom k)
    (fun pc : Pc Nat => (pc.running : Multiset Nat)) s.pool.pcs (nThreads + 1)
  have htwo := add_le_total (f := s.pool.pcs)
    (w := fun pc : Pc Nat => (pc.running : Multiset Nat).count k) hi hj hne
  have hrun {i job : Nat} (hpc : s.pool.pcs i = .run job k) :
      ((s.pool.pcs i).running : Multiset Nat).count k = 1 := by
    rw [hpc]
    exact Multiset.count_singleton_self k
  rw [hrun hpi, hrun hpj] at htwo
  rw [Multiset.coe_count, Multiset.count_add] at hcount
  simp only [Multiset.coe_countAddMonoidHom] at htotal
  rw [serverWorks] at hone
  omega

end Refines

end Silksocks
