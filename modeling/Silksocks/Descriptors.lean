import Silksocks.Lib.Pool
import Silksocks.SocksCalls

/-! The descriptors of any number of sessions at once.  A session owns the descriptor that it was
started with and those that `socket` returned to it, until it closes them.  A session that has
obtained a socket closes what it owns and nothing else; one that ends without a socket closes the
descriptor 0 or -1 in its place. -/

namespace Silksocks

open Program Prog

/-- A call that neither opens nor closes a descriptor. -/
def Call.Quiet : Call → Prop
  | socket | close _ => False
  | _ => True

/-- The descriptors that a session owns after a call. -/
def ownedAfter (fds : List Int) : SessionEvent → List Int
  | ⟨.socket, fd⟩ => if fd = -1 then fds else fd :: fds
  | ⟨.close fd, _⟩ => fds.erase fd
  | _ => fds

/-- The descriptors that the session of `clientfd` owns after the calls `t`. -/
def owned (clientfd : Int) (t : List SessionEvent) : List Int := t.foldl ownedAfter [clientfd]

/-- Every descriptor that a session closes is one that it owns at this moment. -/
def ClosesOwned (clientfd : Int) (t : List SessionEvent) : Prop :=
  ∀ before fd after, t = before ++ ⟨.close fd, ()⟩ :: after → fd ∈ owned clientfd before

/-- The session has obtained a socket. -/
def GotSocket (t : List SessionEvent) : Prop := ∃ fd : Int, fd ≠ -1 ∧ ⟨.socket, fd⟩ ∈ t

/-! ### One session -/

section Session

variable {fd : Int} {t t' : List SessionEvent}

@[simp] theorem owned_nil : owned fd [] = [fd] := rfl

@[simp] theorem owned_snoc (e : SessionEvent) :
    owned fd (t ++ [e]) = ownedAfter (owned fd t) e := by
  simp [owned]

theorem ownedAfter_quiet {fds : List Int} {e : SessionEvent} (h : e.call.Quiet) :
    ownedAfter fds e = fds := by
  obtain ⟨c, r⟩ := e
  cases c <;> first | rfl | exact h.elim

theorem gotSocket_quiet {e : SessionEvent} (h : e.call.Quiet) :
    GotSocket (t ++ [e]) ↔ GotSocket t := by
  obtain ⟨c, r⟩ := e
  unfold GotSocket
  cases c <;> first | exact h.elim | simp

end Session

/-! ### Quiet functions -/

section Quiet

attribute [local simp] call readByte readInto writen Option.forall

theorem Call.Reads.quiet {fd : Int} {c : Call} (h : c.Reads fd) : c.Quiet := by
  cases c <;> trivial

theorem socks5Choosemethod_quiet (client : Socks5Cli) :
    (socks5Choosemethod client).All Call.Quiet := by
  refine (socks5Choosemethod_all client).mono fun c hc => ?_
  rcases hc with hc | ⟨m, rfl⟩
  · exact hc.quiet
  · trivial

theorem socks5Readrequest_quiet (client : Socks5Cli) :
    (socks5Readrequest client).All Call.Quiet := by
  refine (socks5Readrequest_all client).mono fun c hc => ?_
  rcases hc with hc | hc
  · exact hc.quiet
  · cases c <;> trivial

theorem socks5Writereply_quiet (client : Socks5Cli) (status : Int) :
    (socks5Writereply client status).All Call.Quiet := by
  refine (socks5Writereply_all client status).mono fun c hc => ?_
  rcases hc with rfl | ⟨atyp, b, rfl⟩ <;> trivial

theorem Call.Upstream.quiet {fd : Int} {c : Call} (h : c.Upstream fd) : c.Quiet := by
  rcases h with h | ⟨peer, rfl⟩ | ⟨b, rfl, -⟩ | h
  · exact h.quiet
  · trivial
  · trivial
  · cases c <;> trivial

theorem authenticate_quiet (client : Socks5Cli) (method : UInt8) :
    (authenticate client method).All Call.Quiet := by
  refine (authenticate_all client method).mono fun c hc => ?_
  rcases hc with (hc | rfl) | hc | hc
  · exact hc.quiet
  · trivial
  · cases c <;> trivial
  · cases c <;> trivial

end Quiet

/-! ### What a session owns -/

/-- A session that has only its client's descriptor. -/
def Idle (clientfd : Int) (t : List SessionEvent) : Prop :=
  owned clientfd t = [clientfd] ∧ ¬ GotSocket t

/-- A session that also has the socket in `proxyfd`. -/
def Connected (clientfd proxyfd : Int) (t : List SessionEvent) : Prop :=
  owned clientfd t = [proxyfd, clientfd] ∧ GotSocket t

/-- What `client` says about the descriptors of its session. -/
def Held (clientfd : Int) (t : List SessionEvent) (client : Socks5Cli) : Prop :=
  client.clientfd = clientfd ∧ (Idle clientfd t ∨ Connected clientfd client.proxyfd t)

/-- The contract that only records the calls, none of which may close a descriptor. -/
abbrev openContract : Contract (List SessionEvent) Call.Result :=
  .history (fun _ c => ∀ fd, c ≠ .close fd) fun _ => True

section Held

variable {α : Type} {fd : Int} {t : List SessionEvent} {client : Socks5Cli}

theorem Idle.quiet {e : SessionEvent} (he : e.call.Quiet) (h : Idle fd t) : Idle fd (t ++ [e]) := by
  rw [Idle, owned_snoc, ownedAfter_quiet he, gotSocket_quiet he]
  exact h

theorem Held.quiet {e : SessionEvent} (he : e.call.Quiet) (h : Held fd t client) :
    Held fd (t ++ [e]) client := by
  rw [Held, Idle, Connected, owned_snoc, ownedAfter_quiet he, gotSocket_quiet he]
  exact h

theorem not_close_of_quiet {c : Call} (h : c.Quiet) (fd : Int) : c ≠ .close fd := by
  rintro rfl
  exact h

theorem wp_of_quiet {I : List SessionEvent → Prop} {p : Session α} {P : α → Prop}
    {Q : List SessionEvent → α → Prop} (hI : ∀ t e, e.call.Quiet → I t → I (t ++ [e]))
    (hp : p.All Call.Quiet) (hends : p.Ends P) (h : I t) (hQ : ∀ t a, I t → P a → Q t a) :
    openContract.wp Q t p :=
  Contract.wp_of_all_ends hp hends h (fun _ _ _ hc => not_close_of_quiet hc)
    (fun t e h hc => hI t e hc h) hQ

theorem socks5Connectproxy_held (hclient : client.clientfd = fd) (h : Idle fd t) :
    openContract.wp (fun t r => Held fd t r.2) t (socks5Connectproxy client) := by
  obtain ⟨rest, hrest, hall⟩ := socks5Connectproxy_all client
  rw [hrest]
  refine ⟨nofun, fun (proxyfd : Int) _ => ?_⟩
  obtain ⟨hquiet, hends⟩ := hall proxyfd
  have hheld : Held fd (t ++ [⟨.socket, proxyfd⟩]) { client with proxyfd } := by
    refine ⟨hclient, ?_⟩
    by_cases hfd : proxyfd = -1
    · refine .inl ⟨by simp [h.1, ownedAfter, hfd], ?_⟩
      rintro ⟨fd', hne, hmem⟩
      rcases List.mem_append.mp hmem with hmem | hmem
      · exact h.2 ⟨fd', hne, hmem⟩
      · have heq : fd' = proxyfd := by simpa using hmem
        exact hne (heq.trans hfd)
    · exact .inr ⟨by simp [h.1, ownedAfter, hfd], proxyfd, hfd, by simp⟩
  exact wp_of_quiet (fun _ _ => Held.quiet) (hquiet.mono fun _ => Call.Upstream.quiet) hends hheld
    fun t r h hr => hr ▸ h

theorem serveRequest_held (hclient : client.clientfd = fd) (h : Idle fd t) :
    openContract.wp (fun t r => Held fd t r.2) t (serveRequest client) := by
  unfold serveRequest
  split
  · rw [noted_eq]
    refine ⟨nofun, fun _ _ => Contract.wp_bind.mpr ?_⟩
    have hconnect :=
      socks5Connectproxy_held hclient (h.quiet (e := ⟨.enter .connectproxy, ()⟩) trivial)
    refine Contract.wp_bind.mpr (Contract.wp_mono hconnect fun t r hr => ⟨nofun, fun _ _ => ?_⟩)
    have hleave := hr.quiet (e := ⟨.leave .connectproxy r.1, ()⟩) trivial
    have hreply := socks5Writereply_quiet r.2 r.1
    refine Contract.wp_done.mpr (wp_of_quiet (I := fun t => Held fd t r.2)
      (P := fun r' => r'.2 = r.2) (fun _ _ => Held.quiet) ?_ ?_ hleave fun t r' h hr' => hr' ▸ h)
    · refine all_ite.mpr ⟨fun _ => hreply.bind fun _ => all_done, fun _ => hreply.bind fun _ => ?_⟩
      simp [call, Call.Quiet]
    · refine ends_ite.mpr ⟨fun _ => ends_bind_of_forall fun _ => rfl, fun _ => ?_⟩
      refine ends_bind_of_forall fun _ => ?_
      simp [call]
  · exact ⟨hclient, .inl h⟩

theorem serve_held (fd : Int) :
    openContract.wp (fun t r => Held fd t r.2) [] (serve (.start fd)) := by
  have hstart : Idle fd [] := ⟨rfl, by simp [GotSocket]⟩
  simp only [serve, call, call_bind, done_bind, pure_eq]
  refine ⟨nofun, fun peer _ => ?_⟩
  have hpeer : Idle fd ([] ++ [⟨.getpeername fd, peer⟩]) := hstart.quiet trivial
  cases peer with
  | false => exact ⟨rfl, .inl hpeer⟩
  | true =>
  refine Contract.wp_bind.mpr (wp_of_quiet (fun _ _ => Idle.quiet)
    (noted_all (socks5Choosemethod_quiet _) trivial fun _ => trivial) ends_true hpeer
    fun t r h _ => ?_)
  split
  · exact ⟨rfl, .inl h⟩
  refine Contract.wp_bind.mpr (wp_of_quiet (fun _ _ => Idle.quiet)
    (authenticate_quiet _ _) (authenticate_sameFds _ _) h fun t r h hr => ?_)
  split
  · exact ⟨hr.1, .inl h⟩
  refine Contract.wp_bind.mpr (wp_of_quiet (fun _ _ => Idle.quiet)
    (noted_all (socks5Readrequest_quiet _) trivial fun _ => trivial)
    (noted_ends (socks5Readrequest_sameFds _)) h
    fun t r' h hr' => ?_)
  split
  · exact ⟨hr'.1.trans hr.1, .inl h⟩
  refine Contract.wp_bind.mpr (Contract.wp_mono (serveRequest_held (hr'.1.trans hr.1) h) ?_)
  exact fun _ _ h => h

end Held

/-! ### What a session closes -/

section Closes

variable {fd : Int} {t : List SessionEvent} {q : Session (Option Int)}

theorem closesOwned_snoc {e : SessionEvent} :
    ClosesOwned fd (t ++ [e]) ↔
      ClosesOwned fd t ∧ ∀ d, e.call = .close d → d ∈ owned fd t := by
  constructor
  · intro h
    refine ⟨fun before d after ht => h before d (after ++ [e]) (by simp [ht]), fun d hd => ?_⟩
    obtain ⟨c, r⟩ := e
    cases hd
    exact h t d [] rfl
  · rintro ⟨h, hlast⟩ before d after ht
    rcases List.eq_nil_or_concat after with rfl | ⟨after, e', rfl⟩
    · obtain ⟨rfl, he⟩ := List.append_inj' ht rfl
      cases he
      exact hlast d rfl
    · rw [List.concat_eq_append, ← List.cons_append, ← List.append_assoc] at ht
      obtain ⟨rfl, -⟩ := List.append_inj' ht rfl
      exact h before d after rfl

theorem closesOwned_of_no_close (h : ∀ e ∈ t, ∀ d, e.call ≠ .close d) : ClosesOwned fd t := by
  rintro before d after rfl
  exact absurd rfl (h _ (List.mem_append_right _ List.mem_cons_self) d)

/-- A session is in `serve`, which closes nothing, or has closed its client's descriptor, and in the
end also the one in `proxyfd`. -/
theorem socks5Run_runs (h : Runs (socks5Run fd) t q) :
    ((∀ e ∈ t, ∀ d, e.call ≠ .close d) ∧ ∀ st, q ≠ .done st) ∨
    ∃ t1 client, (∀ e ∈ t1, ∀ d, e.call ≠ .close d) ∧ Held fd t1 client ∧
      (t = t1 ++ [⟨.close fd, ()⟩] ∧ (∀ st, q ≠ .done st) ∨
        t = t1 ++ [⟨.close fd, ()⟩] ++ [⟨.close client.proxyfd, ()⟩] ∧ ∃ st, q = .done st) := by
  have hserve : ∀ {t p}, Runs (serve (.start fd)) t p → ∀ e ∈ t, ∀ d, e.call ≠ .close d := by
    intro t p hrun e he
    obtain ⟨before, after, rfl⟩ := List.append_of_mem he
    exact Contract.history_demand (serve_held fd) hrun fun _ _ => trivial
  rcases h.of_bind with ⟨c, next, hrun, rfl⟩ | ⟨⟨st, client⟩, t1, t2, rfl, hrun, h⟩
  · exact .inl ⟨hserve hrun, nofun⟩
  · have hheld := Contract.history_runs (serve_held fd) hrun fun _ _ => trivial
    have hfd : client.clientfd = fd := hheld.1
    cases h with
    | nil => exact .inl ⟨by simpa using hserve hrun, nofun⟩
    | cons h =>
    refine .inr ⟨t1, client, hserve hrun, hheld, ?_⟩
    cases h with
    | nil => exact .inl ⟨by simp [hfd], nofun⟩
    | cons h =>
    obtain ⟨rfl, rfl⟩ := runs_done.mp h
    exact .inr ⟨by simp [hfd], st, rfl⟩

theorem erase_pair (a b : Int) : [a, b].erase b = [a] := by
  by_cases h : a = b <;> simp [h]

/-- What is left when a session has closed its client's descriptor. -/
theorem Held.closed {client : Socks5Cli} (h : Held fd t client) :
    owned fd (t ++ [⟨.close fd, ()⟩]) = [] ∧ ¬ GotSocket t ∨
      owned fd (t ++ [⟨.close fd, ()⟩]) = [client.proxyfd] ∧ GotSocket t := by
  rcases h.2 with ⟨howned, hsocket⟩ | ⟨howned, hsocket⟩
  · exact .inl ⟨by simp [howned, ownedAfter], hsocket⟩
  · exact .inr ⟨by rw [owned_snoc, howned, ownedAfter, erase_pair], hsocket⟩

theorem gotSocket_close {d : Int} : GotSocket (t ++ [⟨.close d, ()⟩]) ↔ GotSocket t := by
  simp [GotSocket]

/-- A session closes what it owns, unless it ends without having obtained a socket. -/
theorem socks5Run_closes (h : Runs (socks5Run fd) t q) :
    ClosesOwned fd t ↔ ∀ st, q = .done st → GotSocket t := by
  have hclient : ∀ {t client}, (∀ e ∈ t, ∀ d, e.call ≠ .close d) → Held fd t client →
      ClosesOwned fd (t ++ [⟨.close fd, ()⟩]) := by
    intro t client hno hheld
    refine closesOwned_snoc.mpr ⟨closesOwned_of_no_close hno, ?_⟩
    rintro d ⟨⟩
    rcases hheld.2 with ⟨howned, -⟩ | ⟨howned, -⟩ <;> simp [howned]
  rcases socks5Run_runs h with ⟨hno, hq⟩ | ⟨t1, client, hno, hheld, ⟨rfl, hq⟩ | ⟨rfl, st, rfl⟩⟩
  · exact ⟨fun _ st hst => absurd hst (hq st), fun _ => closesOwned_of_no_close hno⟩
  · exact ⟨fun _ st hst => absurd hst (hq st), fun _ => hclient hno hheld⟩
  · rw [closesOwned_snoc, gotSocket_close, gotSocket_close]
    rcases hheld.closed with ⟨howned, hsocket⟩ | ⟨howned, hsocket⟩
    · simp [howned, hsocket]
    · simp [howned, hsocket, hclient hno hheld]

/-- A session that has obtained a socket owns nothing when it has ended. -/
theorem socks5Run_owned {st : Option Int} (h : Runs (socks5Run fd) t (.done st))
    (hsocket : GotSocket t) : owned fd t = [] := by
  rcases socks5Run_runs h with ⟨-, hq⟩ | ⟨t1, client, -, hheld, ⟨-, hq⟩ | ⟨rfl, -⟩⟩
  · exact absurd rfl (hq st)
  · exact absurd rfl (hq st)
  · rw [gotSocket_close, gotSocket_close] at hsocket
    rcases hheld.closed with ⟨-, hidle⟩ | ⟨howned, -⟩
    · exact absurd hsocket hidle
    · rw [owned_snoc, howned, ownedAfter, List.erase_cons_head]

end Closes

/-! ### All sessions -/

/-- The descriptor that `accept` and `socket` return when `fds` are open. -/
def LowestFree (fds : List Int) (fd : Int) : Prop :=
  0 ≤ fd ∧ fd ∉ fds ∧ ∀ d < fd.toNat, (d : Int) ∈ fds

instance (fds : List Int) (fd : Int) : Decidable (LowestFree fds fd) :=
  inferInstanceAs (Decidable (0 ≤ fd ∧ fd ∉ fds ∧ ∀ d < fd.toNat, (d : Int) ∈ fds))

/-- What the calls of a session do to the open descriptors. -/
inductive FdAct : List Int → Int → SessionEvent → List Int → Prop
  | socket {fds : List Int} {a fd : Int} (h : LowestFree fds fd) :
      FdAct fds a ⟨.socket, fd⟩ (fd :: fds)
  | nosocket {fds : List Int} {a : Int} : FdAct fds a ⟨.socket, (-1 : Int)⟩ fds
  | close {fds : List Int} {a d : Int} : FdAct fds a ⟨.close d, ()⟩ (fds.erase d)
  | other {fds : List Int} {a : Int} {e : SessionEvent} (h : e.call.Quiet) : FdAct fds a e fds

/-- The process: `main` accepts a client and starts a session for it. -/
def sessions : Rules (List Int) Int Call.Result (Option Int) where
  body := socks5Run
  spawn fds fd fds' := LowestFree fds fd ∧ fds' = fd :: fds
  act := FdAct

/-- The descriptors that the sessions own. -/
def allOwned (threads : List (Thread Int Call.Result (Option Int))) : List Int :=
  threads.flatMap fun th => owned th.arg th.trace

/-- The open descriptors are the initial ones and those that the sessions own, each once. -/
structure Tidy (init : List Int) (p : Pool (List Int) Int Call.Result (Option Int)) : Prop where
  nodup : p.shared.Nodup
  perm : p.shared.Perm (init ++ allOwned p.threads)

section Sessions

variable {init : List Int} {p : Pool (List Int) Int Call.Result (Option Int)}

theorem perm_allOwned (init : List Int) (before after : List (Thread Int Call.Result (Option Int)))
    (th : Thread Int Call.Result (Option Int)) :
    (init ++ allOwned (before ++ th :: after)).Perm
      (owned th.arg th.trace ++ (init ++ allOwned (before ++ after))) := by
  refine List.perm_iff_count.mpr fun d => ?_
  simp only [allOwned, List.flatMap_append, List.flatMap_cons, List.count_append]
  omega

theorem tidy_of_closesOwned (hinit : init.Nodup) (hp : sessions.Reach Rules.Always init p)
    (hcloses : ∀ th ∈ p.threads, ClosesOwned th.arg th.trace) : Tidy init p := by
  induction hp with
  | init => exact ⟨hinit, by simp [allOwned]⟩
  | step _ hs ih =>
    cases hs with
    | @spawn s s' ts a h =>
      obtain ⟨⟨-, hfree, -⟩, rfl⟩ := h
      obtain ⟨hnodup, hperm⟩ := ih fun th hth => hcloses th (List.mem_append_left _ hth)
      refine ⟨List.nodup_cons.mpr ⟨hfree, hnodup⟩, ?_⟩
      have hnew := perm_allOwned init ts [] ⟨a, [], sessions.body a⟩
      rw [List.append_nil] at hnew
      exact (hperm.cons a).trans hnew.symm
    | @act s s' before after a t c next r hg h =>
      have hsnoc := closesOwned_snoc.mp
        (hcloses ⟨a, t ++ [⟨c, r⟩], next r⟩ (List.mem_append_right _ List.mem_cons_self))
      obtain ⟨hnodup, hperm⟩ := ih fun th hth => by
        rcases List.mem_append.mp hth with hth | hth
        · exact hcloses th (List.mem_append_left _ hth)
        rcases List.mem_cons.mp hth with rfl | hth
        · exact hsnoc.1
        · exact hcloses th (List.mem_append_right _ (List.mem_cons_of_mem _ hth))
      have hold := hperm.trans (perm_allOwned init before after ⟨a, t, .call c next⟩)
      have hnew := (perm_allOwned init before after ⟨a, t ++ [⟨c, r⟩], next r⟩).symm
      dsimp only at hold hnew
      rw [owned_snoc] at hnew
      cases h with
      | @socket fd h =>
        obtain ⟨hpos, hfree, -⟩ := h
        have hfd : ¬ fd = -1 := by omega
        rw [ownedAfter, if_neg hfd] at hnew
        exact ⟨List.nodup_cons.mpr ⟨hfree, hnodup⟩, (hold.cons _).trans hnew⟩
      | nosocket =>
        rw [ownedAfter, if_pos rfl] at hnew
        exact ⟨hnodup, hold.trans hnew⟩
      | @close d =>
        have hmem : d ∈ owned a t := hsnoc.2 d rfl
        refine ⟨hnodup.erase d, (hold.erase d).trans ?_⟩
        rw [List.erase_append_left _ hmem]
        exact hnew
      | other h =>
        rw [ownedAfter_quiet h] at hnew
        exact ⟨hnodup, hold.trans hnew⟩

/-- In every state that the process reaches, every session closes only what it owns if and only if
every session that has ended had obtained a socket; and then no session that has ended owns
anything, and the open descriptors are the initial ones and those that the sessions own, each
once. -/
theorem sessions_close_owned_iff (init : List Int) (hinit : init.Nodup)
    (p : Pool (List Int) Int Call.Result (Option Int))
    (hp : sessions.Reach Rules.Always init p) :
    ((∀ th ∈ p.threads, ClosesOwned th.arg th.trace) ↔
      ∀ th ∈ p.threads, ∀ st, th.prog = .done st → GotSocket th.trace) ∧
    ((∀ th ∈ p.threads, ∀ st, th.prog = .done st → GotSocket th.trace) →
      (∀ th ∈ p.threads, ∀ st, th.prog = .done st → owned th.arg th.trace = []) ∧
      Tidy init p) := by
  have hiff : (∀ th ∈ p.threads, ClosesOwned th.arg th.trace) ↔
      ∀ th ∈ p.threads, ∀ st, th.prog = .done st → GotSocket th.trace :=
    forall₂_congr fun th hth => socks5Run_closes (hp.runs th hth)
  refine ⟨hiff, fun h => ⟨fun th hth st hst => ?_, tidy_of_closesOwned hinit hp (hiff.mpr h)⟩⟩
  exact socks5Run_owned (hst ▸ hp.runs th hth) (h th hth st hst)

end Sessions

/-- A session whose upstream proxy cannot be reached closes its two descriptors. -/
theorem sessions_close_owned_unreachable : ∃ p, sessions.Reach Rules.Always [0, 1, 2] p ∧
    (∃ th ∈ p.threads, th.prog = .done (some 4)) ∧ p.shared = [0, 1, 2] ∧ Tidy [0, 1, 2] p := by
  have hspawn : sessions.Reach Rules.Always [0, 1, 2] _ :=
    Rules.Reach.init.spawn (a := 3) ⟨by decide, rfl⟩
  have hpeer := hspawn.act_last (r := true) trivial (.other trivial)
  have hchoose := hpeer.act_last (r := ()) trivial (.other trivial)
  have hver := hchoose.act_last (r := some (Bytes.ofByte 5)) trivial (.other trivial)
  have hmethods := hver.act_last (r := some (Bytes.ofByte 0)) trivial (.other trivial)
  have hrefuse := hmethods.act_last (r := true) trivial (.other trivial)
  have hchosen := hrefuse.act_last (r := ()) trivial (.other trivial)
  have hread := hchosen.act_last (r := ()) trivial (.other trivial)
  have hver := hread.act_last (r := some (Bytes.ofByte 5)) trivial (.other trivial)
  have hcmd := hver.act_last (r := some (Bytes.ofByte 1)) trivial (.other trivial)
  have hrsv := hcmd.act_last (r := some (Bytes.ofByte 0)) trivial (.other trivial)
  have hatyp := hrsv.act_last (r := some (Bytes.ofByte 1)) trivial (.other trivial)
  have haddr := hatyp.act_last (r := some ⟨[10, 0, 0, 1], rfl⟩) trivial (.other trivial)
  have hport := haddr.act_last (r := some ⟨[0, 80], rfl⟩) trivial (.other trivial)
  have hrequest := hport.act_last (r := ()) trivial (.other trivial)
  have hconnect := hrequest.act_last (r := ()) trivial (.other trivial)
  have hsocket := hconnect.act_last (r := (4 : Int)) trivial (.socket (by decide))
  have hfail := hsocket.act_last (r := false) trivial (.other trivial)
  have hleave := hfail.act_last (r := ()) trivial (.other trivial)
  have hreply := hleave.act_last (r := none) trivial (.other trivial)
  have hclose := hreply.act_last trivial .close
  have hdone := hclose.act_last trivial .close
  refine ⟨_, hdone, ⟨_, List.mem_cons_self, rfl⟩, by decide, ?_⟩
  refine ((sessions_close_owned_iff [0, 1, 2] (by decide) _ hdone).2 fun th hth st _ => ?_).2
  rw [List.mem_singleton.mp hth]
  exact ⟨4, by decide, by simp⟩

/-- The run of a session that has no peer. -/
def nopeerTrace (fd : Int) : List SessionEvent :=
  [⟨.getpeername fd, false⟩, ⟨.close fd, ()⟩, ⟨.close 0, ()⟩]

/-- With the standard descriptors open, a session starts with 3, finds no peer and closes 3 and 0.
The next session starts with 0, and the one after it again finds no peer and closes the client of
that session. -/
theorem sessions_close_live : ∃ p, sessions.Reach Rules.Always [0, 1, 2] p ∧
    ⟨3, nopeerTrace 3, .done none⟩ ∈ p.threads ∧ ¬ ClosesOwned 3 (nopeerTrace 3) ∧
    ⟨0, [], socks5Run 0⟩ ∈ p.threads ∧ 0 ∉ p.shared := by
  have hspawn : sessions.Reach Rules.Always [0, 1, 2] _ :=
    Rules.Reach.init.spawn (a := 3) ⟨by decide, rfl⟩
  have hpeer := hspawn.act_last (r := false) trivial (.other trivial)
  have hclose := hpeer.act_last trivial .close
  have hclose0 := hclose.act_last trivial .close
  have hspawn' := hclose0.spawn (a := 0) ⟨by decide, rfl⟩
  have hspawn2 := hspawn'.spawn (a := 3) ⟨by decide, rfl⟩
  have hpeer2 := hspawn2.act_last (r := false) trivial (.other trivial)
  have hclose2 := hpeer2.act_last trivial .close
  have hclose3 := hclose2.act_last trivial .close
  refine ⟨_, hclose3, ?_, ?_, ?_, by decide⟩
  · exact List.mem_append_right _ List.mem_cons_self
  · intro h
    exact absurd (h [⟨.getpeername 3, false⟩, ⟨.close 3, ()⟩] 0 [] rfl) (by decide)
  · exact List.mem_append_left _ (List.mem_append_right _ List.mem_cons_self)

end Silksocks
