import Silksocks.ClientStream
import Silksocks.SessionRuns

/-! The reply that a request gets.  `socks5_run` writes it only behind `socks5_connectproxy`, with
an address from `getsockname`: a request that is read and not served, or whose socket was not
opened, gets none. -/

namespace Silksocks

open Program Prog

/-! ### What is written to the client -/

/-- The status that the request of a client ended with; it is 7 for a command that is not served. -/
inductive RequestStatus (cmd : UInt8) (t : List SessionEvent) : Int → Prop
  | readrequest {st : Int} (hst : st ≠ 0) (h : ⟨.leave .readrequest st, ()⟩ ∈ t) :
    RequestStatus cmd t st
  | command (hcmd : cmd ≠ 1) (h : ⟨.leave .readrequest 0, ()⟩ ∈ t) : RequestStatus cmd t 7
  | connectproxy {st : Int} (h : ⟨.leave .connectproxy st, ()⟩ ∈ t) : RequestStatus cmd t st

/-- 05 REP 00 ATYP BND.ADDR BND.PORT. -/
def replyBytes (rep atyp : UInt8) (addr port : List UInt8) : List UInt8 :=
  [5, rep, 0, atyp] ++ addr ++ port

/-- A session that read the header of its request behind `before` replied to it behind `pre`. -/
structure Reply (fd : Int) (cmd : UInt8) (before after : List SessionEvent) (rep atyp : UInt8)
    (addr port : List UInt8) (pre post : List SessionEvent) : Prop where
  sent : after = pre ++ [⟨.writen fd (replyBytes rep atyp addr port), true⟩] ++ post
  address : BoundAddr atyp addr
  port : port.length = 2
  /-- Nothing else is written to the client. -/
  once : ∀ e ∈ pre ++ post, ∀ data, e.call ≠ .writen fd data
  closed : ⟨.close fd, ()⟩ ∉ pre ∧ ⟨.close fd, ()⟩ ∈ post
  status : RequestStatus cmd after rep.toNat
  success : rep = 0 → ⟨.leave .connectproxy 0, ()⟩ ∈ pre
  relay : ∀ e ∈ before ++ after, e.call.Relays → rep = 0 ∧ e ∈ post

/-- A session replied to its request. -/
def Replied (fd : Int) (cmd : UInt8) (before after : List SessionEvent) : Prop :=
  ∃ rep atyp addr port pre post, Reply fd cmd before after rep atyp addr port pre post

/-- The request is to connect, its address is of a defined type and, if it is a name, found, and the
session's socket has an address. -/
structure Answerable (cmd atyp : UInt8) (after : List SessionEvent) : Prop where
  command : cmd = 1
  type : atyp = 1 ∨ atyp = 3 ∨ atyp = 4
  resolved : ∀ host, ⟨.hostServ host, none⟩ ∉ after
  bound : ∀ pfd, ⟨.getsockname pfd, none⟩ ∉ after

/-- An address of a socket for IPv4 or IPv6. -/
structure Sockaddr.Valid (ss : Sockaddr) : Prop where
  addr : ss.family = .inet ∧ ss.addr.length = 4 ∨ ss.family = .inet6 ∧ ss.addr.length = 16
  port : ss.port.length = 2

section Replies

variable {fd : Int} {client c : Socks5Cli} {t : List SessionEvent} {st : Int}

theorem not_replied {cmd : UInt8} {before after : List SessionEvent}
    (h : ∀ e ∈ after, ∀ data, e.call ≠ .writen fd data) : ¬ Replied fd cmd before after := by
  rintro ⟨rep, atyp, addr, port, pre, post, hreply⟩
  exact h ⟨.writen fd (replyBytes rep atyp addr port), true⟩ (by simp [hreply.sent]) _ rfl

/-! ### Events that the client does not see -/

/-- An event that neither the reply nor its failure is. -/
structure Inner (fd : Int) (e : SessionEvent) : Prop where
  write : ∀ data, e.call ≠ .writen fd data
  bound : ∀ pfd, e ≠ ⟨.getsockname pfd, none⟩
  resolved : ∀ host, e ≠ ⟨.hostServ host, none⟩
  relay : ¬ e.call.Relays
  close : ∀ d, e.call ≠ .close d

@[simp] theorem inner_chunk (bs : List UInt8) : Inner fd (chunkEvent fd bs) := by
  constructor <;> simp [chunkEvent, Call.Relays]

@[simp] theorem inner_enter (f : Fn) : Inner fd ⟨.enter f, ()⟩ := by
  constructor <;> simp [Call.Relays]

@[simp] theorem inner_leave (f : Fn) (st : Int) : Inner fd ⟨.leave f st, ()⟩ := by
  constructor <;> simp [Call.Relays]

@[simp] theorem inner_getsockname (pfd : Int) (ss : Sockaddr) :
    Inner fd ⟨.getsockname pfd, some ss⟩ := by
  constructor <;> simp [Call.Relays]

theorem inner_resolves {e : SessionEvent} (h : e.call.Resolves)
    (hfound : ∀ host, e ≠ ⟨.hostServ host, none⟩) : Inner fd e := by
  obtain ⟨c, r⟩ := e
  refine ⟨?_, ?_, hfound, ?_, ?_⟩
  · rintro data rfl
    exact h
  · rintro pfd ⟨⟩
    exact h
  · rintro ⟨a, b, rfl⟩
    exact h
  · rintro d rfl
    exact h

theorem inner_upstream {e : SessionEvent} {pfd : Int} (h : e.call.Upstream pfd) (hne : pfd ≠ fd) :
    Inner fd e := by
  obtain ⟨c, r⟩ := e
  rcases h with h | ⟨peer, rfl⟩ | ⟨b, rfl, -⟩ | h
  · cases c with
    | readn => constructor <;> simp [Call.Relays]
    | fault => exact r.elim
    | _ => exact h.elim
  · constructor <;> simp [Call.Relays]
  · constructor <;> simp [Call.Relays, hne]
  · cases c with
    | cacheGetip | cachePutip | sqlgetProxycreds => constructor <;> simp [Call.Relays]
    | _ => exact h.elim

/-! ### `socks5_connectproxy` -/

/-- A status that `socks5_writereply` can send. -/
def ByteStatus (st : Int) : Prop := 0 ≤ st ∧ st < 256

instance (st : Int) : Decidable (ByteStatus st) := inferInstanceAs (Decidable (0 ≤ st ∧ st < 256))

theorem socks5Readreply_status (client : Socks5Cli) : (socks5Readreply client).Ends ByteStatus := by
  have hdone : ∀ st, ByteStatus st → (.done st : Session Int).Ends ByteStatus := fun _ h => h
  refine ends_bind_of_forall fun buf => ?_
  cases buf with
  | none => exact hdone 4 (by decide)
  | some buf =>
  dsimp only
  split
  · rename_i ver rep rsv atyp hbuf
    refine ends_ite.mpr ⟨fun _ => ?_, fun _ => ?_⟩
    · have hrep := rep.toNat_lt
      exact ends_done.mpr ⟨by omega, by omega⟩
    have hread : ∀ {n : Nat} {f : Option (Bytes n) → Session Int}, (f none).Ends ByteStatus →
        (∀ bs, (f (some bs)).Ends ByteStatus) →
          (readInto client.proxyfd 256 n >>= f).Ends ByteStatus :=
      fun hnone hsome => ends_bind_of_forall (Option.rec hnone hsome)
    have htwo := hdone 2 (by decide)
    have hzero := hdone 0 (by decide)
    split
    · exact hread htwo fun _ => hzero
    · refine ends_bind_of_forall fun len => ?_
      cases len with
      | none => exact htwo
      | some len => exact hread htwo fun _ => hzero
    · exact hread htwo fun _ => hzero
    · exact hdone 8 (by decide)
  · exact hdone 4 (by decide)

theorem socks5Writerequest_status (client : Socks5Cli) :
    (socks5Writerequest client).Ends ByteStatus := by
  refine ends_bind_of_forall fun ok => ?_
  cases ok <;> exact ends_done.mpr (by decide)

theorem socks5Connectproxy_status (client : Socks5Cli) :
    (socks5Connectproxy client).Ends fun r => ByteStatus r.1 := by
  have hdone : ∀ st, ByteStatus st → ∀ c : Socks5Cli,
      (.done (st, c) : Session (Int × Socks5Cli)).Ends fun r => ByteStatus r.1 := fun _ h _ => h
  have hfour := hdone 4 (by decide)
  refine ends_bind_of_forall fun (proxyfd : Int) => ?_
  refine ends_ite.mpr ⟨fun _ => hdone 1 (by decide) _, fun _ => ?_⟩
  refine ends_bind_of_forall fun connected => ends_ite.mpr ⟨fun _ => hfour _, fun _ => ?_⟩
  refine ends_bind_of_forall fun ok => ends_ite.mpr ⟨fun _ => hfour _, fun _ => ?_⟩
  refine ends_bind_of_forall fun buf => ?_
  cases buf with
  | none => exact hfour _
  | some buf =>
  refine ends_ite.mpr ⟨fun _ => hfour _, fun _ => ends_bind_of_forall fun creds => ?_⟩
  cases creds with
  | none => exact hfour _
  | some creds =>
  dsimp only
  split
  · refine ends_bind_of_forall fun ok => ends_ite.mpr ⟨fun _ => hfour _, fun _ => ?_⟩
    refine ends_bind_of_forall fun buf => ?_
    cases buf with
    | none => exact hfour _
    | some buf =>
    refine ends_ite.mpr ⟨fun _ => hdone 5 (by decide) _, fun _ => ?_⟩
    refine ends_bind.mpr ((socks5Writerequest_status _).mono fun st hst => ?_)
    refine ends_ite.mpr ⟨fun _ => hst, fun _ => ?_⟩
    exact ends_bind.mpr ((socks5Readreply_status _).mono fun st hst => hst)
  · exact ends_fault

theorem connectproxy_inner (hfresh : ⟨.socket, fd⟩ ∉ t)
    (h : Runs (socks5Connectproxy client) t (.done (st, c))) :
    ByteStatus st ∧ c.clientfd = client.clientfd ∧ ∀ e ∈ t, Inner fd e := by
  refine ⟨(socks5Connectproxy_status client).runs h, ?_⟩
  obtain ⟨rest, heq, hrest⟩ := socks5Connectproxy_all client
  rw [heq] at h
  obtain ⟨(pfd : Int), t, rfl, hrun⟩ := runs_call_done.mp h
  have hne : pfd ≠ fd := by
    rintro rfl
    exact hfresh List.mem_cons_self
  have hc := (hrest pfd).2.runs hrun
  rw [show c = _ from hc]
  refine ⟨rfl, List.forall_mem_cons.mpr ⟨?_, fun e he => ?_⟩⟩
  · constructor <;> simp [Call.Relays]
  · exact inner_upstream ((hrest pfd).1.runs hrun e he) hne

/-! ### The reply -/

/-- The reply to a request that ended with a status, from the address of a socket. -/
def replyOf (st : Int) (ss : Sockaddr) : List UInt8 :=
  replyBytes (UInt8.ofInt st) (if ss.family = .inet then 1 else 4) (ss.addr.take ss.addrLen) ss.port

theorem writereply_runs {st' : Int} (h : Runs (socks5Writereply client st) t (.done st')) :
    (t = [⟨.getsockname client.proxyfd, none⟩] ∧ st' = 1) ∨ ∃ ss ok,
      t = [⟨.getsockname client.proxyfd, some ss⟩, ⟨.writen client.clientfd (replyOf st ss), ok⟩] ∧
        st' = if ok then 0 else 1 := by
  simp only [socks5Writereply, call, writen, call_bind, done_bind, pure_eq] at h
  obtain ⟨found, t1, rfl, h1⟩ := runs_call_done.mp h
  cases found with
  | none =>
    obtain ⟨rfl, hend⟩ := runs_done.mp h1
    exact .inl ⟨rfl, Prog.done.inj hend⟩
  | some ss =>
    obtain ⟨ok, t2, rfl, h2⟩ := runs_call_done.mp h1
    cases ok with
    | false =>
      obtain ⟨rfl, hend⟩ := runs_done.mp h2
      exact .inr ⟨ss, false, rfl, Prog.done.inj hend⟩
    | true =>
      obtain ⟨rfl, hend⟩ := runs_done.mp h2
      exact .inr ⟨ss, true, rfl, Prog.done.inj hend⟩

theorem serveRequest_unserved {r : Int × Socks5Cli} (hcmd : client.cmd ≠ 1)
    (h : Runs (serveRequest client) t (.done r)) : t = [] ∧ r = (7, client) := by
  unfold serveRequest at h
  split at h
  · rename_i hone
    exact absurd hone hcmd
  · obtain ⟨rfl, hend⟩ := runs_done.mp h
    exact ⟨rfl, Prog.done.inj hend⟩

theorem Sockaddr.Valid.boundAddr {ss : Sockaddr} (h : ss.Valid) :
    BoundAddr (if ss.family = .inet then 1 else 4) (ss.addr.take ss.addrLen) := by
  rcases h.addr with ⟨hfamily, hlen⟩ | ⟨hfamily, hlen⟩
  · simp only [hfamily, Sockaddr.addrLen, if_true]
    exact .ipv4 (by simp [hlen])
  · simp only [hfamily, Sockaddr.addrLen, if_true]
    exact .ipv6 (by simp [hlen])

/-- What a request to connect gets from `socks5_run`. -/
theorem serveRequest_runs {r : Int × Socks5Cli} (hcmd : client.cmd = 1)
    (h : Runs (serveRequest client) t (.done r)) :
    ∃ t1 t2 t3 st c st', t = [⟨.enter .connectproxy, ()⟩] ++ t1 ++ [⟨.leave .connectproxy st, ()⟩] ++
        t2 ++ t3 ∧ r.2 = c ∧ Runs (socks5Connectproxy client) t1 (.done (st, c)) ∧
      Runs (socks5Writereply c st) t2 (.done st') ∧
      (t3 = [] ∨ st = 0 ∧ ∃ r, t3 = [⟨.negotiate c.clientfd c.proxyfd, r⟩]) := by
  simp only [serveRequest, hcmd, call, pure_eq, call_bind, done_bind] at h
  obtain ⟨⟨st, c⟩, _, t', rfl, hconnect, hserve⟩ := runs_bind_done.mp h
  obtain ⟨t1, rfl, hrun⟩ := runs_noted.mp hconnect
  dsimp only at hserve
  split at hserve
  · obtain ⟨st', t2, t3, rfl, hreply, h3⟩ := runs_bind_done.mp hserve
    obtain ⟨rfl, hend⟩ := runs_done.mp h3
    cases hend
    exact ⟨t1, t2, [], st, c, st', by simp, rfl, hrun, hreply, .inl rfl⟩
  rename_i hst
  obtain ⟨st', t2, t3, rfl, hreply, h3⟩ := runs_bind_done.mp hserve
  split at h3
  · obtain ⟨rfl, hend⟩ := runs_done.mp h3
    cases hend
    exact ⟨t1, t2, [], st, c, st', by simp, rfl, hrun, hreply, .inl rfl⟩
  · obtain ⟨r, t4, rfl, h4⟩ := runs_call_done.mp h3
    obtain ⟨rfl, hend⟩ := runs_done.mp h4
    cases hend
    exact ⟨t1, t2, _, st, c, st', by simp, rfl, hrun, hreply, .inr ⟨not_not.mp hst, r, rfl⟩⟩

/-! ### The request of a session -/

/-- A call that a session makes before it reads its request. -/
def Call.Early (c : Call) : Prop := ¬ c.Relays ∧ c ≠ .enter .readrequest

theorem choosemethod_early (client : Socks5Cli) :
    (noted .choosemethod Prod.fst (socks5Choosemethod client)).All Call.Early := by
  refine noted_all ((socks5Choosemethod_all client).mono fun c hc => ?_) ?_ ?_
  · rcases hc with hc | ⟨m, rfl⟩
    · refine ⟨hc.not_relays, ?_⟩
      rintro rfl
      exact hc
    · simp [Call.Early, Call.Relays]
  · simp [Call.Early, Call.Relays]
  · simp [Call.Early, Call.Relays]

theorem authenticate_early (client : Socks5Cli) (m : UInt8) :
    (authenticate client m).All Call.Early := by
  have hall := authenticate_all client m
  refine hall.mono fun c hc => ?_
  constructor
  · rintro ⟨a, b, rfl⟩
    simp [Call.Authenticates, Call.Reads, Call.LooksUpUser, Call.NotesLogin] at hc
  · rintro rfl
    simp [Call.Authenticates, Call.Reads, Call.LooksUpUser, Call.NotesLogin] at hc

theorem Call.Upstream.not_enter {pfd : Int} {f : Fn} : ¬ (Call.enter f).Upstream pfd := by
  rintro (h | ⟨peer, h⟩ | ⟨b, h, -⟩ | h)
  · exact h
  · cases h
  · cases h
  · exact h

theorem readrequest_not_enter (client : Socks5Cli) (f : Fn) :
    (socks5Readrequest client).All fun c => c ≠ .enter f := by
  refine (socks5Readrequest_all client).mono fun c hc => ?_
  rintro rfl
  rcases hc with hc | hc <;> exact hc

theorem serveRequest_not_enter (client : Socks5Cli) :
    (serveRequest client).All fun c => c ≠ .enter .readrequest := by
  have hreply : ∀ client st, (socks5Writereply client st).All fun c => c ≠ .enter .readrequest := by
    refine fun client st => (socks5Writereply_all client st).mono fun c hc => ?_
    rcases hc with rfl | ⟨atyp, b, rfl⟩ <;> simp
  unfold serveRequest
  split
  · refine (noted_all ?_ (by simp) (by simp)).bind fun r => ?_
    · obtain ⟨rest, heq, hrest⟩ := socks5Connectproxy_all client
      rw [heq]
      refine ⟨by simp, fun pfd => (hrest pfd).1.mono fun c hc => ?_⟩
      rintro rfl
      exact Call.Upstream.not_enter hc
    · refine all_ite.mpr ⟨fun _ => (hreply _ _).bind fun _ => all_done, fun _ => ?_⟩
      refine (hreply _ _).bind fun st => all_ite.mpr ⟨fun _ => all_done, fun _ => ?_⟩
      exact ⟨by simp, fun _ => all_done⟩
  · trivial

/-- What a session of `client` does when it has started to read its request. -/
inductive RequestRun (client : Socks5Cli) : List SessionEvent → Prop
  | failed {t : List SessionEvent} {st : Int} {c : Socks5Cli} (hst : st ≠ 0)
    (hrun : Runs (socks5Readrequest client) t (.done (st, c))) :
    RequestRun client (t ++ [⟨.leave .readrequest st, ()⟩] ++ closes c)
  | served {t t' : List SessionEvent} {c : Socks5Cli} {r : Int × Socks5Cli}
    (hread : Runs (socks5Readrequest client) t (.done (0, c)))
    (hrun : Runs (serveRequest c) t' (.done r)) :
    RequestRun client (t ++ [⟨.leave .readrequest 0, ()⟩] ++ t' ++ closes r.2)

theorem RequestRun.not_enter {rest : List SessionEvent} (h : RequestRun client rest) :
    ⟨.enter .readrequest, ()⟩ ∉ rest := by
  have hcloses : ∀ c, (⟨.enter .readrequest, ()⟩ : SessionEvent) ∉ closes c := by simp [closes]
  cases h with
  | failed hst hrun =>
    have hread := (readrequest_not_enter client .readrequest).runs hrun
    simp only [List.mem_append, not_or]
    exact ⟨⟨fun hmem => hread _ hmem rfl, by simp⟩, hcloses _⟩
  | served hread hrun =>
    have hread := (readrequest_not_enter client .readrequest).runs hread
    have hserve := (serveRequest_not_enter _).runs hrun
    simp only [List.mem_append, not_or]
    exact ⟨⟨⟨fun hmem => hread _ hmem rfl, by simp⟩, fun hmem => hserve _ hmem rfl⟩, hcloses _⟩

theorem socks5Run_request {r : Option Int} {before rest : List SessionEvent}
    (h : Runs (socks5Run fd) (before ++ ⟨.enter .readrequest, ()⟩ :: rest) (.done r)) :
    ∃ client : Socks5Cli, client.clientfd = fd ∧ (∀ e ∈ before, ¬ e.call.Relays) ∧
      RequestRun client rest := by
  obtain ⟨t, c, hend, ht⟩ := socks5Run_ends h
  have hpeer : ∀ r, ∀ e ∈ ([⟨.getpeername fd, r⟩] : List SessionEvent), e.call.Early := by
    simp [Call.Early, Call.Relays]
  -- a session that does not get to its request
  have habsurd : (∀ e ∈ t, e.call.Early) → False := by
    intro hearly
    have hmem : ⟨.enter .readrequest, ()⟩ ∈ t ++ closes c := by simp [← ht]
    rcases List.mem_append.mp hmem with hmem | hmem
    · exact (hearly _ hmem).2 rfl
    · simp [closes] at hmem
  -- a session that does
  have hsplit : ∀ {m client t1 t2 u}, Admitted fd t1 t2 m client → RequestRun client u →
      t ++ closes c = [⟨.getpeername fd, true⟩] ++ t1 ++ t2 ++ ⟨.enter .readrequest, ()⟩ :: u →
      ∃ client : Socks5Cli, client.clientfd = fd ∧ (∀ e ∈ before, ¬ e.call.Relays) ∧
        RequestRun client rest := by
    intro m client t1 t2 u hadmitted hrequest heq
    have hearly : ∀ e ∈ [⟨.getpeername fd, true⟩] ++ t1 ++ t2, e.call.Early :=
      List.forall_mem_append.mpr ⟨List.forall_mem_append.mpr ⟨hpeer true,
        (choosemethod_early _).runs hadmitted.choosemethod⟩,
        (authenticate_early _ _).runs hadmitted.authenticate⟩
    rw [← ht] at heq
    obtain ⟨rfl, -, rfl⟩ := (List.append_cons_inj_of_notMem
      (fun hmem => (hearly _ hmem).2 rfl) hrequest.not_enter).mp heq.symm
    refine ⟨client, ?_, fun e he => (hearly e he).1, hrequest⟩
    exact ((authenticate_sameFds _ _).runs hadmitted.authenticate).1
  cases hend with
  | nopeer => exact (habsurd (hpeer false)).elim
  | greeting _ hgreeting =>
    exact (habsurd (List.forall_mem_append.mpr
      ⟨hpeer true, (choosemethod_early _).runs hgreeting⟩)).elim
  | login _ hgreeting hlogin =>
    exact (habsurd (List.forall_mem_append.mpr ⟨List.forall_mem_append.mpr
      ⟨hpeer true, (choosemethod_early _).runs hgreeting⟩,
        (authenticate_early _ _).runs hlogin⟩)).elim
  | request hst hadmitted hread => exact hsplit hadmitted (.failed hst hread) (by simp)
  | served hadmitted hread hserve => exact hsplit hadmitted (.served hread hserve) (by simp)

theorem requestHeader_inj {cmd rsv atyp cmd' rsv' atyp' : UInt8} {u v : List SessionEvent}
    (h : requestHeader fd cmd rsv atyp ++ u = requestHeader fd cmd' rsv' atyp' ++ v) :
    cmd = cmd' ∧ rsv = rsv' ∧ atyp = atyp' ∧ u = v := by
  simpa [requestHeader, byteEvent_inj] using h

/-- How a request ends whose header has been read. -/
inductive HeaderEnd (client : Socks5Cli) (cmd atyp : UInt8) :
    List SessionEvent → Int × Socks5Cli → Prop
  | undefined {c : Socks5Cli} (h : atyp ≠ 1 ∧ atyp ≠ 3 ∧ atyp ≠ 4) :
    HeaderEnd client cmd atyp [] (8, c)
  | unresolved {t : List SessionEvent} {c : Socks5Cli} {host : List UInt8}
    (h : ⟨.hostServ host, none⟩ ∈ t) : HeaderEnd client cmd atyp t (4, c)
  | read {t : List SessionEvent} {request : Sockaddr} (h : atyp = 1 ∨ atyp = 3 ∨ atyp = 4)
    (hinner : ∀ e ∈ t, Inner client.clientfd e) :
    HeaderEnd client cmd atyp t (0, { client with cmd, request })

theorem readrequest_header {cmd rsv atyp : UInt8} {st' : Int} {after u : List SessionEvent}
    (h : Runs (socks5Readrequest client) t (.done (st, c)))
    (heq : t ++ ⟨.leave .readrequest st', ()⟩ :: u =
      requestHeader client.clientfd cmd rsv atyp ++ after)
    (hread : AllRead client.clientfd after) :
    ∃ t', after = t' ++ ⟨.leave .readrequest st', ()⟩ :: u ∧
      HeaderEnd client cmd atyp t' (st, c) := by
  cases readrequest_runs h with
  | short hshort =>
    have hall : AllRead client.clientfd (t ++ ⟨.leave .readrequest st', ()⟩ :: u) := by
      rw [heq]
      exact allRead_append.mpr ⟨allRead_requestHeader _ _ _, hread⟩
    exact absurd (allRead_append.mp hall).1 hshort
  | version ver hver => simp [requestHeader, byteEvent_inj, hver] at heq
  | command cmd => simp [requestHeader, byteEvent] at heq
  | undefined cmd' rsv' atyp' hatyp =>
    obtain ⟨rfl, rfl, rfl, rfl⟩ := requestHeader_inj heq
    exact ⟨[], rfl, .undefined hatyp⟩
  | unresolved cmd' rsv' len name t =>
    simp only [List.append_assoc] at heq
    obtain ⟨rfl, rfl, rfl, rfl⟩ := requestHeader_inj heq
    have hmem : ⟨.hostServ (cstr name), none⟩ ∈
        [byteEvent client.clientfd len, chunkEvent client.clientfd name] ++ t ++
          [⟨.hostServ (cstr name), none⟩] := by simp
    exact ⟨_, by simp, .unresolved hmem⟩
  | read cmd' rsv' atyp' addr port request t t' haddr hport ht hbytes hchunks =>
    simp only [List.append_assoc] at heq
    obtain ⟨rfl, rfl, rfl, rfl⟩ := requestHeader_inj heq
    refine ⟨t ++ t' ++ [chunkEvent client.clientfd port], by simp, .read ?_ ?_⟩
    · cases haddr <;> simp
    · simp only [List.forall_mem_append, List.forall_mem_singleton, inner_chunk, and_true]
      refine ⟨fun e he => ?_, fun e he => inner_resolves (ht e he).1 (ht e he).2⟩
      obtain ⟨bs, rfl⟩ := hchunks e he
      exact inner_chunk bs

/-- A reply that comes behind events that the client does not see, and before the relay and the end
of the session. -/
theorem reply_of_inner {cmd : UInt8} {before pre post : List SessionEvent} {ss : Sockaddr}
    (hbefore : ∀ e ∈ before, ¬ e.call.Relays) (hpre : ∀ e ∈ pre, Inner fd e)
    (hst : ByteStatus st) (hss : ss.Valid) (hleave : ⟨.leave .connectproxy st, ()⟩ ∈ pre)
    (hpost : ∀ e ∈ post, (∀ data, e.call ≠ .writen fd data) ∧ (e.call.Relays → st = 0))
    (hclose : ⟨.close fd, ()⟩ ∈ post) :
    Replied fd cmd before (pre ++ [⟨.writen fd (replyOf st ss), true⟩] ++ post) := by
  have hrep : ((UInt8.ofInt st).toNat : Int) = st := by
    obtain ⟨hlow, hhigh⟩ := hst
    rw [UInt8.ofInt, UInt8.toNat_ofNat']
    omega
  have hzero : UInt8.ofInt st = 0 ↔ st = 0 := by
    rw [← UInt8.toNat_inj, UInt8.toNat_zero]
    omega
  refine ⟨_, _, _, _, pre, post, ⟨rfl, hss.boundAddr, hss.port, ?_, ?_, ?_, ?_, ?_⟩⟩
  · exact List.forall_mem_append.mpr ⟨fun e he => (hpre e he).write, fun e he => (hpost e he).1⟩
  · exact ⟨fun hmem => (hpre _ hmem).close fd rfl, hclose⟩
  · rw [hrep]
    exact .connectproxy (by simp [hleave])
  · intro h
    rwa [← hzero.mp h]
  · intro e he hrelays
    rcases List.mem_append.mp he with he | he
    · exact absurd hrelays (hbefore e he)
    rcases List.mem_append.mp he with he | he
    · rcases List.mem_append.mp he with he | he
      · exact absurd hrelays (hpre e he).relay
      · rw [List.mem_singleton] at he
        subst he
        simp [Call.Relays] at hrelays
    · exact ⟨hzero.mpr ((hpost e he).2 hrelays), he⟩

theorem answerable_of_inner {atyp : UInt8} {pre post : List SessionEvent} {data : List UInt8}
    {ok : Bool} (hatyp : atyp = 1 ∨ atyp = 3 ∨ atyp = 4) (hpre : ∀ e ∈ pre, Inner fd e)
    (hpost : ∀ e ∈ post, (∀ host, e ≠ ⟨.hostServ host, none⟩) ∧
      ∀ pfd, e ≠ ⟨.getsockname pfd, none⟩) :
    Answerable 1 atyp (pre ++ [⟨.writen fd data, ok⟩] ++ post) where
  command := rfl
  type := hatyp
  resolved host hmem := by
    rcases List.mem_append.mp hmem with hmem | hmem
    · rcases List.mem_append.mp hmem with hmem | hmem
      · exact (hpre _ hmem).resolved host rfl
      · simp at hmem
    · exact (hpost _ hmem).1 host rfl
  bound pfd hmem := by
    rcases List.mem_append.mp hmem with hmem | hmem
    · rcases List.mem_append.mp hmem with hmem | hmem
      · exact (hpre _ hmem).bound pfd rfl
      · simp at hmem
    · exact (hpost _ hmem).2 pfd rfl

/-- A request to connect is answered where its socket has an address. -/
theorem connect_replied_iff {before t' after : List SessionEvent} {r : Int × Socks5Cli}
    {atyp : UInt8} (hserve : Runs (serveRequest client) t (.done r))
    (hfd : client.clientfd = fd) (hcmd : client.cmd = 1)
    (hafter : after = t' ++ ⟨.leave .readrequest 0, ()⟩ :: (t ++ closes r.2))
    (hatyp : atyp = 1 ∨ atyp = 3 ∨ atyp = 4) (hbefore : ∀ e ∈ before, ¬ e.call.Relays)
    (hinner : ∀ e ∈ t', Inner fd e) (hwrite : ∀ data, ⟨.writen fd data, false⟩ ∉ after)
    (hfresh : ⟨.socket, fd⟩ ∉ after)
    (hvalid : ∀ pfd ss, ⟨.getsockname pfd, some ss⟩ ∈ after → ss.Valid) :
    Replied fd 1 before after ↔ Answerable 1 atyp after := by
  obtain ⟨t1, t2, t3, st, c, st', rfl, hc, hconnect, hreply, hrelay⟩ := serveRequest_runs hcmd hserve
  subst hc
  have hsocket : ⟨.socket, fd⟩ ∉ t1 := fun hmem => hfresh (by simp [hafter, hmem])
  obtain ⟨hst, hfd', hinner1⟩ := connectproxy_inner hsocket hconnect
  rw [hfd] at hfd'
  have hpre : ∀ e ∈ t' ++ [⟨.leave .readrequest 0, ()⟩, ⟨.enter .connectproxy, ()⟩] ++ t1 ++
      [⟨.leave .connectproxy st, ()⟩], Inner fd e := by
    simp only [List.forall_mem_append, List.forall_mem_cons, inner_leave, inner_enter]
    exact ⟨⟨⟨hinner, trivial, trivial, by simp⟩, hinner1⟩, trivial, by simp⟩
  have hpost : ∀ e ∈ t3 ++ closes r.2, (∀ data, e.call ≠ .writen fd data) ∧
      (e.call.Relays → st = 0) ∧ (∀ host, e ≠ ⟨.hostServ host, none⟩) ∧
        ∀ pfd, e ≠ ⟨.getsockname pfd, none⟩ := by
    rcases hrelay with rfl | ⟨rfl, n, rfl⟩ <;> simp [closes, Call.Relays]
  have hsplit : after = (t' ++ [⟨.leave .readrequest 0, ()⟩, ⟨.enter .connectproxy, ()⟩] ++ t1 ++
      [⟨.leave .connectproxy st, ()⟩]) ++ t2 ++ (t3 ++ closes r.2) := by
    simp [hafter]
  subst hsplit
  rcases writereply_runs hreply with ⟨rfl, -⟩ | ⟨ss, ok, rfl, -⟩
  · -- no address
    refine iff_of_false (not_replied ?_) fun hanswer => hanswer.bound r.2.proxyfd (by simp)
    refine List.forall_mem_append.mpr ⟨List.forall_mem_append.mpr
      ⟨fun e he => (hpre e he).write, by simp⟩, fun e he => (hpost e he).1⟩
  · rw [hfd'] at hwrite hvalid ⊢
    obtain rfl : ok = true := by
      by_contra hok
      rw [Bool.not_eq_true] at hok
      subst hok
      exact hwrite (replyOf st ss) (by simp)
    have hss := hvalid r.2.proxyfd ss (by simp)
    have hsock : Inner fd ⟨.getsockname r.2.proxyfd, some ss⟩ := inner_getsockname _ _
    have hpre' := List.forall_mem_append.mpr ⟨hpre, List.forall_mem_singleton.mpr hsock⟩
    rw [List.append_cons (t' ++ _ ++ t1 ++ _)]
    refine iff_of_true ?_ ?_
    · refine reply_of_inner hbefore hpre' hst hss (by simp) (fun e he => ?_) ?_
      · exact ⟨(hpost e he).1, (hpost e he).2.1⟩
      · simp [closes, hfd']
    · exact answerable_of_inner hatyp hpre' fun e he => (hpost e he).2.2

end Replies

/-- A session that reads the header of a request replies to it as it should just where the request
is to connect, its address is of a defined type and found, and the session's socket has an
address. -/
theorem socks5Run_replied_iff {fd : Int} {t before after : List SessionEvent} {r : Option Int}
    {cmd rsv atyp : UInt8} (hrun : Runs (socks5Run fd) t (.done r))
    (ht : t = before ++ ⟨.enter .readrequest, ()⟩ :: requestHeader fd cmd rsv atyp ++ after)
    (hread : AllRead fd after) (hwrite : ∀ data, ⟨.writen fd data, false⟩ ∉ after)
    (hfresh : ⟨.socket, fd⟩ ∉ after)
    (hvalid : ∀ pfd ss, ⟨.getsockname pfd, some ss⟩ ∈ after → ss.Valid) :
    Replied fd cmd before after ↔ Answerable cmd atyp after := by
  rw [List.append_assoc, List.cons_append] at ht
  subst ht
  obtain ⟨client, rfl, hbefore, hrequest⟩ := socks5Run_request hrun
  have hcloses : ∀ c : Socks5Cli, ∀ e ∈ closes c, ∀ data, e.call ≠ .writen client.clientfd data := by
    simp [closes]
  generalize hrest : requestHeader client.clientfd cmd rsv atyp ++ after = rest at hrequest
  cases hrequest with
  | @failed t st c hst hfail =>
    obtain ⟨t', rfl, hend⟩ :=
      readrequest_header (u := closes c) hfail (by simpa using hrest.symm) hread
    refine iff_of_false (not_replied fun e he data heq => ?_) fun hanswer => ?_
    · have hmem : e ∈ t ++ [⟨.leave .readrequest st, ()⟩] ++ closes c := by
        rw [← hrest]
        exact List.mem_append_right _ he
      simp only [List.mem_append, List.mem_singleton] at hmem
      rcases hmem with (hmem | rfl) | hmem
      · have hc := (socks5Readrequest_all client).runs hfail e hmem
        rw [heq] at hc
        rcases hc with hc | hc <;> exact hc
      · cases heq
      · exact hcloses c e hmem data heq
    · cases hend with
      | undefined h => simpa [h] using hanswer.type
      | unresolved h => exact hanswer.resolved _ (List.mem_append_left _ h)
      | read => exact hst rfl
  | @served t t4 c r hsuccess hserve =>
    obtain ⟨t', rfl, hend⟩ := readrequest_header (u := t4 ++ closes r.2) hsuccess
      (by simpa using hrest.symm) hread
    cases hend with
    | @read _ request hatyp hinner =>
    by_cases hcmd : cmd = 1
    · subst hcmd
      exact connect_replied_iff hserve rfl rfl rfl hatyp hbefore hinner hwrite hfresh hvalid
    · obtain ⟨rfl, rfl⟩ := serveRequest_unserved hcmd hserve
      refine iff_of_false (not_replied ?_) fun hanswer => hcmd hanswer.command
      simp only [List.nil_append, List.forall_mem_append, List.forall_mem_cons]
      exact ⟨fun e he => (hinner e he).write, by simp, hcloses _⟩

/-- A session with the login `u-1.1.1.1-1` and the password `p`, up to its request. -/
def loginRun : List SessionEvent :=
  [⟨.getpeername 4, true⟩, ⟨.enter .choosemethod, ()⟩] ++ greeting 4 [2] ++
    [⟨.writen 4 [5, 2], true⟩, ⟨.leave .choosemethod 0, ()⟩] ++
    loginAccepted 4 [117, 45, 49, 46, 49, 46, 49, 46, 49, 45, 49] [112] ++
    [⟨.cacheGetapp [117], some [112]⟩, ⟨.leave .doauth 0, ()⟩]

/-- The rest of a request to connect, for which the upstream proxy cannot be reached. -/
def unreachedRest : List SessionEvent :=
  [chunkEvent 4 [1, 2, 3, 4], chunkEvent 4 [0, 80], ⟨.leave .readrequest 0, ()⟩,
    ⟨.enter .connectproxy, ()⟩, ⟨.socket, (5 : Int)⟩,
    ⟨.connectNonb 5 ⟨.inet, [1, 1, 1, 1], [0, 1]⟩, false⟩, ⟨.leave .connectproxy 4, ()⟩,
    ⟨.getsockname 5, some ⟨.inet, [10, 0, 0, 1], [48, 57]⟩⟩,
    ⟨.writen 4 [5, 4, 0, 1, 10, 0, 0, 1, 48, 57], true⟩, ⟨.close 4, ()⟩, ⟨.close 5, ()⟩]

/-- The reply to this request is 04. -/
theorem unreached_replied : Replied 4 1 loginRun unreachedRest := by
  have hrun : Runs (socks5Run 4) (loginRun ++ ⟨.enter .readrequest, ()⟩ :: requestHeader 4 1 0 1 ++
      unreachedRest) (.done (some 4)) := by
    repeat apply Runs.cons
    exact .nil _
  refine (socks5Run_replied_iff hrun rfl ?_ ?_ ?_ ?_).mpr ⟨rfl, .inl rfl, ?_, ?_⟩
  · simp [AllRead, unreachedRest, shortRead, chunkEvent]
  · simp [unreachedRest, chunkEvent]
  · simp [unreachedRest, chunkEvent]
  · simp [unreachedRest, chunkEvent]
    exact ⟨.inl ⟨rfl, rfl⟩, rfl⟩
  · simp [unreachedRest, chunkEvent]
  · simp [unreachedRest, chunkEvent]

/-- A request with the command 02 ends with the status 7, of which its client is not told. -/
theorem bind_unanswered :
    let after := [chunkEvent 4 [1, 2, 3, 4], chunkEvent 4 [0, 80], ⟨.leave .readrequest 0, ()⟩,
      ⟨.close 4, ()⟩, ⟨.close 0, ()⟩]
    Runs (socks5Run 4) (loginRun ++ ⟨.enter .readrequest, ()⟩ :: requestHeader 4 2 0 1 ++ after)
        (.done (some 7)) ∧ Authenticated 4 loginRun ∧ AllRead 4 after ∧
      ¬ Replied 4 2 loginRun after := by
  refine ⟨?_, ?_, ?_, not_replied ?_⟩
  · repeat apply Runs.cons
    exact .nil _
  · constructor <;> simp [loginRun, loginAccepted]
  · simp [AllRead, shortRead, chunkEvent]
  · simp [chunkEvent]

end Silksocks
