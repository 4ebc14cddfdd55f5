import Silksocks.Socks

/-! Which calls each function of `socks.c` makes. -/

namespace Silksocks

open Program Prog

attribute [local simp] call readByte readInto writen Option.forall

@[simp] theorem all_fault {α : Type} {P : Call → Prop} :
    (fault : Session α).All P ↔ P .fault :=
  ⟨fun h => h.1, fun h => ⟨h, fun r => r.elim⟩⟩

@[simp] theorem ends_fault {α : Type} {P : α → Prop} : (fault : Session α).Ends P :=
  fun r => r.elim

/-- A read from `fd`. -/
def Call.Reads (fd : Int) : Call → Prop
  | readn fd' _ => fd' = fd
  | fault => True
  | _ => False

@[simp] theorem reads_readn {fd fd' : Int} {n : Nat} :
    (Call.readn fd' n).Reads fd ↔ fd' = fd := Iff.rfl

@[simp] theorem reads_fault {fd : Int} : Call.fault.Reads fd := trivial

/-- A call to the table of names or to the resolver. -/
def Call.Resolves : Call → Prop
  | hashtblGet _ | hashtblPut _ _ _ | hostServ _ | time => True
  | _ => False

/-- A call to `cacheapp` or for a user in the database. -/
def Call.LooksUpUser : Call → Prop
  | cacheGetapp _ | cachePutapp _ _ | sqlgetApppasswd _ => True
  | _ => False

/-- A call to `cacheip` or for an upstream proxy in the database. -/
def Call.LooksUpProxy : Call → Prop
  | cacheGetip _ | cachePutip _ _ | sqlgetProxycreds _ _ _ => True
  | _ => False

theorem Call.Reads.not_looksUpProxy {fd : Int} {c : Call} (h : c.Reads fd) :
    ¬ c.LooksUpProxy := by
  cases c <;> simp_all [Reads, LooksUpProxy]

theorem readMethods_all (fd : Int) (b : Nat) (climethod : UInt8) :
    (readMethods fd b climethod).All (· = .readn fd 1) := by
  induction b generalizing climethod with
  | zero => trivial
  | succ b ih => simp [readMethods, ih]

theorem socks5Choosemethod_all (client : Socks5Cli) :
    (socks5Choosemethod client).All fun c =>
      c.Reads client.clientfd ∨ ∃ m, c = .writen client.clientfd [5, m] := by
  simp [socks5Choosemethod]
  refine fun _ _ b => ((readMethods_all _ _ _).mono ?_).bind fun r => by simp
  rintro c rfl
  simp

theorem socks5Readauth_all (client : Socks5Cli) :
    (socks5Readauth client).All fun c =>
      c.Reads client.clientfd ∨ c = .writen client.clientfd [1, 0] := by
  simp [socks5Readauth]

theorem socks5Doauth_all (client : Socks5Cli) :
    (socks5Doauth client).All Call.LooksUpUser := by
  simp [socks5Doauth, Call.LooksUpUser]

theorem resolve_all (request : Sockaddr) (host : List UInt8) :
    (resolve request host).All Call.Resolves := by
  simp [resolve, Prod.forall, Call.Resolves]

theorem socks5Readrequest_all (client : Socks5Cli) :
    (socks5Readrequest client).All fun c => c.Reads client.clientfd ∨ c.Resolves := by
  simp [socks5Readrequest]
  intro _ _ cmd _ _ _ atyp
  split
  · simp
  · simp
    refine fun _ _ _ => ((resolve_all _ _).mono fun c => .inr).bind fun r => ?_
    cases r <;> simp
  · simp
  · simp

theorem socks5Writereply_all (client : Socks5Cli) (status : Int) :
    (socks5Writereply client status).All fun c => c = .getsockname client.proxyfd ∨
      ∃ atyp b, c = .writen client.clientfd (5 :: UInt8.ofInt status :: 0 :: atyp :: b) := by
  simp [socks5Writereply]

theorem socks5Writerequest_all (client : Socks5Cli) :
    (socks5Writerequest client).All fun c =>
      ∃ b, c = .writen client.proxyfd (5 :: 1 :: 0 :: b) := by
  simp [socks5Writerequest]

theorem socks5Readreply_all (client : Socks5Cli) :
    (socks5Readreply client).All fun c => c.Reads client.proxyfd := by
  simp [socks5Readreply]
  intro buf
  split
  · simp
    intro _ _
    split <;> simp
  · simp

theorem proxyCreds_all (proxyip : UInt32) (proxyport : UInt16) :
    (proxyCreds proxyip proxyport).All Call.LooksUpProxy := by
  simp [proxyCreds, Call.LooksUpProxy]

/-- A call to the upstream proxy with the socket `fd`, or a lookup of its credentials.  No message
to the upstream begins as a reply of success does. -/
def Call.Upstream (fd : Int) (c : Call) : Prop :=
  c.Reads fd ∨ (∃ peer, c = .connectNonb fd peer) ∨ (∃ b, c = .writen fd b ∧ ¬ [5, 0] <+: b) ∨
    c.LooksUpProxy

theorem authMessage_not_success {creds : Creds} {data : List UInt8}
    (h : authMessage creds = some data) : ¬ [5, 0] <+: data := by
  simp only [authMessage] at h
  split at h
  · cases h
  · cases h
    simp

/-- `socks5_connectproxy` opens a socket first, and stores its descriptor.  What it writes then is
its greeting, the credentials, and the request. -/
theorem socks5Connectproxy_writes (client : Socks5Cli) {W : List UInt8 → Prop}
    (hgreeting : W [5, 1, 2])
    (hauth : ∀ creds data, authMessage creds = some data → W data)
    (hrequest : ∀ b, W (5 :: 1 :: 0 :: b)) :
    ∃ rest, socks5Connectproxy client = .call .socket rest ∧ ∀ fd,
      ((rest fd).All fun c => c.Reads fd ∨ (∃ peer, c = .connectNonb fd peer) ∨
        (∃ b, c = .writen fd b ∧ W b) ∨ c.LooksUpProxy) ∧
        (rest fd).Ends fun r => r.2 = { client with proxyfd := fd } := by
  simp only [socks5Connectproxy, call, writen, readInto_of_le (show 2 ≤ 512 by decide),
    Prog.call_bind, Prog.done_bind, Prog.pure_eq]
  refine ⟨_, rfl, fun fd => ⟨?_, ?_⟩⟩
  · simp [hgreeting]
    intro _ buf _
    refine ((proxyCreds_all _ _).mono fun c hc => .inr (.inr (.inr hc))).bind fun creds => ?_
    cases creds with
    | none => trivial
    | some creds =>
    dsimp only
    split
    next data hdata =>
      refine ⟨.inr (.inr (.inl ⟨data, rfl, hauth creds data hdata⟩)), ?_⟩
      simp
      intro buf _
      refine ((socks5Writerequest_all _).mono ?_).bind fun status => ?_
      · rintro _ ⟨b, rfl⟩
        exact .inr (.inr (.inl ⟨_, rfl, hrequest b⟩))
      · simp only [Prog.all_ite, Prog.all_done, implies_true, and_true]
        exact fun _ => ((socks5Readreply_all _).mono fun c hc => .inl hc).bind fun _ => trivial
    · simp
  · simp [Prog.ends_bind]
    refine fun _ buf _ => Prog.ends_true.mono fun creds _ => ?_
    cases creds with
    | none => rfl
    | some creds =>
    dsimp only
    split
    · simp [Prog.ends_bind]
      exact fun buf _ => Prog.ends_true.mono fun status _ _ => Prog.ends_true
    · simp

theorem socks5Connectproxy_all (client : Socks5Cli) :
    ∃ rest, socks5Connectproxy client = .call .socket rest ∧ ∀ fd,
      (rest fd).All (Call.Upstream fd) ∧
        (rest fd).Ends fun r => r.2 = { client with proxyfd := fd } :=
  socks5Connectproxy_writes client (by simp) (fun _ _ => authMessage_not_success) (by simp)

/-- The socket `fd` is the one that `socks5_connectproxy` opened and connected to the upstream of
its client. -/
def ConnectedUpstream (client : Socks5Cli) (fd : Int) (t : List SessionEvent) : Prop :=
  [⟨.socket, fd⟩, ⟨.connectNonb fd client.srvpeer, true⟩] <+: t

theorem ConnectedUpstream.append {client : Socks5Cli} {fd : Int} {t : List SessionEvent}
    (h : ConnectedUpstream client fd t) (t' : List SessionEvent) :
    ConnectedUpstream client fd (t ++ t') :=
  h.trans (List.prefix_append _ _)

/-! ### Descriptors of the client -/

/-- A client with the descriptors of another one. -/
def Socks5Cli.SameFds (client client' : Socks5Cli) : Prop :=
  client'.clientfd = client.clientfd ∧ client'.proxyfd = client.proxyfd

theorem socks5Readauth_sameFds (client : Socks5Cli) :
    (socks5Readauth client).Ends fun r => client.SameFds r.2 := by
  simp [socks5Readauth, Socks5Cli.SameFds]

theorem stripRedirectaddr_sameFds (client : Socks5Cli) :
    client.SameFds (stripRedirectaddr client).2 := by
  simp only [stripRedirectaddr]
  repeat' split
  all_goals exact ⟨rfl, rfl⟩

theorem socks5Readrequest_sameFds (client : Socks5Cli) :
    (socks5Readrequest client).Ends fun r => client.SameFds r.2 := by
  simp [socks5Readrequest, Socks5Cli.SameFds]
  intro _ _ cmd _ _ _ atyp
  split
  · simp
  · simp [ends_bind]
    intro _ _ _
    refine ends_true.mono fun request _ => ?_
    cases request <;> simp
  · simp
  · simp

theorem noted_ends {α : Type} {f : Fn} {status : α → Int} {p : Session α} {P : α → Prop}
    (hp : p.Ends P) : (noted f status p).Ends P := by
  simpa [noted_eq, ends_bind] using hp

theorem noted_all {α : Type} {f : Fn} {status : α → Int} {p : Session α} {P : Call → Prop}
    (hp : p.All P) (henter : P (.enter f)) (hleave : ∀ st, P (.leave f st)) :
    (noted f status p).All P := by
  rw [noted_eq]
  exact ⟨henter, fun _ => hp.bind fun a => ⟨hleave _, fun _ => trivial⟩⟩

/-- A note about one of the three checks of a login. -/
def Call.NotesLogin : Call → Prop
  | enter f | leave f _ => f = .readauth ∨ f = .stripRedirectaddr ∨ f = .doauth
  | _ => False

/-- A call of the authentication of a client. -/
def Call.Authenticates (clientfd : Int) (c : Call) : Prop :=
  (c.Reads clientfd ∨ c = .writen clientfd [1, 0]) ∨ c.LooksUpUser ∨ c.NotesLogin

theorem noted_authenticates {α : Type} {clientfd : Int} {f : Fn} {status : α → Int}
    {p : Session α} (hp : p.All (Call.Authenticates clientfd))
    (hf : f = .readauth ∨ f = .stripRedirectaddr ∨ f = .doauth) :
    (noted f status p).All (Call.Authenticates clientfd) :=
  noted_all hp (.inr (.inr hf)) fun _ => .inr (.inr hf)

theorem authenticate_all (client : Socks5Cli) (method : UInt8) :
    (authenticate client method).All (Call.Authenticates client.clientfd) := by
  have hauth : ∀ client' : Socks5Cli,
      (socks5Doauth client').All (Call.Authenticates client.clientfd) :=
    fun client' => (socks5Doauth_all client').mono fun c hc => .inr (.inl hc)
  unfold authenticate
  split
  · refine (noted_authenticates ((socks5Readauth_all client).mono fun c hc => .inl hc)
      (.inl rfl)).bind ?_
    rintro ⟨st1, client1⟩
    dsimp only
    split
    · trivial
    refine Prog.All.bind (noted_authenticates ?_ (.inr (.inl rfl))) ?_
    · trivial
    rintro ⟨st2, client2⟩
    dsimp only
    split
    · trivial
    exact (noted_authenticates (hauth client2) (.inr (.inr rfl))).bind fun _ => trivial
  · split <;> trivial

theorem authenticate_sameFds (client : Socks5Cli) (method : UInt8) :
    (authenticate client method).Ends fun r => client.SameFds r.2 := by
  unfold authenticate
  refine ends_ite.mpr ⟨fun _ => ?_, fun _ => by simp [Socks5Cli.SameFds]⟩
  refine ends_bind.mpr ((noted_ends (socks5Readauth_sameFds client)).mono fun r hr => ?_)
  refine ends_ite.mpr ⟨fun _ => hr, fun _ => ?_⟩
  have hstrip := stripRedirectaddr_sameFds r.2
  have hboth : client.SameFds (stripRedirectaddr r.2).2 :=
    ⟨hstrip.1.trans hr.1, hstrip.2.trans hr.2⟩
  refine ends_bind.mpr (noted_ends ?_)
  exact ends_ite.mpr ⟨fun _ => hboth, fun _ => ends_bind_of_forall fun _ => hboth⟩

end Silksocks
