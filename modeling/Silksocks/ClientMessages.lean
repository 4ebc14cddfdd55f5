import Silksocks.SessionGate

/-! What a client sends: the greeting, the login and the request, as bytes and as the reads of the
function that takes them.  A function that returns 0 has read one whole message. -/

namespace Silksocks

open Program Prog Contract

/-! ### Messages -/

/-- VER, NMETHODS, METHODS. -/
def greetingBytes (ms : List UInt8) : List UInt8 := [5, UInt8.ofNat ms.length] ++ ms

/-- VER, ULEN, UNAME, PLEN, PASSWD. -/
def loginBytes (user passwd : List UInt8) : List UInt8 :=
  [1, UInt8.ofNat user.length] ++ user ++ [UInt8.ofNat passwd.length] ++ passwd

/-- The reads of a login. -/
def login (fd : Int) (user passwd : List UInt8) : List SessionEvent :=
  [byteEvent fd 1, byteEvent fd (UInt8.ofNat user.length), chunkEvent fd user,
    byteEvent fd (UInt8.ofNat passwd.length), chunkEvent fd passwd]

/-- The reads of VER, CMD, RSV and ATYP. -/
def requestHeader (fd : Int) (cmd rsv atyp : UInt8) : List SessionEvent :=
  [byteEvent fd 5, byteEvent fd cmd, byteEvent fd rsv, byteEvent fd atyp]

/-- The bytes that a read of `fd` returns. -/
def readBytes (fd : Int) : SessionEvent → List UInt8
  | ⟨.readn fd' _, some bs⟩ => if fd' = fd then bs.val else []
  | _ => []

/-- What was read from `fd`. -/
def clientBytes (fd : Int) (t : List SessionEvent) : List UInt8 := t.flatMap (readBytes fd)

/-- A read of `fd` that gets fewer bytes than it asks for. -/
def shortRead (fd : Int) : SessionEvent → Bool
  | ⟨.readn fd' _, none⟩ => fd' = fd
  | _ => false

/-- Every read of `fd` got all its bytes. -/
def AllRead (fd : Int) (t : List SessionEvent) : Prop := ∀ e ∈ t, shortRead fd e = false

section Bytes

variable {fd : Int} {t t' : List SessionEvent}

@[simp] theorem readBytes_byteEvent (b : UInt8) : readBytes fd (byteEvent fd b) = [b] := by
  simp [readBytes, byteEvent, Bytes.ofByte]

@[simp] theorem readBytes_chunkEvent (bs : List UInt8) : readBytes fd (chunkEvent fd bs) = bs := by
  simp [readBytes, chunkEvent, Bytes.ofList]

theorem byteEvent_inj {b c : UInt8} : byteEvent fd b = byteEvent fd c ↔ b = c := by
  refine ⟨fun h => ?_, fun h => by rw [h]⟩
  have hbytes := congrArg (readBytes fd) h
  rwa [readBytes_byteEvent, readBytes_byteEvent, List.singleton_inj] at hbytes

@[simp] theorem clientBytes_nil : clientBytes fd [] = [] := rfl

@[simp] theorem clientBytes_cons (e : SessionEvent) :
    clientBytes fd (e :: t) = readBytes fd e ++ clientBytes fd t := rfl

@[simp] theorem clientBytes_append :
    clientBytes fd (t ++ t') = clientBytes fd t ++ clientBytes fd t' := List.flatMap_append

theorem clientBytes_greeting (ms : List UInt8) :
    clientBytes fd (greeting fd ms) = greetingBytes ms := by
  have hms : clientBytes fd (ms.map (byteEvent fd)) = ms := by
    induction ms with
    | nil => rfl
    | cons m ms ih => rw [List.map_cons, clientBytes_cons, ih, readBytes_byteEvent]; rfl
  simp [greeting, greetingBytes, hms]

theorem clientBytes_login (user passwd : List UInt8) :
    clientBytes fd (login fd user passwd) = loginBytes user passwd := by
  simp [login, loginBytes]

theorem clientBytes_eq_nil (h : ∀ e ∈ t, ∀ n, e.call ≠ .readn fd n) : clientBytes fd t = [] := by
  rw [clientBytes, List.flatMap_eq_nil_iff]
  rintro ⟨c, r⟩ he
  cases c with
  | readn fd' n =>
    have hne : fd' ≠ fd := fun heq => h _ he n (by rw [heq])
    cases r <;> simp [readBytes, hne]
  | _ => rfl

@[simp] theorem shortRead_byteEvent (b : UInt8) : shortRead fd (byteEvent fd b) = false := rfl

@[simp] theorem shortRead_chunkEvent (bs : List UInt8) : shortRead fd (chunkEvent fd bs) = false :=
  rfl

theorem shortRead_of_ne {e : SessionEvent} (h : ∀ n, e.call ≠ .readn fd n) :
    shortRead fd e = false := by
  obtain ⟨c, r⟩ := e
  cases c with
  | readn fd' n =>
    have hne : fd' ≠ fd := fun heq => h n (by rw [heq])
    cases r <;> simp [shortRead, hne]
  | _ => rfl

theorem allRead_append : AllRead fd (t ++ t') ↔ AllRead fd t ∧ AllRead fd t' :=
  List.forall_mem_append

theorem allRead_of_ne (h : ∀ e ∈ t, ∀ n, e.call ≠ .readn fd n) : AllRead fd t :=
  fun e he => shortRead_of_ne (h e he)

theorem allRead_of_chunks (h : ∀ e ∈ t, ∃ bs, e = chunkEvent fd bs) : AllRead fd t := by
  intro e he
  obtain ⟨bs, rfl⟩ := h e he
  rfl

theorem allRead_greeting (ms : List UInt8) : AllRead fd (greeting fd ms) := by
  simp [AllRead, greeting]

theorem allRead_requestHeader (cmd rsv atyp : UInt8) :
    AllRead fd (requestHeader fd cmd rsv atyp) := by
  simp [AllRead, requestHeader]

theorem clientBytes_requestHeader (cmd rsv atyp : UInt8) :
    clientBytes fd (requestHeader fd cmd rsv atyp) = [5, cmd, rsv, atyp] := by
  simp [requestHeader]

theorem allRead_login (user passwd : List UInt8) : AllRead fd (login fd user passwd) := by
  simp [AllRead, login]

end Bytes

/-! ### Complete runs -/

section Runs

variable {client c : Socks5Cli} {t : List SessionEvent} {st : Int}

theorem choosemethod_runs {m : UInt8} (h : Runs (socks5Choosemethod client) t (.done (0, m))) :
    ∃ ms : List UInt8, ms.length < 256 ∧ m = (if 2 ∈ ms then 2 else 0xFF) ∧
      t = greeting client.clientfd ms ++ [⟨.writen client.clientfd [5, m], true⟩] := by
  have hwp : (gate client.clientfd).wp (fun t r => r.1 = 0 → ∃ ms : List UInt8, ms.length < 256 ∧
      r.2 = (if 2 ∈ ms then 2 else 0xFF) ∧
      t = greeting client.clientfd ms ++ [⟨.writen client.clientfd [5, r.2], true⟩]) []
      (socks5Choosemethod client) := by
    refine socks5Choosemethod_gate (fun ms hlen m hm _ => ⟨ms, hlen, hm, rfl⟩) ?_
    intro _ st m hst hzero
    exact absurd hzero hst
  exact history_runs hwp h (fun _ _ => trivial) rfl

variable {α β : Type} {fd : Int} {a : β}

theorem runs_call_done {c : Call} {next : c.Result → Session β} :
    Runs (.call c next) t (.done a) ↔ ∃ r t', t = ⟨c, r⟩ :: t' ∧ Runs (next r) t' (.done a) := by
  simp [runs_call]

theorem runs_readn {n : Nat} {next : Option (Bytes n) → Session β} :
    Runs (.call (.readn fd n) next) t (.done a) ↔
      (∃ t', t = ⟨.readn fd n, none⟩ :: t' ∧ Runs (next none) t' (.done a)) ∨
        ∃ bs t', t = chunkEvent fd bs.val :: t' ∧ Runs (next (some bs)) t' (.done a) := by
  rw [runs_call_done]
  constructor
  · rintro ⟨r, t', rfl, hrun⟩
    cases r with
    | none => exact .inl ⟨t', rfl, hrun⟩
    | some bs => exact .inr ⟨bs, t', by rw [chunkEvent_eq], hrun⟩
  · rintro (⟨t', rfl, hrun⟩ | ⟨bs, t', rfl, hrun⟩)
    · exact ⟨none, t', rfl, hrun⟩
    · exact ⟨some bs, t', by rw [chunkEvent_eq], hrun⟩

theorem runs_chunk {n : Nat} {next : Option (Bytes n) → Session β} {bs : List UInt8} {q : Session β}
    (hn : bs.length = n) (h : Runs (next (some ⟨bs, hn⟩)) t q) :
    Runs (.call (.readn fd n) next) (chunkEvent fd bs :: t) q := by
  subst hn
  exact .cons h

theorem runs_readByte {f : Option UInt8 → Session β} :
    Runs (readByte fd >>= f) t (.done a) ↔
      (∃ t', t = ⟨.readn fd 1, none⟩ :: t' ∧ Runs (f none) t' (.done a)) ∨
        ∃ b t', t = byteEvent fd b :: t' ∧ Runs (f (some b)) t' (.done a) := by
  simp only [readByte, call_bind, done_bind, runs_call_done]
  constructor
  · rintro ⟨r, t', rfl, hrun⟩
    cases r with
    | none => exact .inl ⟨t', rfl, hrun⟩
    | some b => exact .inr ⟨b.byte, t', by rw [byteEvent_eq], hrun⟩
  · rintro (⟨t', rfl, hrun⟩ | ⟨b, t', rfl, hrun⟩)
    · exact ⟨none, t', rfl, hrun⟩
    · exact ⟨some (.ofByte b), t', rfl, hrun⟩

/-- `socks5_readauth` returns 0 when it has read a login and written 01 00, and 1 when it has
not. -/
theorem readauth_runs (h : Runs (socks5Readauth client) t (.done (st, c))) :
    (st = 0 ∧ ∃ user passwd : List UInt8, user.length < 256 ∧ passwd.length < 256 ∧
      c = { client with user := cstr user, passwd := cstr passwd } ∧
      t = login client.clientfd user passwd ++ [⟨.writen client.clientfd [1, 0], true⟩]) ∨
    (st = 1 ∧ ⟨.writen client.clientfd [1, 0], true⟩ ∉ t) := by
  simp only [socks5Readauth, readInto_byte, writen, call_bind, done_bind, pure_eq] at h
  rcases runs_readByte.mp h with ⟨t1, rfl, h1⟩ | ⟨ver, t1, rfl, h1⟩
  · obtain ⟨rfl, hend⟩ := runs_done.mp h1
    cases hend
    exact .inr ⟨rfl, by simp⟩
  dsimp only at h1
  split at h1
  · obtain ⟨rfl, hend⟩ := runs_done.mp h1
    cases hend
    exact .inr ⟨rfl, by simp [byteEvent]⟩
  rename_i hver
  rcases runs_readByte.mp h1 with ⟨t2, rfl, h2⟩ | ⟨ulen, t2, rfl, h2⟩
  · obtain ⟨rfl, hend⟩ := runs_done.mp h2
    cases hend
    exact .inr ⟨rfl, by simp [byteEvent]⟩
  rcases runs_readn.mp h2 with ⟨t3, rfl, h3⟩ | ⟨⟨user, hulen⟩, t3, rfl, h3⟩
  · obtain ⟨rfl, hend⟩ := runs_done.mp h3
    cases hend
    exact .inr ⟨rfl, by simp [byteEvent]⟩
  rcases runs_readByte.mp h3 with ⟨t4, rfl, h4⟩ | ⟨plen, t4, rfl, h4⟩
  · obtain ⟨rfl, hend⟩ := runs_done.mp h4
    cases hend
    exact .inr ⟨rfl, by simp [byteEvent, chunkEvent]⟩
  rcases runs_readn.mp h4 with ⟨t5, rfl, h5⟩ | ⟨⟨passwd, hplen⟩, t5, rfl, h5⟩
  · obtain ⟨rfl, hend⟩ := runs_done.mp h5
    cases hend
    exact .inr ⟨rfl, by simp [byteEvent, chunkEvent]⟩
  obtain ⟨r, t6, rfl, h6⟩ := runs_call_done.mp h5
  cases r with
  | false =>
    obtain ⟨rfl, hend⟩ := runs_done.mp h6
    cases hend
    exact .inr ⟨rfl, by simp [byteEvent, chunkEvent]⟩
  | true =>
    obtain ⟨rfl, hend⟩ := runs_done.mp h6
    cases hend
    refine .inl ⟨rfl, user, passwd, hulen ▸ ulen.toNat_lt, hplen ▸ plen.toNat_lt, rfl, ?_⟩
    have hu : ulen = UInt8.ofNat user.length := by rw [hulen, UInt8.ofNat_toNat]
    have hp : plen = UInt8.ofNat passwd.length := by rw [hplen, UInt8.ofNat_toNat]
    rw [not_not.mp hver, login, ← hu, ← hp]
    rfl

theorem runs_noted {f : Fn} {status : β → Int} {p : Session β} :
    Runs (noted f status p) t (.done a) ↔ ∃ t', t = [⟨.enter f, ()⟩] ++ t' ++
      [⟨.leave f (status a), ()⟩] ∧ Runs p t' (.done a) := by
  rw [noted_eq, runs_call_done]
  constructor
  · rintro ⟨-, t1, rfl, hrun⟩
    obtain ⟨b, t2, t3, rfl, hp, hleave⟩ := runs_bind_done.mp hrun
    obtain ⟨-, t4, rfl, hend⟩ := runs_call_done.mp hleave
    obtain ⟨rfl, heq⟩ := runs_done.mp hend
    cases heq
    exact ⟨t2, rfl, hp⟩
  · rintro ⟨t', rfl, hrun⟩
    exact ⟨(), _, rfl, hrun.bind.append (.cons (.nil _))⟩

/-- The client with a login. -/
def Socks5Cli.withLogin (client : Socks5Cli) (user passwd : List UInt8) : Socks5Cli :=
  { client with user := cstr user, passwd := cstr passwd }

/-- Behind a login `socks5_readauth` writes 01 00. -/
theorem readauth_login (client : Socks5Cli) {user passwd : List UInt8} (hu : user.length < 256)
    (hp : passwd.length < 256) :
    Runs (socks5Readauth client) (login client.clientfd user passwd)
      (.call (.writen client.clientfd [1, 0]) fun r =>
        if !r then .done (1, client.withLogin user passwd)
        else .done (0, client.withLogin user passwd)) := by
  have hlen : ∀ bs : List UInt8, bs.length < 256 → bs.length = (UInt8.ofNat bs.length).toNat := by
    intro bs hbs
    simpa using (Nat.mod_eq_of_lt hbs).symm
  simp only [socks5Readauth, readByte, readInto_byte, writen, call_bind, done_bind, pure_eq]
  refine .cons (.cons (runs_chunk (hlen user hu) (.cons (runs_chunk (hlen passwd hp) ?_))))
  exact .nil _

/-- The events of a login that passes the first two checks, up to the lookup of the user. -/
def loginAccepted (fd : Int) (user passwd : List UInt8) : List SessionEvent :=
  [⟨.enter .readauth, ()⟩] ++ login fd user passwd ++
    [⟨.writen fd [1, 0], true⟩, ⟨.leave .readauth 0, ()⟩, ⟨.enter .stripRedirectaddr, ()⟩,
      ⟨.leave .stripRedirectaddr 0, ()⟩, ⟨.enter .doauth, ()⟩]

/-- How a run of the authentication with the method 02 ends. -/
inductive AuthEnd (client : Socks5Cli) : List SessionEvent → Int × Socks5Cli → Prop
  /-- No login was read, or 01 00 not written. -/
  | unread {t : List SessionEvent} {c : Socks5Cli}
    (hrun : Runs (socks5Readauth client) t (.done (1, c)))
    (h : ⟨.writen client.clientfd [1, 0], true⟩ ∉ t) :
    AuthEnd client ([⟨.enter .readauth, ()⟩] ++ t ++ [⟨.leave .readauth 1, ()⟩]) (1, c)
  | malformed {user passwd : List UInt8} {st : Int} {c : Socks5Cli}
    (hu : user.length < 256) (hp : passwd.length < 256)
    (hstrip : stripRedirectaddr (client.withLogin user passwd) = (st, c)) (hst : st ≠ 0) :
    AuthEnd client ([⟨.enter .readauth, ()⟩] ++ login client.clientfd user passwd ++
      [⟨.writen client.clientfd [1, 0], true⟩, ⟨.leave .readauth 0, ()⟩,
        ⟨.enter .stripRedirectaddr, ()⟩, ⟨.leave .stripRedirectaddr st, ()⟩]) (st, c)
  /-- The user was looked up. -/
  | checked {user passwd : List UInt8} {t : List SessionEvent} {st : Int} {c : Socks5Cli}
    (hu : user.length < 256) (hp : passwd.length < 256)
    (hstrip : stripRedirectaddr (client.withLogin user passwd) = (0, c))
    (hrun : Runs (socks5Doauth c) t (.done st)) :
    AuthEnd client (loginAccepted client.clientfd user passwd ++ t ++ [⟨.leave .doauth st, ()⟩])
      (st, c)

theorem authenticate_runs (h : Runs (authenticate client 2) t (.done (st, c))) :
    AuthEnd client t (st, c) := by
  unfold authenticate at h
  rw [if_pos rfl] at h
  obtain ⟨⟨st1, c1⟩, _, t2, rfl, h1, h2⟩ := runs_bind_done.mp h
  obtain ⟨t1, rfl, hread⟩ := runs_noted.mp h1
  dsimp only at h2
  rcases readauth_runs hread with ⟨rfl, user, passwd, hu, hp, rfl, rfl⟩ | ⟨rfl, htold⟩
  case inr =>
    obtain ⟨rfl, hend⟩ := runs_done.mp h2
    cases hend
    rw [List.append_nil]
    exact .unread hread htold
  rw [if_neg (not_not.mpr rfl)] at h2
  obtain ⟨⟨st2, c2⟩, _, t4, rfl, h3, h4⟩ := runs_bind_done.mp h2
  obtain ⟨t3, rfl, hstrip⟩ := runs_noted.mp h3
  obtain ⟨rfl, hc2⟩ := runs_done.mp hstrip
  have hc2 := (Prog.done.inj hc2).symm
  dsimp only at h4
  split at h4
  · rename_i hst
    obtain ⟨rfl, hend⟩ := runs_done.mp h4
    cases hend
    simpa using AuthEnd.malformed hu hp hc2 hst
  rename_i hst2
  rw [not_not] at hst2
  subst hst2
  obtain ⟨st3, _, t6, rfl, h5, h6⟩ := runs_bind_done.mp h4
  obtain ⟨t5, rfl, hauth⟩ := runs_noted.mp h5
  obtain ⟨rfl, hend⟩ := runs_done.mp h6
  cases hend
  simpa [loginAccepted] using AuthEnd.checked hu hp hc2 hauth

/-- With the method 02, a session is authenticated behind a login that passes all three checks. -/
theorem authenticate_accepts (h : Runs (authenticate client 2) t (.done (0, c))) :
    ∃ user passwd t', user.length < 256 ∧ passwd.length < 256 ∧
      stripRedirectaddr (client.withLogin user passwd) = (0, c) ∧
      Runs (socks5Doauth c) t' (.done 0) ∧
      t = loginAccepted client.clientfd user passwd ++ t' ++ [⟨.leave .doauth 0, ()⟩] := by
  cases authenticate_runs h with
  | malformed _ _ _ hst => exact absurd rfl hst
  | checked hu hp hstrip hrun => exact ⟨_, _, _, hu, hp, hstrip, hrun, rfl⟩

/-- How a run of `socks5_readrequest` ends. -/
inductive RequestEnd (client : Socks5Cli) : List SessionEvent → Int × Socks5Cli → Prop
  /-- A client read error. -/
  | short {t : List SessionEvent} {c : Socks5Cli} (h : ¬ AllRead client.clientfd t) :
    RequestEnd client t (1, c)
  | version (ver : UInt8) (h : ver ≠ 5) :
    RequestEnd client [byteEvent client.clientfd ver] (1, client)
  | command (cmd : UInt8) :
    RequestEnd client [byteEvent client.clientfd 5, byteEvent client.clientfd cmd] (7, client)
  /-- An undefined ATYP. -/
  | undefined (cmd rsv atyp : UInt8) (h : atyp ≠ 1 ∧ atyp ≠ 3 ∧ atyp ≠ 4) :
    RequestEnd client (requestHeader client.clientfd cmd rsv atyp) (8, { client with cmd })
  | unresolved (cmd rsv len : UInt8) (name : List UInt8) (t : List SessionEvent) :
    RequestEnd client (requestHeader client.clientfd cmd rsv 3 ++
      [byteEvent client.clientfd len, chunkEvent client.clientfd name] ++ t ++
      [⟨.hostServ (cstr name), none⟩])
      (4, { client with cmd, request.family := .inet })
  /-- A whole request.  Its name, if it has one, is resolved before the port is read. -/
  | read (cmd rsv atyp : UInt8) (addr port : List UInt8) (request : Sockaddr)
    (t t' : List SessionEvent)
    (haddr : BoundAddr atyp addr) (hport : port.length = 2)
    (ht : ∀ e ∈ t', e.call.Resolves ∧ ∀ host, e ≠ ⟨.hostServ host, none⟩)
    (hbytes : clientBytes client.clientfd t = addr)
    (hread : ∀ e ∈ t, ∃ bs, e = chunkEvent client.clientfd bs) :
    RequestEnd client (requestHeader client.clientfd cmd rsv atyp ++ t ++ t' ++
      [chunkEvent client.clientfd port]) (0, { client with cmd, request })

theorem resolve_ends {request : Sockaddr} {host : List UInt8} {o : Option Sockaddr}
    (h : Runs (resolve request host) t (.done o)) :
    (o = none ∧ ∃ t', t = t' ++ [⟨.hostServ host, none⟩]) ∨
      ∃ sa, o = some sa ∧ ∀ e ∈ t, e.call.Resolves ∧ ∀ host, e ≠ ⟨.hostServ host, none⟩ := by
  simp only [resolve, call, call_bind, done_bind, pure_eq] at h
  obtain ⟨⟨now, found⟩, t1, rfl, h1⟩ := runs_call_done.mp h
  cases found with
  | some addr =>
    obtain ⟨rfl, hend⟩ := runs_done.mp h1
    cases hend
    exact .inr ⟨_, rfl, by simp [Call.Resolves]⟩
  | none =>
    obtain ⟨found, t2, rfl, h2⟩ := runs_call_done.mp h1
    cases found with
    | none =>
      obtain ⟨rfl, hend⟩ := runs_done.mp h2
      cases hend
      exact .inl ⟨rfl, [_], rfl⟩
    | some addr =>
      obtain ⟨now, t3, rfl, h3⟩ := runs_call_done.mp h2
      obtain ⟨put, t4, rfl, h4⟩ := runs_call_done.mp h3
      obtain ⟨rfl, hend⟩ := runs_done.mp h4
      cases hend
      exact .inr ⟨_, rfl, by simp [Call.Resolves]⟩

/-- A read that fails ends the request. -/
theorem RequestEnd.of_short {n : Nat} {t' : List SessionEvent} {r : Int × Socks5Cli}
    (t : List SessionEvent) (h : Runs (.done (1, c)) t' (.done r)) :
    RequestEnd client (t ++ ⟨.readn client.clientfd n, none⟩ :: t') r := by
  obtain ⟨rfl, hend⟩ := runs_done.mp h
  cases hend
  exact .short (by simp [AllRead, shortRead])

theorem readrequest_runs {r : Int × Socks5Cli}
    (h : Runs (socks5Readrequest client) t (.done r)) : RequestEnd client t r := by
  simp only [socks5Readrequest, readInto_byte, readInto_of_le (show 4 ≤ 256 by decide),
    readInto_of_le (show 2 ≤ 256 by decide), readInto_of_le (show 16 ≤ 256 by decide),
    call_bind, done_bind, pure_eq] at h
  rcases runs_readByte.mp h with ⟨t1, rfl, h1⟩ | ⟨ver, t1, rfl, h1⟩
  · exact RequestEnd.of_short [] h1
  dsimp only at h1
  split at h1
  · rename_i hver
    obtain ⟨rfl, hend⟩ := runs_done.mp h1
    cases hend
    exact .version ver hver
  rename_i hver
  rw [not_not] at hver
  subst hver
  rcases runs_readByte.mp h1 with ⟨t2, rfl, h2⟩ | ⟨cmd, t2, rfl, h2⟩
  · exact RequestEnd.of_short [_] h2
  dsimp only at h2
  split at h2
  · obtain ⟨rfl, hend⟩ := runs_done.mp h2
    cases hend
    exact .command cmd
  rcases runs_readByte.mp h2 with ⟨t3, rfl, h3⟩ | ⟨rsv, t3, rfl, h3⟩
  · exact RequestEnd.of_short [_, _] h3
  rcases runs_readByte.mp h3 with ⟨t4, rfl, h4⟩ | ⟨atyp, t4, rfl, h4⟩
  · exact RequestEnd.of_short [_, _, _] h4
  dsimp only at h4
  split at h4
  · -- an address of IPv4
    rcases runs_readn.mp h4 with ⟨t5, rfl, h5⟩ | ⟨⟨addr, haddr⟩, t5, rfl, h5⟩
    · exact RequestEnd.of_short [_, _, _, _] h5
    rcases runs_readn.mp h5 with ⟨t6, rfl, h6⟩ | ⟨⟨port, hport⟩, t6, rfl, h6⟩
    · exact RequestEnd.of_short [_, _, _, _, _] h6
    obtain ⟨rfl, hend⟩ := runs_done.mp h6
    cases hend
    exact .read cmd rsv 1 addr port _ [chunkEvent _ addr] [] (.ipv4 haddr) hport (by simp)
      (by simp) (by simp)
  · -- a name
    rcases runs_readByte.mp h4 with ⟨t5, rfl, h5⟩ | ⟨len, t5, rfl, h5⟩
    · exact RequestEnd.of_short [_, _, _, _] h5
    rcases runs_readn.mp h5 with ⟨t6, rfl, h6⟩ | ⟨⟨name, hname⟩, t6, rfl, h6⟩
    · exact RequestEnd.of_short [_, _, _, _, _] h6
    obtain ⟨o, t7, t8, rfl, hresolve, h7⟩ := runs_bind_done.mp h6
    rcases resolve_ends hresolve with ⟨rfl, t7, rfl⟩ | ⟨request, rfl, ht7⟩
    · obtain ⟨rfl, hend⟩ := runs_done.mp h7
      cases hend
      simpa [requestHeader] using RequestEnd.unresolved cmd rsv len name t7
    rcases runs_readn.mp h7 with ⟨t9, rfl, h8⟩ | ⟨⟨port, hport⟩, t9, rfl, h8⟩
    · exact RequestEnd.of_short (_ :: _ :: _ :: _ :: _ :: _ :: t7) h8
    obtain ⟨rfl, hend⟩ := runs_done.mp h8
    cases hend
    simpa [requestHeader, byteEvent_chunk] using RequestEnd.read cmd rsv 3 (len :: name) port _
      [chunkEvent _ [len], chunkEvent _ name] t7 (.name hname) hport ht7 (by simp) (by simp)
  · -- an address of IPv6
    rcases runs_readn.mp h4 with ⟨t5, rfl, h5⟩ | ⟨⟨addr, haddr⟩, t5, rfl, h5⟩
    · exact RequestEnd.of_short [_, _, _, _] h5
    rcases runs_readn.mp h5 with ⟨t6, rfl, h6⟩ | ⟨⟨port, hport⟩, t6, rfl, h6⟩
    · exact RequestEnd.of_short [_, _, _, _, _] h6
    obtain ⟨rfl, hend⟩ := runs_done.mp h6
    cases hend
    exact .read cmd rsv 4 addr port _ [chunkEvent _ addr] [] (.ipv6 haddr) hport (by simp)
      (by simp) (by simp)
  · rename_i hipv4 hname hipv6
    obtain ⟨rfl, hend⟩ := runs_done.mp h4
    cases hend
    exact .undefined cmd rsv atyp ⟨hipv4, hname, hipv6⟩

end Runs

end Silksocks
