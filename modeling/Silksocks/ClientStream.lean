import Silksocks.ClientMessages
import Silksocks.Silkio

/-! A session with a client that sends a stream of bytes, which arrive in pieces of any size.  The
handshake does not depend on the pieces, and it leaves to the relay just what the client sends
behind its request. -/

namespace Silksocks

open Program Prog Contract

/-! ### The surroundings of a session -/

/-- All that a session calls, but for the reads of its client: the relay gets the bytes that the
client's socket still holds. -/
structure World (ω : Type) where
  clientfd : Int
  answer : (c : Call) → ω → Option (c.Result × ω)
  relay : (clientfd proxyfd : Int) → List UInt8 → ω → Option (Int × ω)
  /-- The client's descriptor is open, so that no new socket gets it. -/
  fresh : ∀ w fd w', answer .socket w = some (fd, w') → fd ≠ clientfd

/-- A session so far: what its client still sends, what each read of the client has stored, the
state of the surroundings, the calls, and what the relay was left with. -/
structure SessionView (ω : Type) where
  input : List UInt8
  stored : List (List UInt8)
  world : ω
  events : List SessionEvent
  relayed : Option (List UInt8)

/-- A session, and how its client's bytes arrive. -/
structure SessionState (ω : Type) where
  schedule : List Arrival
  view : SessionView ω

def SessionView.start {ω : Type} (input : List UInt8) (w : ω) : SessionView ω :=
  ⟨input, [], w, [], none⟩

/-- What a caller of `readn_timeo` learns: whether all `n` bytes are there. -/
def readResult (n : Nat) (ret : Int) (stored : List UInt8) : Option (Bytes n) :=
  if h : stored.length = n then (if ret = n then some ⟨stored, h⟩ else none) else none

variable {ω : Type} {α : Type}

/-- A read of the client that leaves `input`. -/
def SessionView.read (v : SessionView ω) (e : SessionEvent) (stored input : List UInt8) :
    SessionView ω :=
  { v with input, stored := v.stored ++ [stored], events := v.events ++ [e] }

namespace World

variable (world : World ω)

/-- A call that reads nothing from the client. -/
def call : (c : Call) → SessionView ω → Option (c.Result × SessionView ω)
  | .negotiate clientfd proxyfd, v =>
    (world.relay clientfd proxyfd v.input v.world).map fun (r, w) =>
      (r, { v with
        world := w
        events := v.events ++ [⟨.negotiate clientfd proxyfd, r⟩]
        relayed := some v.input })
  | c, v => (world.answer c v.world).map fun (r, w) =>
      (r, { v with world := w, events := v.events ++ [⟨c, r⟩] })

/-- A call of a session whose client is read with `readn_timeo`. -/
def env : (c : Call) → SessionState ω → Option (c.Result × SessionState ω)
  | .readn fd n, ⟨schedule, v⟩ =>
    if fd = world.clientfd then
      (readnTimeo n ⟨schedule, v.input⟩).map fun (ret, stored, src) =>
        (readResult n ret stored,
          ⟨src.schedule, v.read ⟨.readn fd n, readResult n ret stored⟩ stored src.input⟩)
    else (world.call (.readn fd n) v).map fun x => (x.1, ⟨schedule, x.2⟩)
  | c, ⟨schedule, v⟩ => (world.call c v).map fun x => (x.1, ⟨schedule, x.2⟩)

/-- A call of a session whose client is read at once. -/
def stream : (c : Call) → SessionView ω → Option (c.Result × SessionView ω)
  | .readn fd n, v =>
    if fd = world.clientfd then
      let r := readResult n (v.input.take n).length (v.input.take n)
      some (r, v.read ⟨.readn fd n, r⟩ (v.input.take n) (v.input.drop n))
    else world.call (.readn fd n) v
  | c, v => world.call c v

/-- The outcome of a program, and the session after it. -/
def run (p : Session α) (schedule : List Arrival) (v : SessionView ω) :
    Option (α × SessionView ω) :=
  (p.eval world.env ⟨schedule, v⟩).map fun x => (x.1, x.2.view)

variable {world}

theorem env_stream (c : Call) (s : SessionState ω) (h : NoError s.schedule) :
    (∀ r s', world.env c s = some (r, s') → NoError s'.schedule) ∧
      (world.env c s).map (fun x => (x.1, x.2.view)) = world.stream c s.view := by
  obtain ⟨schedule, v⟩ := s
  have hcall : ∀ c, (∀ r s',
      ((world.call c v).map fun x => (x.1, (⟨schedule, x.2⟩ : SessionState ω))) = some (r, s') →
        NoError s'.schedule) ∧
      ((world.call c v).map fun x => (x.1, (⟨schedule, x.2⟩ : SessionState ω))).map
        (fun x => (x.1, x.2.view)) = world.call c v := by
    intro c
    cases world.call c v with
    | none => simp
    | some x =>
      refine ⟨fun r s' hx => ?_, rfl⟩
      cases hx
      exact h
  cases c with
  | readn fd n =>
    dsimp only [env, stream]
    by_cases hfd : fd = world.clientfd
    · obtain ⟨schedule', h', hread⟩ := readnTimeo_stream n v.input h
      rw [if_pos hfd, if_pos hfd, hread]
      refine ⟨fun r s' hx => ?_, rfl⟩
      cases hx
      exact h'
    · rw [if_neg hfd, if_neg hfd]
      exact hcall _
  | _ => exact hcall _

/-- What a program does depends on the stream, not on how it arrives. -/
theorem run_eq (p : Session α) {schedule : List Arrival} (h : NoError schedule)
    (v : SessionView ω) : world.run p schedule v = p.eval world.stream v :=
  eval_map (I := fun s => NoError s.schedule) SessionState.view h env_stream

theorem answers_chunks (world : World ω) (bss : List (List UInt8)) {v : SessionView ω}
    {rest : List UInt8}
    (hv : v.input = bss.flatten ++ rest) :
    ∃ v', Answers world.stream v (bss.map (chunkEvent world.clientfd)) v' ∧ v'.input = rest ∧
      v'.world = v.world := by
  induction bss generalizing v with
  | nil => exact ⟨v, .nil v, by simpa using hv, rfl⟩
  | cons bs bss ih =>
    rw [List.flatten_cons, List.append_assoc] at hv
    have htake : v.input.take bs.length = bs := by rw [hv, List.take_left]
    have hdrop : v.input.drop bs.length = bss.flatten ++ rest := by rw [hv, List.drop_left]
    obtain ⟨v', hanswers, hinput, hworld⟩ :=
      ih (v := v.read (chunkEvent world.clientfd bs) bs (bss.flatten ++ rest)) rfl
    refine ⟨v', .cons ?_ hanswers, hinput, hworld⟩
    dsimp only [stream]
    rw [if_pos rfl, htake, hdrop, readResult, dif_pos rfl, if_pos rfl]
    rfl

end World

/-! ### What is read before the relay -/

/-- A request: VER, CMD, RSV, ATYP, DST.ADDR, DST.PORT. -/
def RequestBytes (bs : List UInt8) : Prop :=
  ∃ cmd rsv atyp addr port, BoundAddr atyp addr ∧ port.length = 2 ∧
    bs = [5, cmd, rsv, atyp] ++ addr ++ port

/-- A session has answered a greeting with the methods `ms`, and every read of its client got all
its bytes. -/
structure Greeted (clientfd : Int) (before : List SessionEvent) (ms : List UInt8) : Prop where
  all_read : AllRead clientfd before
  methods_lt : ms.length < 256
  selected : ⟨.writen clientfd [5, if 2 ∈ ms then 2 else 0xFF], true⟩ ∈ before

/-- The login of a session that selected the method 02; one that did not reads none. -/
def AuthBytes (ms auth : List UInt8) : Prop :=
  if 2 ∈ ms then ∃ user passwd : List UInt8, user.length < 256 ∧ passwd.length < 256 ∧
    auth = loginBytes user passwd
  else auth = []

/-- A session has read the messages of a handshake, and nothing else. -/
structure Messages (clientfd : Int) (before : List SessionEvent) (ms auth request : List UInt8) :
    Prop extends Greeted clientfd before ms where
  auth_bytes : AuthBytes ms auth
  request_bytes : RequestBytes request
  bytes_eq : clientBytes clientfd before = greetingBytes ms ++ auth ++ request

/-- The start of the relay. -/
def Call.Relays (c : Call) : Prop := ∃ clientfd proxyfd, c = .negotiate clientfd proxyfd

/-- The contract of a session whose sockets are new: it reads all messages before it starts the
relay. -/
abbrev messages (clientfd : Int) : Contract (List SessionEvent) Call.Result :=
  history (fun before c => c.Relays → ∃ ms auth request, Messages clientfd before ms auth request)
    fun e => e ≠ ⟨.socket, clientfd⟩

section Messages

variable {fd : Int} {s : List SessionEvent} {β : Type}

theorem Call.Reads.not_relays {fd : Int} {c : Call} (h : c.Reads fd) : ¬ c.Relays := by
  rintro ⟨a, b, rfl⟩
  exact h

/-- A function that does not start the relay, by its complete runs. -/
theorem messages_of_runs {p : Session β} {Q : List SessionEvent → β → Prop}
    (hp : p.All fun c => ¬ c.Relays)
    (hQ : ∀ t a, Runs p t (.done a) → (∀ e ∈ t, e ≠ ⟨.socket, fd⟩) → Q (s ++ t) a) :
    (messages fd).wp Q s p :=
  history_of_runs hp (fun _ _ hc hrelays => absurd hrelays hc) hQ

theorem noted_not_relays {f : Fn} {status : β → Int} {p : Session β}
    (hp : p.All fun c => ¬ c.Relays) : (noted f status p).All fun c => ¬ c.Relays :=
  noted_all hp (by simp [Call.Relays]) (by simp [Call.Relays])

theorem socks5Choosemethod_not_relays (client : Socks5Cli) :
    (socks5Choosemethod client).All fun c => ¬ c.Relays := by
  refine (socks5Choosemethod_all client).mono fun c hc => ?_
  rcases hc with hc | ⟨m, rfl⟩
  · exact hc.not_relays
  · simp [Call.Relays]

theorem socks5Readrequest_not_relays (client : Socks5Cli) :
    (socks5Readrequest client).All fun c => ¬ c.Relays := by
  refine (socks5Readrequest_all client).mono fun c hc => ?_
  rcases hc with hc | hc
  · exact hc.not_relays
  · rintro ⟨a, b, rfl⟩
    exact hc

theorem authenticate_not_relays (client : Socks5Cli) (m : UInt8) :
    (authenticate client m).All fun c => ¬ c.Relays := by
  refine (authenticate_all client m).mono fun c hc => ?_
  rintro ⟨a, b, rfl⟩
  rcases hc with (hc | hc) | hc | hc
  · exact hc
  · cases hc
  · exact hc
  · exact hc

theorem Greeted.append {t : List SessionEvent} {ms : List UInt8} (h : Greeted fd s ms)
    (ht : AllRead fd t) : Greeted fd (s ++ t) ms :=
  ⟨allRead_append.mpr ⟨h.all_read, ht⟩, h.methods_lt, List.mem_append_left _ h.selected⟩

theorem Messages.append {t : List SessionEvent} {ms auth request : List UInt8}
    (h : Messages fd s ms auth request) (ht : ∀ e ∈ t, ∀ n, e.call ≠ .readn fd n) :
    Messages fd (s ++ t) ms auth request where
  toGreeted := h.toGreeted.append (allRead_of_ne ht)
  auth_bytes := h.auth_bytes
  request_bytes := h.request_bytes
  bytes_eq := by rw [clientBytes_append, clientBytes_eq_nil ht, List.append_nil, h.bytes_eq]

theorem choosemethod_greeted {client : Socks5Cli} {t : List SessionEvent} {m : UInt8}
    (h : Runs (noted .choosemethod Prod.fst (socks5Choosemethod client)) t (.done (0, m))) :
    ∃ ms, m = (if 2 ∈ ms then 2 else 0xFF) ∧ Greeted client.clientfd t ms ∧
      clientBytes client.clientfd t = greetingBytes ms := by
  obtain ⟨t, rfl, hrun⟩ := runs_noted.mp h
  obtain ⟨ms, hlen, rfl, rfl⟩ := choosemethod_runs hrun
  refine ⟨ms, rfl, ⟨?_, hlen, by simp⟩, ?_⟩
  · simp only [allRead_append, allRead_greeting, true_and]
    simp [AllRead, shortRead]
  · simp [clientBytes_greeting, readBytes]

theorem authenticate_bytes {client c : Socks5Cli} {t : List SessionEvent} {m : UInt8}
    {ms : List UInt8} (hm : m = if 2 ∈ ms then 2 else 0xFF)
    (h : Runs (authenticate client m) t (.done (0, c))) :
    AllRead client.clientfd t ∧ AuthBytes ms (clientBytes client.clientfd t) := by
  unfold AuthBytes
  split_ifs at hm ⊢
  · subst hm
    obtain ⟨user, passwd, t', hu, hp, -, hauth, rfl⟩ := authenticate_accepts h
    have hne : ∀ e ∈ t', ∀ n, e.call ≠ .readn client.clientfd n := by
      intro e he n heq
      have hlookup := (socks5Doauth_all c).runs hauth e he
      rw [heq] at hlookup
      exact hlookup
    constructor
    · simp only [loginAccepted, allRead_append, allRead_login, allRead_of_ne hne, and_true]
      simp [AllRead, shortRead]
    · refine ⟨user, passwd, hu, hp, ?_⟩
      simp [loginAccepted, clientBytes_login, clientBytes_eq_nil hne, readBytes]
  · subst hm
    obtain ⟨rfl, hend⟩ := runs_done.mp h
    exact ⟨by simp [AllRead], rfl⟩

theorem readrequest_bytes {client c : Socks5Cli} {t : List SessionEvent}
    (h : Runs (noted .readrequest Prod.fst (socks5Readrequest client)) t (.done (0, c))) :
    AllRead client.clientfd t ∧ RequestBytes (clientBytes client.clientfd t) := by
  obtain ⟨t, rfl, hrun⟩ := runs_noted.mp h
  cases readrequest_runs hrun with
  | read cmd rsv atyp addr port request t t' haddr hport ht hbytes hread =>
    have hne : ∀ e ∈ t', ∀ n, e.call ≠ .readn client.clientfd n := by
      intro e he n heq
      have hresolve := (ht e he).1
      rw [heq] at hresolve
      exact hresolve
    constructor
    · simp only [allRead_append, allRead_requestHeader, allRead_of_chunks hread, allRead_of_ne hne,
        true_and, and_true]
      simp [AllRead, shortRead, chunkEvent]
    · refine ⟨cmd, rsv, atyp, addr, port, haddr, hport, ?_⟩
      simp [clientBytes_requestHeader, hbytes, clientBytes_eq_nil hne, readBytes, chunkEvent,
        Bytes.ofList]

/-- Behind the request nothing more is read from the client, as a new socket is not the client's. -/
theorem serveRequest_messages {client : Socks5Cli} {ms auth request : List UInt8}
    (h : Messages fd s ms auth request) :
    (messages fd).wp (fun _ _ => True) s (serveRequest client) := by
  have hall : ∀ (s : List SessionEvent) (p : Session (Int × Socks5Cli)),
      p.All (fun c => ∀ n, c ≠ .readn fd n) → Messages fd s ms auth request →
        (messages fd).wp (fun _ _ => True) s p := by
    intro s p hp hs
    refine wp_of_all (I := fun s => Messages fd s ms auth request) hp hs
      (fun s c hs _ _ => ⟨ms, auth, request, hs⟩) (fun s e hs he => ?_) fun _ _ _ => trivial
    exact hs.append (by simpa using he)
  unfold serveRequest
  split
  · obtain ⟨rest, heq, hrest⟩ := socks5Connectproxy_all client
    rw [noted_eq, heq, call_bind, call_bind]
    have hnot : ∀ c : Call, (∀ a b, c ≠ .negotiate a b) → ∀ before, (messages fd).demand before c :=
      fun c hc _ ⟨a, b, hab⟩ => absurd hab (hc a b)
    refine ⟨hnot _ (by simp) _, fun _ _ => ⟨hnot _ (by simp) _, fun pfd hpfd => ?_⟩⟩
    have hne : pfd ≠ fd := fun heq => hpfd (by rw [heq])
    refine hall _ _ ?_ ((h.append (t := [_]) (by simp)).append (t := [_]) (by simp))
    refine (((hrest pfd).1.mono ?_).bind fun r => by simp).bind ?_
    · rintro c hc n rfl
      rcases hc with hc | ⟨peer, hc⟩ | ⟨b, hc, -⟩ | hc
      · exact hne hc.symm
      · cases hc
      · cases hc
      · exact hc
    · rintro ⟨status, client⟩
      have hreply : ∀ status, (socks5Writereply client status).All
          fun c => ∀ n, c ≠ .readn fd n := by
        refine fun status => (socks5Writereply_all client status).mono fun c hc => ?_
        rcases hc with rfl | ⟨atyp, b, rfl⟩ <;> simp
      dsimp only
      split
      · exact (hreply status).bind fun _ => trivial
      · refine (hreply status).bind fun status => ?_
        split
        · trivial
        · simp [call]
  · trivial

theorem serve_messages (fd : Int) :
    (messages fd).wp (fun _ _ => True) [] (serve (.start fd)) := by
  have hnot : ∀ c : Call, (∀ a b, c ≠ .negotiate a b) → ∀ before, (messages fd).demand before c :=
    fun c hc _ ⟨a, b, hab⟩ => absurd hab (hc a b)
  simp only [serve, call, call_bind, done_bind, pure_eq]
  refine ⟨hnot _ (by simp) _, fun peer _ => ?_⟩
  cases peer with
  | false => trivial
  | true =>
  refine wp_bind.mpr (messages_of_runs (noted_not_relays (socks5Choosemethod_not_relays _)) ?_)
  rintro t1 ⟨st1, m⟩ h1 -
  dsimp only
  split
  · trivial
  rename_i hst1
  rw [not_not.mp hst1] at h1
  obtain ⟨ms, hm, hgreeted, hbytes⟩ := choosemethod_greeted h1
  rw [Socks5Cli.clientfd_start] at hgreeted hbytes
  refine wp_bind.mpr (messages_of_runs (authenticate_not_relays _ _) ?_)
  rintro t2 ⟨st2, c2⟩ h2 -
  dsimp only
  split
  · trivial
  rename_i hst2
  rw [not_not.mp hst2] at h2
  obtain ⟨hread2, hauth⟩ := authenticate_bytes hm h2
  rw [Socks5Cli.clientfd_start] at hread2 hauth
  refine wp_bind.mpr (messages_of_runs (noted_not_relays (socks5Readrequest_not_relays _)) ?_)
  rintro t3 ⟨st3, c3⟩ h3 -
  dsimp only
  split
  · trivial
  rename_i hst3
  rw [not_not.mp hst3] at h3
  obtain ⟨hread3, hrequest⟩ := readrequest_bytes h3
  have hfd : c2.clientfd = fd := ((authenticate_sameFds _ _).runs h2).1
  rw [hfd] at hread3 hrequest
  have hmessages : Messages fd ([⟨.getpeername fd, true⟩] ++ t1 ++ t2 ++ t3) ms
      (clientBytes fd t2) (clientBytes fd t3) := by
    refine ⟨?_, hauth, hrequest, ?_⟩
    · have hpeer : Greeted fd ([⟨.getpeername fd, true⟩] ++ t1) ms :=
        ⟨by simpa [AllRead, shortRead] using hgreeted.all_read, hgreeted.methods_lt,
          List.mem_append_right _ hgreeted.selected⟩
      exact (hpeer.append hread2).append hread3
    · simp only [clientBytes_append]
      rw [hbytes]
      simp [readBytes]
  exact wp_bind.mpr (wp_mono (serveRequest_messages hmessages) fun _ _ _ => trivial)

theorem socks5Run_messages (fd : Int) : (messages fd).wp (fun _ _ => True) [] (socks5Run fd) := by
  refine wp_bind.mpr (wp_mono (serve_messages fd) fun s r _ => ?_)
  exact messages_of_runs (by simp [Silksocks.call, Call.Relays]) fun _ _ _ _ => trivial

end Messages

/-! ### The stream -/

/-- The stream `S` is what was read from the client, and what was left; and the relay got what was
left when it was started. -/
structure Accounted (fd : Int) (S : List UInt8) (v : SessionView ω) : Prop where
  input : AllRead fd v.events → S = clientBytes fd v.events ++ v.input
  relayed : ∀ rest, v.relayed = some rest → ∃ before e after, v.events = before ++ e :: after ∧
    e.call.Relays ∧ (AllRead fd before → S = clientBytes fd before ++ rest)
  fresh : ∀ e ∈ v.events, e ≠ ⟨.socket, fd⟩

section Accounted

variable {world : World ω} {fd : Int} {S : List UInt8} {v v' : SessionView ω}

theorem Accounted.snoc {e : SessionEvent} {input : List UInt8} {stored : List (List UInt8)} {w : ω}
    (h : Accounted fd S v) (hinput : shortRead fd e = false → v.input = readBytes fd e ++ input)
    (hfresh : e ≠ ⟨.socket, fd⟩) :
    Accounted fd S { v with input, stored, world := w, events := v.events ++ [e] } where
  input hall := by
    obtain ⟨hbefore, he⟩ := allRead_append.mp hall
    have hshort : shortRead fd e = false := he e (List.mem_singleton.mpr rfl)
    rw [h.input hbefore, hinput hshort]
    simp
  relayed rest hrest := by
    obtain ⟨before, e', after, hevents, he', hS⟩ := h.relayed rest hrest
    exact ⟨before, e', after ++ [e], by simp [hevents], he', hS⟩
  fresh e' he' := by
    rcases List.mem_append.mp he' with he' | he'
    · exact h.fresh e' he'
    · rw [List.mem_singleton.mp he']
      exact hfresh

theorem readBytes_eq_nil {e : SessionEvent} (h : ∀ n, e.call ≠ .readn fd n) : readBytes fd e = [] := by
  simpa using clientBytes_eq_nil (t := [e]) (by simpa using h)

theorem Accounted.call {c : Call} {r : c.Result} (h : Accounted world.clientfd S v)
    (hc : ∀ n, c ≠ .readn world.clientfd n) (hcall : world.call c v = some (r, v')) :
    Accounted world.clientfd S v' := by
  have hother : ∀ w, (⟨c, r⟩ : SessionEvent) ≠ ⟨.socket, world.clientfd⟩ →
      Accounted world.clientfd S { v with world := w, events := v.events ++ [⟨c, r⟩] } :=
    fun w => h.snoc fun _ => by rw [readBytes_eq_nil hc, List.nil_append]
  cases c with
  | negotiate clientfd proxyfd =>
    obtain ⟨⟨r, w⟩, -, hv⟩ := Option.map_eq_some_iff.mp hcall
    cases hv
    obtain ⟨hinput, -, hfresh⟩ := hother w (by simp)
    refine ⟨hinput, ?_, hfresh⟩
    intro rest hrest
    cases hrest
    exact ⟨v.events, _, [], rfl, ⟨_, _, rfl⟩, h.input⟩
  | socket =>
    obtain ⟨⟨r, w⟩, hanswer, hv⟩ := Option.map_eq_some_iff.mp hcall
    cases hv
    have hne := world.fresh _ _ _ hanswer
    exact hother w (by simpa using hne)
  | _ =>
    obtain ⟨⟨r, w⟩, -, hv⟩ := Option.map_eq_some_iff.mp hcall
    cases hv
    exact hother w (by simp)

theorem World.stream_eq_call {c : Call} (h : ∀ n, c ≠ .readn world.clientfd n) :
    world.stream c v = world.call c v := by
  cases c with
  | readn fd n =>
    have hfd : fd ≠ world.clientfd := fun heq => h n (by rw [heq])
    exact if_neg hfd
  | _ => rfl

/-- What is read at once is what was left of the stream, unless this is too short. -/
theorem received_readResult (fd : Int) (n : Nat) (input : List UInt8) :
    shortRead fd ⟨.readn fd n, readResult n (input.take n).length (input.take n)⟩ = false →
      input = readBytes fd ⟨.readn fd n, readResult n (input.take n).length (input.take n)⟩ ++
        input.drop n := by
  unfold readResult
  split
  · rename_i hlen
    rw [if_pos (by rw [hlen])]
    simp [readBytes]
  · simp [shortRead]

theorem Accounted.stream {c : Call} {r : c.Result} (h : Accounted world.clientfd S v)
    (hcall : world.stream c v = some (r, v')) : Accounted world.clientfd S v' := by
  by_cases hc : ∀ n, c ≠ .readn world.clientfd n
  · rw [World.stream_eq_call hc] at hcall
    exact h.call hc hcall
  · rw [not_forall] at hc
    obtain ⟨n, hn⟩ := hc
    obtain rfl := not_not.mp hn
    dsimp only [World.stream] at hcall
    rw [if_pos rfl] at hcall
    cases hcall
    exact h.snoc (received_readResult _ _ _) (by simp)

theorem World.stream_events {c : Call} {r : c.Result} (hcall : world.stream c v = some (r, v')) :
    v'.events = v.events ++ [⟨c, r⟩] := by
  by_cases hc : ∀ n, c ≠ .readn world.clientfd n
  · rw [World.stream_eq_call hc] at hcall
    cases c with
    | _ =>
      obtain ⟨⟨r, w⟩, -, hv⟩ := Option.map_eq_some_iff.mp hcall
      cases hv
      rfl
  · rw [not_forall] at hc
    obtain ⟨n, hn⟩ := hc
    obtain rfl := not_not.mp hn
    dsimp only [World.stream] at hcall
    rw [if_pos rfl] at hcall
    cases hcall
    rfl

/-- What is left for the relay is what the client sends behind the messages of the handshake. -/
theorem relayed_messages {st : Option Int} {rest : List UInt8} {w : ω}
    (h : (socks5Run world.clientfd).eval world.stream (.start S w) = some (st, v))
    (hrest : v.relayed = some rest) : ∃ before ms auth request,
      before <+: v.events ∧ Messages world.clientfd before ms auth request ∧
        S = greetingBytes ms ++ auth ++ request ++ rest := by
  have hstart : Accounted world.clientfd S (SessionView.start S w) :=
    ⟨fun _ => rfl, by simp [SessionView.start], by simp [SessionView.start]⟩
  have hv : Accounted world.clientfd S v := by
    refine all_true.eval hstart ?_ h
    intro c r s s' _ hs hcall
    exact hs.stream hcall
  have hlog : ∀ c r (s s' : SessionView ω), world.stream c s = some (r, s') →
      s'.events = s.events ++ [⟨c, r⟩] := fun c r s s' => World.stream_events
  obtain ⟨t, hrun, ht⟩ := eval_runs hlog h
  obtain ⟨before, e, after, hevents, he, hS⟩ := hv.relayed rest hrest
  have hfresh : ∀ e ∈ before, e ≠ ⟨.socket, world.clientfd⟩ :=
    fun e he => hv.fresh e (by simp [hevents, he])
  have htrace : t = before ++ e :: after := ht.symm.trans hevents
  rw [htrace] at hrun
  obtain ⟨ms, auth, request, hmessages⟩ :=
    history_demand (socks5Run_messages world.clientfd) hrun hfresh he
  refine ⟨before, ms, auth, request, ⟨e :: after, hevents.symm⟩, hmessages, ?_⟩
  rw [hS hmessages.all_read, hmessages.bytes_eq]

/-- The handshake with a client depends on its stream and not on how the stream arrives, and it
leaves to the relay just what the stream has behind the request. -/
theorem handshake_of_stream (world : World ω) (S : List UInt8) (w : ω)
    {schedule schedule' : List Arrival} (h : NoError schedule) (h' : NoError schedule') :
    (∀ (client : Socks5Cli) (v : SessionView ω),
      world.run (socks5Choosemethod client) schedule v =
        world.run (socks5Choosemethod client) schedule' v ∧
      (let readLogin : Session (Int × Int × Socks5Cli) := do
        let (status, client) ← socks5Readauth client
        return (status, stripRedirectaddr client)
      world.run (socks5Readauth client) schedule v = world.run (socks5Readauth client) schedule' v ∧
        world.run readLogin schedule v = world.run readLogin schedule' v) ∧
      world.run (socks5Readrequest client) schedule v =
        world.run (socks5Readrequest client) schedule' v) ∧
    world.run (socks5Run world.clientfd) schedule (.start S w) =
      world.run (socks5Run world.clientfd) schedule' (.start S w) ∧
    ∀ st v rest, world.run (socks5Run world.clientfd) schedule (.start S w) = some (st, v) →
      v.relayed = some rest → ∃ before ms auth request,
        before <+: v.events ∧ Messages world.clientfd before ms auth request ∧
          S = greetingBytes ms ++ auth ++ request ++ rest := by
  have hrun : ∀ (β : Type) (p : Session β) (v : SessionView ω),
      world.run p schedule v = world.run p schedule' v := by
    intro β p v
    rw [World.run_eq p h, World.run_eq p h']
  refine ⟨fun client v => ⟨hrun _ _ v, ⟨hrun _ _ v, hrun _ _ v⟩, hrun _ _ v⟩, hrun _ _ _, ?_⟩
  intro st v rest hst hrest
  rw [World.run_eq _ h] at hst
  exact relayed_messages hst hrest

end Accounted

/-- A world with an upstream that sends the bytes of its state, where every other call succeeds. -/
def plainWorld : World (List UInt8) where
  clientfd := 4
  answer
    | .getpeername _, w => some (true, w)
    | .getsockname _, w => some (some ⟨.inet, [10, 0, 0, 1], [0, 80]⟩, w)
    | .readn _ n, w => some (readResult n (w.take n).length (w.take n), w.drop n)
    | .writen _ _, w => some (true, w)
    | .socket, w => some ((5 : Int), w)
    | .connectNonb _ _, w => some (true, w)
    | .close _, w => some ((), w)
    | .cacheGetapp _, w => some (some [112], w)
    | .cacheGetip _, w => some (some ⟨[117], [112]⟩, w)
    | .enter _, w => some ((), w)
    | .leave _ _, w => some ((), w)
    | _, _ => none
  relay _ _ _ w := some (0, w)
  fresh w fd w' h := by
    cases h
    decide

/-- The method 02, the login `u-1.2.3.4-80` with the password `p`, the request to connect to
10.0.0.1 port 80, and a byte behind it. -/
def pipelined : List UInt8 :=
  [5, 1, 2] ++ [1, 12, 117, 45, 49, 46, 50, 46, 51, 46, 52, 45, 56, 48, 1, 112] ++
    [5, 1, 0, 1, 10, 0, 0, 1, 0, 80] ++ [104]

theorem handshake_of_stream_pipelined :
    ∃ v, plainWorld.run (socks5Run 4) [.eintr, .upTo 0, .upTo 3, .eintr, .upTo 1]
        (.start pipelined [5, 2, 1, 0, 5, 0, 0, 1, 10, 0, 0, 2, 0, 81]) = some (some 0, v) ∧
      ∃ before ms auth request, before <+: v.events ∧ Messages 4 before ms auth request ∧
        pipelined = greetingBytes ms ++ auth ++ request ++ [104] := by
  have h := handshake_of_stream plainWorld pipelined
    [5, 2, 1, 0, 5, 0, 0, 1, 10, 0, 0, 2, 0, 81]
    (show NoError [.eintr, .upTo 0, .upTo 3, .eintr, .upTo 1] by simp [NoError])
    (show NoError [] by simp [NoError])
  have hrun : (plainWorld.run (socks5Run 4) [.eintr, .upTo 0, .upTo 3, .eintr, .upTo 1]
      (.start pipelined [5, 2, 1, 0, 5, 0, 0, 1, 10, 0, 0, 2, 0, 81])).map
        (fun x => (x.1, x.2.relayed)) = some (some 0, some [104]) := by decide +kernel
  obtain ⟨⟨st, v⟩, hv, hend⟩ := Option.map_eq_some_iff.mp hrun
  obtain ⟨rfl, hrest⟩ := Prod.mk.inj hend
  exact ⟨v, hv, h.2.2 _ v [104] hv hrest⟩

end Silksocks
