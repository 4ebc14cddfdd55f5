import Silksocks.Codecs
import Silksocks.UpstreamHandshake
import Silksocks.Wire

/-! Two instances in a chain: the upstream proxy of the one is the other.  Their handshake is a
dialogue of `socks5_connectproxy` with `socks5_run`, each of which waits for what the other one
sends.  It never gets stuck before the relay. -/

namespace Silksocks

open Program Prog Contract Dialogue

variable {ω ω' : Type}

/-! ### The instance that connects -/

section Connect

variable {host : Host ω} {client : Socks5Cli} {fd : Int} {creds : Creds} {w w' : ω}

/-- What an authentication message has of the credentials: their lengths are stored in a byte. -/
def Creds.sent (creds : Creds) : Creds :=
  ⟨creds.user.take (creds.user.length % 256), creds.passwd.take (creds.passwd.length % 256)⟩

/-- The host opens the connection `fd` to the other instance and has credentials for it that can be
encoded. -/
structure Dials (host : Host ω) (client : Socks5Cli) (fd : Int) (creds : Creds) (w w' : ω) :
    Prop where
  opened : fd ≠ -1
  dial : ∃ w1 w2, host .socket w = some (fd, w1) ∧
    host (.connectNonb fd client.srvpeer) w1 = some (true, w2) ∧
    (proxyCreds (ntohl client.srvpeer.addr) (ntohs client.srvpeer.port)).eval host w2 =
      some (some creds, w')
  encodable : ¬ creds.Long

@[simp] theorem Creds.sent_user_length : creds.sent.user.length = creds.user.length % 256 :=
  List.length_take_of_le (Nat.mod_le ..)

@[simp] theorem Creds.sent_passwd_length :
    creds.sent.passwd.length = creds.passwd.length % 256 :=
  List.length_take_of_le (Nat.mod_le ..)

theorem authMessage_sent (h : ¬ creds.Long) :
    authMessage creds = some (loginBytes creds.sent.user creds.sent.passwd) := by
  rw [Creds.Long, ← schar_neg, ← schar_neg] at h
  have hbyte : ∀ n, UInt8.ofNat (n % 256) = UInt8.ofNat n := fun n => UInt8.ofNat_mod_size
  simp only [authMessage]
  rw [if_neg h, loginBytes, Creds.sent_user_length, Creds.sent_passwd_length, hbyte, hbyte]
  simp [Creds.sent]

/-- The reads of a reply that tells a success. -/
theorem readreply_runs {ss : Sockaddr} (hss : ss.Valid) :
    Runs (socks5Readreply client)
      [chunkEvent client.proxyfd [5, 0, 0, if ss.family = .inet then 1 else 4],
        chunkEvent client.proxyfd (ss.addr.take ss.addrLen ++ ss.port)] (.done 0) := by
  rcases hss.addr with ⟨hfamily, hlen⟩ | ⟨hfamily, hlen⟩
  · rw [if_pos hfamily]
    refine .cons (runs_chunk ?_ (.nil _))
    simp [Sockaddr.addrLen, hfamily, hlen, hss.port]
  · rw [if_neg (by simp [hfamily])]
    refine .cons (runs_chunk ?_ (.nil _))
    simp [Sockaddr.addrLen, hfamily, hlen, hss.port]

/-- The calls of `socks5_connectproxy` when the upstream accepts the method, the login and the
request, and tells the address `ss`. -/
theorem connectproxy_runs {t : List SessionEvent} {ss : Sockaddr} (hfd : fd ≠ -1)
    (hcreds : Runs (proxyCreds (ntohl client.srvpeer.addr) (ntohs client.srvpeer.port)) t
      (.done (some creds)))
    (hlong : ¬ creds.Long) (hss : ss.Valid) :
    Runs (socks5Connectproxy client)
      ([⟨.socket, fd⟩, ⟨.connectNonb fd client.srvpeer, true⟩, ⟨.writen fd [5, 1, 2], true⟩] ++
        (([chunkEvent fd [5, 2]] ++ t ++
          [⟨.writen fd (loginBytes creds.sent.user creds.sent.passwd), true⟩]) ++
        (([chunkEvent fd [1, 0]] ++ [⟨.writen fd (requestBytes client.request), true⟩]) ++
        [chunkEvent fd [5, 0, 0, if ss.family = .inet then 1 else 4],
          chunkEvent fd (ss.addr.take ss.addrLen ++ ss.port)])))
      (.done (0, { client with proxyfd := fd })) := by
  have hdata := authMessage_sent hlong
  simp only [socks5Connectproxy, call, writen, readInto_of_le (show 2 ≤ 512 by decide), call_bind,
    done_bind, pure_eq]
  refine .cons ?_
  rw [if_neg hfd]
  refine .cons (.cons (.cons ?_))
  dsimp only
  rw [if_neg (fun h : (Bytes.ofList [5, 2]).val ≠ [5, 2] => h rfl)]
  refine runs_bind_done.mpr ⟨some creds, t, _, List.append_assoc .., hcreds, ?_⟩
  dsimp only
  rw [hdata]
  refine .cons (.cons ?_)
  dsimp only
  rw [if_neg (fun h : (Bytes.ofList [1, 0]).val ≠ [1, 0] => h rfl)]
  exact .cons (readreply_runs hss).bind

end Connect

/-! ### The instance that is connected to -/

section Serve

variable {client c : Socks5Cli} {user passwd : List UInt8} {t : List SessionEvent} {fd pfd : Int}

theorem stripRedirectaddr_clientfd {st : Int} (h : stripRedirectaddr client = (st, c)) :
    c.clientfd = client.clientfd := by
  have hsame := (stripRedirectaddr_sameFds client).1
  rwa [h] at hsame

theorem authenticate_login (hu : user.length < 256) (hp : passwd.length < 256)
    (hstrip : stripRedirectaddr (client.withLogin user passwd) = (0, c))
    (ht : Runs (socks5Doauth c) t (.done 0)) :
    Runs (authenticate client 2)
      (loginAccepted client.clientfd user passwd ++ t ++ [⟨.leave .doauth 0, ()⟩])
      (.done (0, c)) := by
  have hread := (readauth_login client hu hp).append (.cons (r := true) (.nil _))
  unfold authenticate
  rw [if_pos rfl]
  refine runs_bind_done.mpr ⟨(0, client.withLogin user passwd), _,
    [⟨.enter .stripRedirectaddr, ()⟩, ⟨.leave .stripRedirectaddr 0, ()⟩] ++
      ([⟨.enter .doauth, ()⟩] ++ t ++ [⟨.leave .doauth 0, ()⟩]), by simp [loginAccepted],
    runs_noted.mpr ⟨_, rfl, hread⟩, ?_⟩
  dsimp only
  rw [if_neg (not_not.mpr rfl), hstrip]
  refine runs_bind_done.mpr ⟨(0, c), _, _, rfl, runs_noted.mpr ⟨[], rfl, .nil _⟩, ?_⟩
  dsimp only
  rw [if_neg (not_not.mpr rfl)]
  refine runs_bind_done.mpr ⟨0, _, [], (List.append_nil _).symm, runs_noted.mpr ⟨t, rfl, ht⟩, ?_⟩
  exact .nil _

/-- The reads of a request to connect. -/
theorem readrequest_request {request : Sockaddr} (h : request.Valid) (client : Socks5Cli) :
    ∃ bss : List (List UInt8), bss.flatten = requestBytes request ∧
      Runs (socks5Readrequest client) (bss.map (chunkEvent client.clientfd))
        (.done (0, { client with cmd := 1, request })) := by
  have htake := h.take_addr
  obtain ⟨family, addr, port⟩ := request
  obtain ⟨haddr, hport⟩ := h
  dsimp only at haddr hport htake
  refine ⟨[[5], [1], [0], [if family = .inet then 1 else 4], addr, port], ?_, ?_⟩
  · simp [requestBytes, htake]
  rcases haddr with ⟨rfl, hlen⟩ | ⟨rfl, hlen⟩
  · refine .cons (.cons (.cons (.cons ?_)))
    exact runs_chunk hlen (runs_chunk hport (.nil _))
  · refine .cons (.cons (.cons (.cons ?_)))
    exact runs_chunk hlen (runs_chunk hport (.nil _))

/-- A request to connect that the upstream accepts is told so, and the relay is next. -/
theorem serveRequest_connects (ss : Sockaddr) (hcmd : client.cmd = 1)
    (ht : Runs (socks5Connectproxy client) t (.done (0, c))) :
    ∃ next, Runs (serveRequest client) (([⟨.enter .connectproxy, ()⟩] ++ t ++
      [⟨.leave .connectproxy 0, ()⟩]) ++ [⟨.getsockname c.proxyfd, some ss⟩,
        ⟨.writen c.clientfd (replyOf 0 ss), true⟩])
      (.call (.negotiate c.clientfd c.proxyfd) next) := by
  have hconnect : Runs (noted .connectproxy Prod.fst (socks5Connectproxy client)) _ (.done (0, c)) :=
    runs_noted.mpr ⟨t, rfl, ht⟩
  unfold serveRequest
  rw [hcmd]
  exact ⟨_, hconnect.bind.append (.cons (.cons (.nil _)))⟩

/-- The calls of a session up to the relay. -/
theorem serve_connects {c' : Socks5Cli} {request : Sockaddr} (ss : Sockaddr) {t' : List SessionEvent}
    (hu : user.length < 256) (hp : passwd.length < 256)
    (hstrip : stripRedirectaddr ((Socks5Cli.start fd).withLogin user passwd) = (0, c))
    (ht : Runs (socks5Doauth c) t (.done 0)) (hrequest : request.Valid)
    (ht' : Runs (socks5Connectproxy { c with cmd := 1, request }) t' (.done (0, c')))
    (hc : c.clientfd = fd) (hc' : c'.clientfd = fd) :
    ∃ (bss : List (List UInt8)) (next : Int → Session (Option Int × Socks5Cli)),
      bss.flatten = requestBytes request ∧ Runs (serve (.start fd))
        (([⟨.getpeername fd, true⟩] ++ ([⟨.enter .choosemethod, ()⟩] ++
            (greeting fd [2] ++ [⟨.writen fd [5, 2], true⟩]) ++ [⟨.leave .choosemethod 0, ()⟩])) ++
          ((loginAccepted fd user passwd ++ t ++ [⟨.leave .doauth 0, ()⟩]) ++
          (([⟨.enter .readrequest, ()⟩] ++ bss.map (chunkEvent fd) ++
            [⟨.leave .readrequest 0, ()⟩]) ++
          (([⟨.enter .connectproxy, ()⟩] ++ t' ++ [⟨.leave .connectproxy 0, ()⟩]) ++
            [⟨.getsockname c'.proxyfd, some ss⟩, ⟨.writen fd (replyOf 0 ss), true⟩]))))
        (.call (.negotiate fd c'.proxyfd) next) := by
  subst hc
  obtain ⟨bss, hbss, hread⟩ := readrequest_request hrequest c
  obtain ⟨next, hserve⟩ := serveRequest_connects ss rfl ht'
  rw [hc'] at hserve
  have hmethod : Runs (socks5Choosemethod (.start c.clientfd))
      (greeting c.clientfd [2] ++ [⟨.writen c.clientfd [5, 2], true⟩]) (.done (0, 2)) :=
    socks5Choosemethod_answers _ (by decide) (by simp)
  have hgreeted : Runs (noted .choosemethod Prod.fst (socks5Choosemethod (.start c.clientfd))) _
      (.done (0, 2)) := runs_noted.mpr ⟨_, rfl, hmethod⟩
  have hlogin : Runs (authenticate (.start c.clientfd) 2) _ (.done (0, c)) :=
    authenticate_login hu hp hstrip ht
  have hrequested : Runs (noted .readrequest Prod.fst (socks5Readrequest c)) _
      (.done (0, { c with cmd := 1, request })) := runs_noted.mpr ⟨_, rfl, hread⟩
  have hpeer : Runs (call (.getpeername c.clientfd)) [⟨.getpeername c.clientfd, true⟩]
      (.done true) := .cons (.nil _)
  unfold serve
  exact ⟨bss, _, hbss, (hpeer.bind.append hgreeted.bind).append
    (hlogin.bind.append (hrequested.bind.append hserve.bind))⟩

/-- The host of the instance behind the connection `fd` accepts the credentials as the login of a
client and reaches, with the socket `pfd`, an upstream that accepts the request. -/
structure Serves (host : Host ω') (fd pfd : Int) (creds : Creds) (request : Sockaddr) (v v' : ω') :
    Prop where
  serve : ∃ v1 v2 v3 c ss, host (.getpeername fd) v = some (true, v1) ∧
    stripRedirectaddr ((Socks5Cli.start fd).withLogin creds.user creds.passwd) = (0, c) ∧
    (socks5Doauth c).eval host v1 = some (0, v2) ∧
    (socks5Connectproxy { c with cmd := 1, request }).eval host v2 =
      some ((0, { c with cmd := 1, request, proxyfd := pfd }), v3) ∧
    host (.getsockname pfd) v3 = some (some ss, v') ∧ ss.Valid
  valid : request.Valid
  /-- The descriptor of the connection is open, so that no new socket gets it. -/
  fresh : ∀ v pfd v', host .socket v = some (pfd, v') → pfd ≠ fd

theorem Call.LooksUpUser.local {c : Call} (h : c.LooksUpUser) : c.Local fd := by
  cases c <;> simp_all [LooksUpUser, Local]

theorem Call.LooksUpProxy.local {c : Call} (h : c.LooksUpProxy) : c.Local fd := by
  cases c <;> simp_all [LooksUpProxy, Local]

theorem Call.Upstream.local {call : Call} (h : call.Upstream pfd) (hne : pfd ≠ fd) :
    call.Local fd := by
  rcases h with h | ⟨peer, rfl⟩ | ⟨b, rfl, -⟩ | h
  · cases call with
    | readn fd' n =>
      obtain rfl : fd' = pfd := h
      exact hne
    | fault => trivial
    | _ => exact h.elim
  · trivial
  · exact hne
  · exact h.local

/-- An upstream at another descriptor is connected without the connection to the other instance. -/
theorem connectproxy_local {host : Host ω'} {v v' : ω'} {r : Int × Socks5Cli}
    (hfresh : ∀ v pfd v', host .socket v = some (pfd, v') → pfd ≠ fd)
    (h : (socks5Connectproxy client).eval host v = some (r, v')) :
    ∃ t, Runs (socks5Connectproxy client) t (.done r) ∧ Answers host v t v' ∧
      ∀ e ∈ t, e.call.Local fd := by
  obtain ⟨rest, heq, hrest⟩ := socks5Connectproxy_all client
  rw [heq] at h ⊢
  rw [eval_call, Option.bind_eq_some_iff] at h
  obtain ⟨⟨pfd, v1⟩, hsocket, hnext⟩ := h
  obtain ⟨t, hrun, ht⟩ := eval_answers hnext
  refine ⟨⟨.socket, pfd⟩ :: t, .cons hrun, .cons hsocket ht, ?_⟩
  rw [List.forall_mem_cons]
  refine ⟨trivial, fun e he => ?_⟩
  exact ((hrest pfd).1.runs hrun e he).local (hfresh _ _ _ hsocket)

end Serve

/-! ### The dialogue -/

section Handshake

variable {dialer : Host ω} {server : Host ω'} {client : Socks5Cli} {fd sfd pfd : Int} {creds : Creds}
  {w w' : ω} {v v' : ω'}

/-- One order of the steps: each instance goes on until it waits for the other one. -/
theorem handshake_run (hdial : Dials dialer client fd creds w w')
    (hserve : Serves server sfd pfd creds.sent client.request v v') :
    ∃ next, Reaches (dialer.wire fd) (server.wire sfd)
      ⟨socks5Connectproxy client, socks5Run sfd, ⟨w, []⟩, ⟨v, []⟩, [], []⟩
      ⟨.done (0, { client with proxyfd := fd }), .call (.negotiate sfd pfd) next, ⟨w', []⟩,
        ⟨v', []⟩, [], []⟩ := by
  obtain ⟨w1, w2, hsocket, hconnect, hcreds⟩ := hdial.dial
  obtain ⟨v1, v2, v3, c, ss, hpeer, hstrip, hauth, hupstream, hbound, hss⟩ := hserve.serve
  obtain ⟨tc, hcreds, htc⟩ := eval_answers hcreds
  obtain ⟨t, hauth, ht⟩ := eval_answers hauth
  obtain ⟨t', hupstream, ht', hlocal'⟩ := connectproxy_local hserve.fresh hupstream
  have hc : c.clientfd = sfd := stripRedirectaddr_clientfd hstrip
  have hlt : ∀ n, n % 256 < 256 := fun n => Nat.mod_lt n (by decide)
  obtain ⟨bss, next, hbss, hserved⟩ := serve_connects ss
    (Creds.sent_user_length.trans_lt (hlt _)) (Creds.sent_passwd_length.trans_lt (hlt _)) hstrip
    hauth hserve.valid hupstream hc hc
  have hdialed := connectproxy_runs hdial.opened hcreds hdial.encodable hss
  obtain ⟨p1, hp1, hdialed⟩ := runs_append.mp hdialed
  obtain ⟨p2, hp2, hdialed⟩ := runs_append.mp hdialed
  obtain ⟨p3, hp3, hp4⟩ := runs_append.mp hdialed
  obtain ⟨next, hserved⟩ : ∃ next, Runs (socks5Run sfd) _ (.call (.negotiate sfd pfd) next) :=
    ⟨_, hserved.bind⟩
  obtain ⟨q1, hq1, hserved⟩ := runs_append.mp hserved
  obtain ⟨q2, hq2, hq3⟩ := runs_append.mp hserved
  have hlogin : [[1], [UInt8.ofNat creds.sent.user.length], creds.sent.user,
      [UInt8.ofNat creds.sent.passwd.length], creds.sent.passwd].flatten ++ [] =
        loginBytes creds.sent.user creds.sent.passwd := by simp [loginBytes]
  have hrequest : bss.flatten ++ [] = requestBytes client.request := by rw [hbss, List.append_nil]
  have hreply : [[5, 0, 0, if ss.family = .inet then 1 else 4],
      ss.addr.take ss.addrLen ++ ss.port].flatten ++ [] = replyOf 0 ss := by
    simp [replyOf, replyBytes]
    rfl
  -- the method
  have h1 : Reaches (dialer.wire fd) (server.wire sfd)
      ⟨socks5Connectproxy client, socks5Run sfd, ⟨w, []⟩, ⟨v, []⟩, [], []⟩
      ⟨p1, socks5Run sfd, ⟨w2, []⟩, ⟨v, []⟩, [], [5, 1, 2]⟩ :=
    left_run hp1 (.cons (Host.wire_local (by trivial) hsocket)
      (.cons (Host.wire_local (by trivial) hconnect) Host.wire_sent))
  have h2 : Reaches (dialer.wire fd) (server.wire sfd)
      ⟨p1, socks5Run sfd, ⟨w2, []⟩, ⟨v, []⟩, [], [5, 1, 2]⟩
      ⟨p1, q1, ⟨w2, []⟩, ⟨v1, []⟩, [5, 2], []⟩ :=
    right_run hq1 (.cons (Host.wire_local (by trivial) hpeer) ((Host.wire_enter.append
      ((Host.wire_chunks [[5], [1], [2]] []).append Host.wire_sent)).append Host.wire_leave))
  -- the login
  have h3 : Reaches (dialer.wire fd) (server.wire sfd)
      ⟨p1, q1, ⟨w2, []⟩, ⟨v1, []⟩, [5, 2], []⟩
      ⟨p2, q1, ⟨w', []⟩, ⟨v1, []⟩, [], loginBytes creds.sent.user creds.sent.passwd⟩ :=
    left_run hp2 (((Host.wire_chunks [[5, 2]] []).append (Host.wire_answers htc fun e he =>
      ((proxyCreds_all _ _).runs hcreds e he).local)).append Host.wire_sent)
  have h4 : Reaches (dialer.wire fd) (server.wire sfd)
      ⟨p2, q1, ⟨w', []⟩, ⟨v1, []⟩, [], loginBytes creds.sent.user creds.sent.passwd⟩
      ⟨p2, q2, ⟨w', []⟩, ⟨v2, []⟩, [1, 0], []⟩ :=
    right_run hq2 ((((Host.wire_enter.append (hlogin ▸ Host.wire_chunks _ [])).append
      (Host.wire_sent.append (Host.wire_leave.append (Host.wire_enter.append
        (Host.wire_leave.append Host.wire_enter))))).append
      (Host.wire_answers ht fun e he => ((socks5Doauth_all c).runs hauth e he).local)).append
      Host.wire_leave)
  -- the request
  have h5 : Reaches (dialer.wire fd) (server.wire sfd)
      ⟨p2, q2, ⟨w', []⟩, ⟨v2, []⟩, [1, 0], []⟩
      ⟨p3, q2, ⟨w', []⟩, ⟨v2, []⟩, [], requestBytes client.request⟩ :=
    left_run hp3 ((Host.wire_chunks [[1, 0]] []).append Host.wire_sent)
  have h6 : Reaches (dialer.wire fd) (server.wire sfd)
      ⟨p3, q2, ⟨w', []⟩, ⟨v2, []⟩, [], requestBytes client.request⟩
      ⟨p3, .call (.negotiate sfd pfd) next, ⟨w', []⟩, ⟨v', []⟩, replyOf 0 ss, []⟩ :=
    right_run hq3 (((Host.wire_enter.append (hrequest ▸ Host.wire_chunks bss [])).append
      Host.wire_leave).append
      (((Host.wire_enter.append (Host.wire_answers ht' hlocal')).append Host.wire_leave).append
        (.cons (Host.wire_local (by trivial) hbound) Host.wire_sent)))
  have h7 : Reaches (dialer.wire fd) (server.wire sfd)
      ⟨p3, .call (.negotiate sfd pfd) next, ⟨w', []⟩, ⟨v', []⟩, replyOf 0 ss, []⟩
      ⟨.done (0, { client with proxyfd := fd }), .call (.negotiate sfd pfd) next, ⟨w', []⟩,
        ⟨v', []⟩, [], []⟩ :=
    left_run hp4 (hreply ▸ Host.wire_chunks _ [])
  exact ⟨next, (((((h1.trans h2).trans h3).trans h4).trans h5).trans h6).trans h7⟩

/-- Where no call on the connection fails, the handshake of two instances goes on, in every order of
the steps, until the one that connects has returned 0 and the other one starts the relay, with
nothing left on the connection. -/
theorem handshake_finishes (hdial : Dials dialer client fd creds w w')
    (hserve : Serves server sfd pfd creds.sent client.request v v') :
    ∃ next n, ∀ ls s, Lts.Run (Step (dialer.wire fd) (server.wire sfd))
        ⟨socks5Connectproxy client, socks5Run sfd, ⟨w, []⟩, ⟨v, []⟩, [], []⟩ ls s →
      ∃ ls', Lts.Run (Step (dialer.wire fd) (server.wire sfd)) s ls'
          ⟨.done (0, { client with proxyfd := fd }), .call (.negotiate sfd pfd) next, ⟨w', []⟩,
            ⟨v', []⟩, [], []⟩ ∧
        ls.length + ls'.length = n := by
  obtain ⟨next, h⟩ := handshake_run hdial hserve
  refine ⟨next, h.finishes ?_⟩
  rintro l t hs
  cases hs with
  | right hanswer => cases hanswer

end Handshake

/-- A host that reaches its upstream and has the login `u-1.2.3.4-80` with the password `p` for
it. -/
def plainDialer : Host Unit
  | .socket, w => some ((5 : Int), w)
  | .connectNonb _ _, w => some (true, w)
  | .cacheGetip _, w => some (some ⟨[117, 45, 49, 46, 50, 46, 51, 46, 52, 45, 56, 48], [112]⟩, w)
  | _, _ => none

theorem plainDialer_dials :
    Dials plainDialer { plainClient with request := ⟨.inet, [10, 0, 0, 1], [0, 80]⟩ } 5
      ⟨[117, 45, 49, 46, 50, 46, 51, 46, 52, 45, 56, 48], [112]⟩ () () :=
  ⟨by decide, ⟨(), (), rfl, rfl, rfl⟩, by simp [Creds.Long]⟩

theorem plainWorld_serves :
    Serves plainWorld.answer 4 5 ⟨[117, 45, 49, 46, 50, 46, 51, 46, 52, 45, 56, 48], [112]⟩
      ⟨.inet, [10, 0, 0, 1], [0, 80]⟩ [5, 2, 1, 0, 5, 0, 0, 1, 10, 0, 0, 2, 0, 81] [] where
  serve := ⟨_, _, _, { Socks5Cli.start 4 with
      user := [117], passwd := [112], srvpeer := ⟨.inet, [1, 2, 3, 4], [0, 80]⟩ },
    ⟨.inet, [10, 0, 0, 1], [0, 80]⟩, rfl, by decide +kernel, rfl, rfl, rfl, .inl ⟨rfl, rfl⟩, rfl⟩
  valid := ⟨.inl ⟨rfl, rfl⟩, rfl⟩
  fresh := plainWorld.fresh

theorem handshake_finishes_plain :
    ∃ next n, ∀ ls s, Lts.Run (Step (plainDialer.wire 5) (Host.wire plainWorld.answer 4))
        ⟨socks5Connectproxy { plainClient with request := ⟨.inet, [10, 0, 0, 1], [0, 80]⟩ },
          socks5Run 4, ⟨(), []⟩, ⟨[5, 2, 1, 0, 5, 0, 0, 1, 10, 0, 0, 2, 0, 81], []⟩, [], []⟩ ls s →
      ∃ ls', Lts.Run (Step (plainDialer.wire 5) (Host.wire plainWorld.answer 4)) s ls'
          ⟨.done (0, { plainClient with
              request := ⟨.inet, [10, 0, 0, 1], [0, 80]⟩, proxyfd := 5 }),
            .call (.negotiate 4 5) next, ⟨(), []⟩, ⟨[], []⟩, [], []⟩ ∧
        ls.length + ls'.length = n := by
  exact handshake_finishes plainDialer_dials plainWorld_serves

end Silksocks
