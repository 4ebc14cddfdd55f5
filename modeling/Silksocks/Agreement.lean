import Silksocks.GivesUp

/-! What it means that a handshake of two instances has succeeded.  When `socks5_connectproxy` has
returned 0, the instance at the other end has accepted the login that it was sent, is connected for
the request that it was sent, and starts the relay.  This also holds where calls on the connection
may fail. -/

namespace Silksocks

open Program Prog Dialogue

variable {ω ω' α β : Type}

/-! ### The instance that connects -/

section Connect

variable {host : Host ω} {client c : Socks5Cli} {fd : Int} {w : ω} {i o : List UInt8}
  {s : Wired ω × List UInt8 × List UInt8}

theorem fault_never {σ : Type} {env : (c : Call) → σ → Option (c.Result × σ)} {s : σ}
    {x : α × σ} : (fault : Session α).eval env s ≠ some x := by
  intro h
  obtain ⟨y, -⟩ := Option.bind_eq_some_iff.mp h
  exact y.1.elim

/-- A reply that is read as a success tells one, and is read to its end. -/
theorem readreply_succeeds {st : Int} {ss : Sockaddr} {rest : List UInt8} (hss : ss.Valid)
    (h : (socks5Readreply client).eval (host.wire client.proxyfd).env
      (⟨w, []⟩, replyOf st ss ++ rest, o) = some (0, s)) :
    UInt8.ofInt st = 0 ∧ s = (⟨w, []⟩, rest, o) := by
  obtain ⟨addr, haddr⟩ : ∃ addr, addr = ss.addr.take ss.addrLen ++ ss.port := ⟨_, rfl⟩
  obtain ⟨atyp, hatyp⟩ : ∃ atyp : UInt8, atyp = if ss.family = .inet then 1 else 4 := ⟨_, rfl⟩
  have hbytes : replyOf st ss ++ rest = [5, UInt8.ofInt st, 0, atyp] ++ addr ++ rest := by
    simp [replyOf, replyBytes, haddr, hatyp]
  rw [hbytes] at h
  generalize UInt8.ofInt st = rep at h ⊢
  have hread : ∀ (bss : List (List UInt8)) (rest' : List UInt8) {r : Int},
      Runs (socks5Readreply client) (bss.map (chunkEvent client.proxyfd)) (.done r) →
      [5, rep, 0, atyp] ++ addr ++ rest = bss.flatten ++ rest' →
      some (0, s) = some (r, ⟨w, []⟩, rest', o) :=
    fun _ _ _ hrun hbytes => h.symm.trans (hrun.eval (hbytes ▸ Host.wire_chunks _ _))
  by_cases hzero : rep = 0
  · subst hzero
    have hrun : Runs (socks5Readreply client) _ _ := readreply_runs hss
    rw [← haddr, ← hatyp] at hrun
    have hend := hread [[5, 0, 0, atyp], addr] rest hrun (by simp)
    exact ⟨rfl, congrArg Prod.snd (Option.some.inj hend)⟩
  · have hrun : Runs (socks5Readreply client)
        ([[5, rep, 0, atyp]].map (chunkEvent client.proxyfd)) (.done (rep.toNat : Int)) := by
      refine .cons ?_
      show Runs (if (5 : UInt8) ≠ 5 ∨ rep ≠ 0 then .done (rep.toNat : Int) else _) [] _
      rw [if_pos (.inr hzero)]
      exact .nil _
    have hend := hread [[5, rep, 0, atyp]] (addr ++ rest) hrun (by simp)
    have hnat : (0 : Int) = rep.toNat := congrArg Prod.fst (Option.some.inj hend)
    exact absurd (UInt8.toNat_inj.mp (Int.natCast_eq_zero.mp hnat.symm)) hzero

/-- A reply that is read as a success has come to its end. -/
theorem readreply_whole {st : Int} {ss : Sockaddr} {part rest : List UInt8} (hss : ss.Valid)
    (hpart : part ++ rest = replyOf st ss)
    (h : (socks5Readreply client).eval (host.wire client.proxyfd).env (⟨w, []⟩, part, o) =
      some (0, s)) : rest = [] ∧ UInt8.ofInt st = 0 ∧ s = (⟨w, []⟩, [], o) := by
  obtain ⟨t, hrun, ht⟩ := eval_answers h
  have hlater := hrun.eval (answers_later ht rest)
  dsimp only at hlater
  rw [hpart, ← List.append_nil (replyOf st ss)] at hlater
  obtain ⟨hzero, hs⟩ := readreply_succeeds hss hlater
  obtain ⟨l, i, o'⟩ := s
  obtain ⟨rfl, hnil, rfl⟩ : l = ⟨w, []⟩ ∧ i ++ rest = [] ∧ o' = o := by simpa using hs
  obtain ⟨rfl, rfl⟩ := List.append_eq_nil_iff.mp hnil
  exact ⟨rfl, hzero, rfl⟩

/-- A reply is there when it is read, and nothing is sent. -/
theorem readreply_reads_only {st : Int}
    (h : (socks5Readreply client).eval (host.wire client.proxyfd).env (⟨w, []⟩, i, o) =
      some (st, s)) :
    s.2.2 = o ∧ i ≠ [] := by
  have hkeep : s.2.2 = o := by
    refine (socks5Readreply_all client).eval (I := fun s => s.2.2 = o) rfl ?_ h
    intro c r s1 s2 hc ho hcall
    cases c with
    | readn fd n =>
      obtain rfl : fd = client.proxyfd := hc
      rcases Host.wire_readn hcall with ⟨k, -, rfl, rfl⟩ | ⟨bs, rest, -, rfl, rfl⟩
      · exact ho
      · exact ho
    | fault => exact r.elim
    | _ => exact hc.elim
  refine ⟨hkeep, ?_⟩
  rintro rfl
  obtain ⟨⟨bs, hbs⟩, rest, hnil, -⟩ := Host.eval_readn (n := 4) h
  obtain ⟨rfl, -⟩ : bs = [] ∧ rest = [] := List.append_eq_nil_iff.mp hnil.symm
  cases hbs

/-- No call on the connection has failed when `socks5_connectproxy` returns 0. -/
theorem connectproxy_whole {l : Wired ω}
    (h : (socks5Connectproxy client).Goes (host.wire fd).env (l, i, o) (.done (0, c)) s) :
    (socks5Connectproxy client).eval (host.wire fd).env (⟨l.world, []⟩, i, o) =
      some ((0, c), ⟨s.1.world, []⟩, s.2) := by
  rcases (socks5Connectproxy_givesUp (A := fun _ => True) client).goes (fun _ _ _ _ _ => trivial) h
    with h | ⟨hend, -⟩
  · exact h.eval_done
  · exact absurd rfl (hend rfl)

/-- A login that is refused: behind 05 02 01 00 comes an end of file. -/
example : ((socks5Connectproxy { plainClient with request := ⟨.inet, [10, 0, 0, 1], [0, 80]⟩ }).eval
    (plainDialer.wire 5).env (⟨(), [none, none, none, none, none, some 0]⟩, [5, 2, 1, 0], [])).map
      (fun x => x.1.1) = some 4 := by
  decide +kernel

/-- What has happened when `socks5_connectproxy` returns 0. -/
theorem connectproxy_succeeds
    (hopen : ∀ w r w', host .socket w = some (r, w') → r = -1 ∨ r = fd)
    (h : (socks5Connectproxy client).eval (host.wire fd).env (⟨w, []⟩, i, o) = some ((0, c), s)) :
    ∃ creds w' i', Dials host client fd creds w w' ∧ c = { client with proxyfd := fd } ∧
      i = [5, 2, 1, 0] ++ i' ∧ (socks5Readreply c).eval (host.wire fd).env
        (⟨w', []⟩, i', o ++ [5, 1, 2] ++ loginBytes creds.sent.user creds.sent.passwd ++
          requestBytes client.request) = some (0, s) := by
  simp only [socks5Connectproxy, call, writen, readInto_of_le (show 2 ≤ 512 by decide), call_bind,
    done_bind, pure_eq] at h
  obtain ⟨pfd, w1, hsocket, h⟩ := Host.eval_local (by trivial) h
  split at h
  next => cases h
  next hpfd =>
  obtain rfl := (hopen _ _ _ hsocket).resolve_left hpfd
  obtain ⟨connected, w2, hconnect, h⟩ := Host.eval_local (by trivial) h
  cases connected with
  | false => cases h
  | true =>
  rw [if_neg (by simp), Host.eval_writen, if_neg (by simp)] at h
  obtain ⟨buf, rest, rfl, hmethod⟩ := Host.eval_readn h
  clear h
  change (if buf.val ≠ [5, 2] then _ else _ : Session _).eval _ _ = _ at hmethod
  split at hmethod
  next => cases hmethod
  next hbuf =>
  rw [eval_bind, Host.wire_eval ((proxyCreds_all _ _).mono fun _ h => h.local),
    Option.bind_eq_some_iff] at hmethod
  obtain ⟨_, hlookup, hlogin⟩ := hmethod
  obtain ⟨⟨creds, w3⟩, hcreds, hx⟩ := Option.map_eq_some_iff.mp hlookup
  cases hx
  cases creds with
  | none => cases hlogin
  | some creds =>
  dsimp only at hlogin
  by_cases hlong : creds.Long
  · rw [authMessage_none.mpr hlong] at hlogin
    exact absurd hlogin fault_never
  rw [authMessage_sent hlong] at hlogin
  dsimp only at hlogin
  rw [Host.eval_writen, if_neg (by simp)] at hlogin
  obtain ⟨buf', rest, rfl, hrequest⟩ := Host.eval_readn hlogin
  clear hlogin
  change (if buf'.val ≠ [1, 0] then _ else _ : Session _).eval _ _ = _ at hrequest
  split at hrequest
  next => cases hrequest
  next hbuf' =>
  rw [not_not.mp hbuf, not_not.mp hbuf']
  change (Prog.call (.writen pfd (requestBytes client.request)) _ : Session _).eval _ _ = _
    at hrequest
  rw [Host.eval_writen] at hrequest
  change ((socks5Readreply _ >>= _ : Session _)).eval _ _ = _ at hrequest
  rw [eval_bind, Option.bind_eq_some_iff] at hrequest
  obtain ⟨⟨st, s1⟩, hreply, hend⟩ := hrequest
  cases hend
  exact ⟨creds, w3, rest, ⟨hpfd, ⟨w1, w2, hsocket, hconnect, hcreds⟩, hlong⟩, rfl,
    by simp, hreply⟩

end Connect

/-! ### The instance that is connected to -/

section Serve

variable {host : Host ω} {client c : Socks5Cli} {fd : Int} {user passwd : List UInt8}
  {request : Sockaddr} {v : ω} {i o : List UInt8} {s : Wired ω × List UInt8 × List UInt8}

/-- A function that is done with the first bytes of the connection. -/
theorem Host.noted_eval {fn : Fn} {status : α → Int} {p : Session α} {a : α}
    (h : p.eval (host.wire fd).env (⟨v, []⟩, i, o) = some (a, s)) :
    (noted fn status p).eval (host.wire fd).env (⟨v, []⟩, i, o) = some (a, s) := by
  obtain ⟨t, hrun, ht⟩ := eval_answers h
  have henter : Answers (host.wire fd).env (⟨v, []⟩, i, o) [⟨.enter fn, ()⟩] (⟨v, []⟩, i, o) :=
    Host.wire_enter
  have hleave : Answers (host.wire fd).env s [⟨.leave fn (status a), ()⟩] s := Host.wire_leave
  exact (runs_noted.mpr ⟨t, rfl, hrun⟩).eval ((henter.append ht).append hleave)

theorem choosemethod_eval :
    (socks5Choosemethod (.start fd)).eval (host.wire fd).env (⟨v, []⟩, [5, 1, 2] ++ i, o) =
      some ((0, 2), ⟨v, []⟩, i, o ++ [5, 2]) := by
  have hrun : Runs (socks5Choosemethod (.start fd))
      (greeting fd [2] ++ [⟨.writen fd [5, 2], true⟩]) (.done (0, 2)) :=
    socks5Choosemethod_answers _ (by decide) (by simp)
  exact hrun.eval ((Host.wire_chunks [[5], [1], [2]] i).append Host.wire_sent)

theorem readauth_eval (hu : user.length < 256) (hp : passwd.length < 256) :
    (socks5Readauth (.start fd)).eval (host.wire fd).env (⟨v, []⟩, loginBytes user passwd ++ i, o) =
      some ((0, (Socks5Cli.start fd).withLogin user passwd), ⟨v, []⟩, i, o ++ [1, 0]) := by
  have hrun := (readauth_login (.start fd) hu hp).append (.cons (r := true) (.nil _))
  have hbytes : loginBytes user passwd ++ i = [[1], [UInt8.ofNat user.length], user,
      [UInt8.ofNat passwd.length], passwd].flatten ++ i := by simp [loginBytes]
  exact hrun.eval (hbytes ▸ (Host.wire_chunks _ i).append Host.wire_sent)

theorem readrequest_eval (hrequest : request.Valid) (hc : c.clientfd = fd) :
    (socks5Readrequest c).eval (host.wire fd).env (⟨v, []⟩, requestBytes request, o) =
      some ((0, { c with cmd := 1, request }), ⟨v, []⟩, [], o) := by
  subst hc
  obtain ⟨bss, hbss, hrun⟩ := readrequest_request hrequest c
  have hchunks : Answers (host.wire c.clientfd).env (⟨v, []⟩, bss.flatten ++ [], o)
      (bss.map (chunkEvent c.clientfd)) (⟨v, []⟩, [], o) := Host.wire_chunks bss []
  rw [hbss, List.append_nil] at hchunks
  exact hrun.eval hchunks

/-- What a session has done that has sent more than 01 00 behind a login. -/
theorem goes_authenticate {k : Int × Socks5Cli → Session β} {q : Session β}
    (hu : user.length < 256) (hp : passwd.length < 256)
    (hk : ∀ st c, st ≠ 0 → (k (st, c)).All (Call.Local fd))
    (h : (authenticate (.start fd) 2 >>= k).Goes (host.wire fd).env
      (⟨v, []⟩, loginBytes user passwd ++ i, o) q s) (hsent : ¬ s.2.2 <+: o ++ [1, 0]) :
    ∃ c v1, stripRedirectaddr ((Socks5Cli.start fd).withLogin user passwd) = (0, c) ∧
      (socks5Doauth c).eval host v = some (0, v1) ∧
      (k (0, c)).Goes (host.wire fd).env (⟨v1, []⟩, i, o ++ [1, 0]) q s := by
  have hne : s.2.2 ≠ o ++ [1, 0] := fun heq => hsent (heq ▸ List.prefix_rfl)
  rw [authenticate, if_pos rfl, Prog.bind_assoc] at h
  have hstrip := goes_past h (Host.noted_eval (readauth_eval hu hp)) hsent
  change ((noted .stripRedirectaddr Prod.fst (.done _) >>= _) >>= k).Goes _
    (Wired.mk v [], i, o ++ [1, 0]) _ _ at hstrip
  rw [Prog.bind_assoc] at hstrip
  obtain ⟨⟨st, c⟩, v1, heval, hauth⟩ := Host.goes_noted all_done hstrip hne
  obtain ⟨hstrip, rfl⟩ := Prod.mk.inj (Option.some.inj heval)
  by_cases hst : st = 0
  · subst hst
    change ((noted .doauth id (socks5Doauth c) >>= _) >>= k).Goes _ _ _ _ at hauth
    rw [Prog.bind_assoc] at hauth
    obtain ⟨st, v1, hauth, hnext⟩ :=
      Host.goes_noted ((socks5Doauth_all c).mono fun _ h => h.local) hauth hne
    by_cases hst : st = 0
    · subst hst
      exact ⟨c, v1, hstrip, hauth, hnext⟩
    · exact absurd hnext (Host.wire_silent (hk st c hst) hne)
  · change ((if st ≠ 0 then _ else _ : Session _) >>= k).Goes _ _ _ _ at hauth
    rw [if_pos hst] at hauth
    exact absurd hauth (Host.wire_silent (hk st c hst) hne)

/-- `socks5_connectproxy` has to do with its host alone where the new socket is not the
connection. -/
theorem goes_connectproxy {f : Int × Socks5Cli → Session β} {q : Session β}
    (hfresh : ∀ v pfd v', host .socket v = some (pfd, v') → pfd ≠ fd)
    (h : (socks5Connectproxy c >>= f).Goes (host.wire fd).env (⟨v, []⟩, i, o) q s)
    (hsent : s.2.2 ≠ o) :
    ∃ st pfd v1, (socks5Connectproxy c).eval host v = some ((st, { c with proxyfd := pfd }), v1) ∧
      (f (st, { c with proxyfd := pfd })).Goes (host.wire fd).env (⟨v1, []⟩, i, o) q s := by
  obtain ⟨rest, heq, hrest⟩ := socks5Connectproxy_all c
  rw [heq] at h ⊢
  obtain ⟨pfd, v1, hsocket, h⟩ := Host.goes_call (by trivial) h hsent
  have hlocal : (rest pfd).All (Call.Local fd) :=
    (hrest pfd).1.mono fun _ hcall => hcall.local (hfresh _ _ _ hsocket)
  obtain ⟨⟨st, c'⟩, v2, heval, h⟩ := Host.goes_local hlocal h hsent
  obtain ⟨t, hrun, -⟩ := eval_answers heval
  obtain rfl : c' = { c with proxyfd := pfd } := (hrest pfd).2.runs hrun
  refine ⟨st, pfd, v2, ?_, h⟩
  rw [eval_call, hsocket]
  exact heval

theorem goes_writereply {st : Int} {f : Int → Session β} {q : Session β} (hc : c.clientfd = fd)
    (hf : (f 1).All (Call.Local fd))
    (h : (socks5Writereply c st >>= f).Goes (host.wire fd).env (⟨v, []⟩, i, o) q s)
    (hsent : s.2.2 ≠ o) :
    ∃ ss v1, host (.getsockname c.proxyfd) v = some (some ss, v1) ∧
      (f 0).Goes (host.wire fd).env (⟨v1, []⟩, i, o ++ replyOf st ss) q s := by
  simp only [socks5Writereply, call, writen, call_bind, done_bind, pure_eq] at h
  obtain ⟨found, v1, hbound, h⟩ := Host.goes_call (by trivial) h hsent
  cases found with
  | none => exact absurd h (Host.wire_silent hf hsent)
  | some ss =>
    subst hc
    have hwrite : (host.wire c.clientfd).answer (.writen c.clientfd (replyOf st ss)) ⟨v1, []⟩ i =
        some (true, ⟨v1, []⟩, i, replyOf st ss) := if_pos rfl
    exact ⟨ss, v1, hbound, goes_answered hwrite h hsent⟩

/-- What a session does with a request to connect, and what it has replied. -/
theorem goes_serveRequest {k : Int × Socks5Cli → Session β} {q : Session β}
    (hfresh : ∀ v pfd v', host .socket v = some (pfd, v') → pfd ≠ fd)
    (hcmd : c.cmd = 1) (hc : c.clientfd = fd) (hk : ∀ x, (k x).All (Call.Local fd))
    (h : (serveRequest c >>= k).Goes (host.wire fd).env (⟨v, []⟩, i, o) q s) (hsent : s.2.2 ≠ o) :
    ∃ st pfd v1 v2 ss, (socks5Connectproxy c).eval host v =
        some ((st, { c with proxyfd := pfd }), v1) ∧
      host (.getsockname pfd) v1 = some (some ss, v2) ∧ s.2 = (i, o ++ replyOf st ss) ∧
      (st = 0 → s.1 = ⟨v2, []⟩ ∧ ∃ next, q = .call (.negotiate fd pfd) next) := by
  unfold serveRequest at h
  rw [hcmd] at h
  change ((noted .connectproxy Prod.fst (socks5Connectproxy c) >>= _) >>= k).Goes _ _ _ _ at h
  rw [Prog.bind_assoc] at h
  obtain ⟨st, pfd, v1, hconnect, hleave⟩ := goes_connectproxy hfresh (Host.goes_enter h hsent) hsent
  have hreply := Host.goes_leave hleave hsent
  have hc' : ({ c with proxyfd := pfd } : Socks5Cli).clientfd = fd := hc
  by_cases hst : st = 0
  · subst hst
    change ((socks5Writereply _ 0 >>= _) >>= k).Goes _ _ _ _ at hreply
    rw [Prog.bind_assoc] at hreply
    obtain ⟨ss, v2, hbound, hnext⟩ := goes_writereply hc' (hk _) hreply hsent
    change (Prog.call (.negotiate c.clientfd pfd) _ : Session β).Goes _ _ _ _ at hnext
    rcases hnext.call_inv with ⟨rfl, rfl⟩ | ⟨r, s1, hcall, -⟩
    · exact ⟨0, pfd, v1, v2, ss, hconnect, hbound, rfl, fun _ => ⟨rfl, _, by rw [← hc]⟩⟩
    · cases hcall
  · change ((if st ≠ 0 then _ else _ : Session _) >>= k).Goes _ _ _ _ at hreply
    rw [if_pos hst, Prog.bind_assoc] at hreply
    obtain ⟨ss, v2, hbound, hnext⟩ := goes_writereply hc' (hk _) hreply hsent
    exact ⟨st, pfd, v1, v2, ss, hconnect, hbound, Host.wire_quiet (hk _) hnext,
      fun h => absurd h hst⟩

/-- What a session has done that has replied to the request behind a login. -/
theorem goes_serves {q : Session (Option Int)}
    (hfresh : ∀ v pfd v', host .socket v = some (pfd, v') → pfd ≠ fd)
    (hbound : ∀ pfd v ss v', host (.getsockname pfd) v = some (some ss, v') → ss.Valid)
    (hu : user.length < 256) (hp : passwd.length < 256) (hrequest : request.Valid)
    (h : (socks5Run fd).Goes (host.wire fd).env
      (⟨v, []⟩, [5, 1, 2] ++ (loginBytes user passwd ++ requestBytes request), []) q s)
    (hsent : ¬ s.2.2 <+: [5, 2, 1, 0]) :
    ∃ st pfd ss, ByteStatus st ∧ ss.Valid ∧ s.2 = ([], [5, 2, 1, 0] ++ replyOf st ss) ∧
      (st = 0 → Serves host fd pfd ⟨user, passwd⟩ request v s.1.world ∧
        ∃ next, q = .call (.negotiate fd pfd) next) := by
  obtain ⟨k, hk, hrun⟩ : ∃ k : Option Int × Socks5Cli → Session (Option Int),
      (∀ x, (k x).All (Call.Local fd)) ∧ socks5Run fd = serve (.start fd) >>= k :=
    ⟨fun x => .call (.close x.2.clientfd) fun _ => .call (.close x.2.proxyfd) fun _ => .done x.1,
      fun x => ⟨trivial, fun _ => ⟨trivial, fun _ => trivial⟩⟩, rfl⟩
  have hnil : s.2.2 ≠ [] := fun heq => hsent (heq ▸ List.nil_prefix)
  have hne : s.2.2 ≠ [5, 2, 1, 0] := fun heq => hsent (heq ▸ List.prefix_rfl)
  have hmethod : ¬ s.2.2 <+: [5, 2] := fun hle => hsent (hle.trans (by decide))
  rw [hrun, serve, Prog.bind_assoc] at h
  obtain ⟨ok, v1, hpeer, h⟩ := Host.goes_call (by trivial) h hnil
  cases ok with
  | false => exact absurd h (Host.wire_silent (hk _) hnil)
  | true =>
  change ((noted .choosemethod Prod.fst (socks5Choosemethod (.start fd)) >>= _) >>= k).Goes _ _ _ _
    at h
  rw [Prog.bind_assoc] at h
  have hlogin := goes_past h (Host.noted_eval choosemethod_eval) hmethod
  change ((authenticate (.start fd) 2 >>= _) >>= k).Goes _ _ _ _ at hlogin
  rw [Prog.bind_assoc] at hlogin
  obtain ⟨c, v2, hstrip, hauth, hread⟩ := goes_authenticate hu hp (fun st c hst => by
    change ((if st ≠ 0 then _ else _ : Session _) >>= k).All _
    rw [if_pos hst]
    exact hk _) hlogin hsent
  have hc : c.clientfd = fd := stripRedirectaddr_clientfd hstrip
  change ((noted .readrequest Prod.fst (socks5Readrequest c) >>= _) >>= k).Goes _ _ _ _ at hread
  rw [Prog.bind_assoc] at hread
  have hserve := goes_past hread (Host.noted_eval (readrequest_eval hrequest hc)) hsent
  change ((serveRequest { c with cmd := 1, request } >>= _) >>= k).Goes _ _ _ _ at hserve
  rw [Prog.bind_assoc] at hserve
  obtain ⟨st, pfd, v3, v4, ss, hconnect, hname, hs, hnext⟩ :=
    goes_serveRequest hfresh (show ({ c with cmd := 1, request } : Socks5Cli).cmd = 1 from rfl) hc
      (fun _ => hk _) hserve hne
  obtain ⟨t, hrun', -⟩ := eval_answers hconnect
  refine ⟨st, pfd, ss, (socks5Connectproxy_status _).runs hrun', hbound _ _ _ _ hname, hs,
    fun hst => ?_⟩
  subst hst
  obtain ⟨hv, next, hq⟩ := hnext rfl
  refine ⟨⟨⟨v1, v2, v3, c, ss, hpeer, hstrip, hauth, hconnect, ?_, hbound _ _ _ _ hname⟩,
    hrequest, hfresh⟩, next, hq⟩
  rw [hv]
  exact hname

/-- A session that has sent more than 05 02 01 00 has sent a reply behind it, or the beginning of one
where the write has failed. -/
theorem goes_replies {q : Session (Option Int)} {l : Wired ω}
    (hfresh : ∀ v pfd v', host .socket v = some (pfd, v') → pfd ≠ fd)
    (hbound : ∀ pfd v ss v', host (.getsockname pfd) v = some (some ss, v') → ss.Valid)
    (hu : user.length < 256) (hp : passwd.length < 256) (hrequest : request.Valid)
    (h : (socks5Run fd).Goes (host.wire fd).env
      (l, [5, 1, 2] ++ (loginBytes user passwd ++ requestBytes request), []) q s)
    (hsent : ¬ s.2.2 <+: [5, 2, 1, 0]) :
    ∃ st ss rest, ByteStatus st ∧ ss.Valid ∧ s.2.2 ++ rest = [5, 2, 1, 0] ++ replyOf st ss ∧
      (rest = [] → st = 0 → s.2.1 = [] ∧ ∃ pfd next,
        Serves host fd pfd ⟨user, passwd⟩ request l.world s.1.world ∧
        q = .call (.negotiate fd pfd) next) := by
  have hA : ∀ c s r s', (host.wire fd).env c s = some (r, s') →
      ∀ pfd : Int, (⟨c, r⟩ : SessionEvent) = ⟨.socket, pfd⟩ → pfd ≠ fd := by
    rintro c ⟨l, i, o⟩ r s' hcall pfd he
    cases he
    rw [Host.wire_local_eq (w := l.world) (by trivial) l.fails] at hcall
    obtain ⟨x, hx, heq⟩ := Option.map_eq_some_iff.mp hcall
    cases heq
    exact hfresh _ _ _ hx
  have hgivesUp := socks5Run_givesUp
    (A := fun e => ∀ pfd : Int, e = ⟨.socket, pfd⟩ → pfd ≠ fd) (fun pfd h => h pfd rfl) fd
  rcases hgivesUp.goes hA h with
    h | ⟨-, c, next, w, i', o', hc, h, ho | ⟨data, k, rfl, hk, ho⟩⟩
  · obtain ⟨st, pfd, ss, hst, hss, hs, hserve⟩ := goes_serves hfresh hbound hu hp hrequest h hsent
    obtain ⟨hi, ho⟩ := Prod.mk.inj hs
    refine ⟨st, ss, [], hst, hss, by rw [List.append_nil, ho], fun _ hzero => ⟨hi, ?_⟩⟩
    obtain ⟨hserves, next, hq⟩ := hserve hzero
    exact ⟨pfd, next, hserves, hq⟩
  · -- the call that has failed is not the relay
    rw [ho] at hsent ⊢
    obtain ⟨st, pfd, ss, hst, hss, hs, hserve⟩ := goes_serves hfresh hbound hu hp hrequest h hsent
    refine ⟨st, ss, [], hst, hss, by rw [List.append_nil, (Prod.mk.inj hs).2], fun _ hzero => ?_⟩
    obtain ⟨-, next', hq⟩ := hserve hzero
    cases hq
    exact absurd rfl (hc fd pfd)
  · -- the write that has failed is the one of the reply
    have hwhole := h.snoc Host.wire_write
    have hmore : ¬ o' ++ data <+: [5, 2, 1, 0] := by
      intro hle
      rw [ho] at hsent
      exact hsent (((List.prefix_append_right_inj o').mpr (List.take_prefix k data)).trans hle)
    obtain ⟨st, pfd, ss, hst, hss, hs, -⟩ :=
      goes_serves hfresh hbound hu hp hrequest hwhole hmore
    refine ⟨st, ss, data.drop k, hst, hss, ?_, fun hnil => ?_⟩
    · rw [ho, List.append_assoc, List.take_append_drop]
      exact (Prod.mk.inj hs).2
    · exact absurd (List.drop_eq_nil_iff.mp hnil) (by omega)

end Serve

/-! ### Agreement -/

/-- The hosts at the ends of one connection.  It is the only one that the dialer opens, and it is
open already at the server, whose sockets have addresses. -/
structure Joined (dialer : Host ω) (server : Host ω') (fd sfd : Int) : Prop where
  opens : ∀ w r w', dialer .socket w = some (r, w') → r = -1 ∨ r = fd
  fresh : ∀ v pfd v', server .socket v = some (pfd, v') → pfd ≠ sfd
  bound : ∀ pfd v ss v', server (.getsockname pfd) v = some (some ss, v') → ss.Valid

/-- In every order of the steps of two instances, and whichever calls on the connection fail: when
the one that connects has returned 0, the other one has accepted the login that was sent as one of
its clients', is connected for the request that was sent, and starts the relay, with nothing left on
the connection. -/
theorem handshake_agrees {dialer : Host ω} {server : Host ω'} {client c : Socks5Cli} {fd sfd : Int}
    {l l' : Wired ω} {m m' : Wired ω'} {i j : List UInt8} {ls : List Side} {q : Session (Option Int)}
    (hjoined : Joined dialer server fd sfd) (hrequest : client.request.Valid)
    (h : Lts.Run (Step (dialer.wire fd) (server.wire sfd))
      ⟨socks5Connectproxy client, socks5Run sfd, l, m, [], []⟩ ls
      ⟨.done (0, c), q, l', m', i, j⟩) :
    ∃ creds pfd next, Dials dialer client fd creds l.world l'.world ∧
      Serves server sfd pfd creds.sent client.request m.world m'.world ∧
      c = { client with proxyfd := fd } ∧ q = .call (.negotiate sfd pfd) next ∧ i = [] ∧ j = [] := by
  obtain ⟨out, out', hleft, hright⟩ := run_alone h
  dsimp only at hleft hright
  obtain ⟨creds, w1, rest, hdial, rfl, hout', hreply⟩ :=
    connectproxy_succeeds hjoined.opens (connectproxy_whole hleft)
  obtain ⟨rfl, hrest⟩ := readreply_reads_only hreply
  rw [List.nil_append] at hout'
  have hlt : ∀ n, n % 256 < 256 := fun n => Nat.mod_lt n (by decide)
  have hsent : ¬ out' <+: [5, 2, 1, 0] := by
    intro hle
    have hlen : 4 + rest.length ≤ 4 := by
      rw [hout'] at hle
      exact List.length_append.symm.trans_le hle.length_le
    have hpos := List.length_pos_of_ne_nil hrest
    omega
  obtain ⟨st, ss, more, hst, hss, hall, hserve⟩ := goes_replies hjoined.fresh hjoined.bound
    (Creds.sent_user_length.trans_lt (hlt _)) (Creds.sent_passwd_length.trans_lt (hlt _)) hrequest
    (by simpa using hright) hsent
  have hpart : rest ++ more = replyOf st ss := by
    rw [hout', List.append_assoc] at hall
    exact List.append_cancel_left hall
  obtain ⟨hmore, hzero, hend⟩ := readreply_whole hss hpart hreply
  obtain rfl : st = 0 := by
    obtain ⟨hle, hlt⟩ := hst
    have hnat : (UInt8.ofInt st).toNat = 0 := by rw [hzero]; rfl
    rw [UInt8.ofInt, UInt8.toNat_ofNat'] at hnat
    omega
  obtain ⟨hj, pfd, next, hserves, hq⟩ := hserve hmore rfl
  simp only [Prod.mk.injEq, Wired.mk.injEq] at hend
  obtain ⟨⟨rfl, -⟩, hi, -⟩ := hend
  exact ⟨creds, pfd, next, hdial, hserves, rfl, hq, hi, hj⟩

theorem plain_joined : Joined plainDialer plainWorld.answer 5 4 where
  opens w r w' h := by
    cases h
    exact .inr rfl
  fresh := plainWorld.fresh
  bound pfd v ss v' h := by
    cases h
    exact ⟨.inl ⟨rfl, rfl⟩, rfl⟩

theorem handshake_agrees_plain :
    ∃ ls next, Lts.Run (Step (plainDialer.wire 5) (Host.wire plainWorld.answer 4))
        ⟨socks5Connectproxy { plainClient with request := ⟨.inet, [10, 0, 0, 1], [0, 80]⟩ },
          socks5Run 4, ⟨(), []⟩, ⟨[5, 2, 1, 0, 5, 0, 0, 1, 10, 0, 0, 2, 0, 81], []⟩, [], []⟩ ls
        ⟨.done (0, { plainClient with
            request := ⟨.inet, [10, 0, 0, 1], [0, 80]⟩, proxyfd := 5 }),
          .call (.negotiate 4 5) next, ⟨(), []⟩, ⟨[], []⟩, [], []⟩ ∧
      ∃ creds pfd, Dials plainDialer
          { plainClient with request := ⟨.inet, [10, 0, 0, 1], [0, 80]⟩ } 5 creds () () ∧
        Serves plainWorld.answer 4 pfd creds.sent ⟨.inet, [10, 0, 0, 1], [0, 80]⟩
          [5, 2, 1, 0, 5, 0, 0, 1, 10, 0, 0, 2, 0, 81] [] := by
  obtain ⟨next, ls, hrun⟩ := handshake_run plainDialer_dials plainWorld_serves
  obtain ⟨creds, pfd, -, hdials, hserves, -⟩ :=
    handshake_agrees plain_joined ⟨.inl ⟨rfl, rfl⟩, rfl⟩ hrun
  exact ⟨ls, next, hrun, creds, pfd, hdials, hserves⟩

end Silksocks
