import Silksocks.SessionRuns

/-! What a client is told about its login.  `socks5_readauth` writes 01 00 as soon as it has read
the login, before anything is checked, so a client whose login is refused has been told of a
success. -/

namespace Silksocks

open Program Prog

/-- The client takes the status 01 00 of its login. -/
def told (fd : Int) : SessionEvent := ⟨.writen fd [1, 0], true⟩

/-- One of the functions that check a login. -/
def Fn.Checks (f : Fn) : Prop := f = .readauth ∨ f = .stripRedirectaddr ∨ f = .doauth

/-- The client is told of a success only if all checks return 0, and never if one fails. -/
structure StatusHonest (fd : Int) (t : List SessionEvent) : Prop where
  passed : told fd ∈ t → ∀ f : Fn, f.Checks → ⟨.leave f 0, ()⟩ ∈ t
  failed : ∀ f : Fn, f.Checks → ∀ st, st ≠ 0 → ⟨.leave f st, ()⟩ ∈ t → told fd ∉ t

/-- The login of a client is well-formed, and has the password that the cache or the database has
for its user. -/
def LoginValid (t : List SessionEvent) (client : Socks5Cli) : Prop :=
  ∃ c, stripRedirectaddr client = (0, c) ∧ Vouched t c.user c.passwd

/-- The events of a session up to a greeting that offers the method 02, and the login behind it. -/
def loginRead (fd : Int) (ms user passwd : List UInt8) : List SessionEvent :=
  [⟨.getpeername fd, true⟩, ⟨.enter .choosemethod, ()⟩] ++ greeting fd ms ++
    [⟨.writen fd [5, 2], true⟩, ⟨.leave .choosemethod 0, ()⟩, ⟨.enter .readauth, ()⟩] ++
      login fd user passwd

/-- A client that offers the method 02, sends an invalid login, and takes what is written to it. -/
def LoginInvalid (fd : Int) (t : List SessionEvent) : Prop :=
  ∃ ms user passwd : List UInt8, ms.length < 256 ∧ user.length < 256 ∧ passwd.length < 256 ∧
    2 ∈ ms ∧ loginRead fd ms user passwd <+: t ∧ ⟨.writen fd [1, 0], false⟩ ∉ t ∧
      ¬ LoginValid t ((Socks5Cli.start fd).withLogin user passwd)

section Told

variable {client c : Socks5Cli} {t : List SessionEvent} {fd st : Int}

/-- A call that writes no 01 00, and does not end a check. -/
structure Call.Neutral (c : Call) : Prop where
  write : ∀ fd, c ≠ .writen fd [1, 0]
  leave : ∀ f : Fn, f.Checks → ∀ st, c ≠ .leave f st

theorem Call.Reads.neutral {fd : Int} {c : Call} (h : c.Reads fd) : c.Neutral := by
  constructor
  · rintro fd' rfl
    exact h
  · rintro f - st rfl
    exact h

theorem Call.Resolves.neutral {c : Call} (h : c.Resolves) : c.Neutral := by
  constructor
  · rintro fd' rfl
    exact h
  · rintro f - st rfl
    exact h

theorem Call.LooksUpProxy.neutral {c : Call} (h : c.LooksUpProxy) : c.Neutral := by
  constructor
  · rintro fd' rfl
    exact h
  · rintro f - st rfl
    exact h

theorem writen_neutral {data : List UInt8} (fd : Int) (h : data ≠ [1, 0]) :
    (Call.writen fd data).Neutral := by
  constructor
  · rintro fd' heq
    cases heq
    exact h rfl
  · simp

theorem noted_neutral {α : Type} {f : Fn} {status : α → Int} {p : Session α}
    (hp : p.All Call.Neutral) (hf : ¬ f.Checks) : (noted f status p).All Call.Neutral := by
  refine noted_all hp ⟨by simp, by simp⟩ fun st => ⟨by simp, ?_⟩
  rintro f' hf' st' heq
  cases heq
  exact hf hf'

theorem authMessage_ne {creds : Creds} {data : List UInt8} (h : authMessage creds = some data) :
    data ≠ [1, 0] := by
  rintro rfl
  simp only [authMessage] at h
  split at h
  · cases h
  · have hlen := congrArg List.length (Option.some.inj h)
    simp at hlen

theorem socks5Connectproxy_neutral (client : Socks5Cli) :
    (socks5Connectproxy client).All Call.Neutral := by
  obtain ⟨rest, heq, hrest⟩ := socks5Connectproxy_writes client (W := (· ≠ [1, 0])) (by decide)
    (fun _ _ => authMessage_ne) (by simp)
  rw [heq]
  refine ⟨⟨by simp, by simp⟩, fun pfd => (hrest pfd).1.mono fun c hc => ?_⟩
  rcases hc with hc | ⟨peer, rfl⟩ | ⟨b, rfl, hb⟩ | hc
  · exact hc.neutral
  · exact ⟨by simp, by simp⟩
  · exact writen_neutral pfd hb
  · exact hc.neutral

theorem serveRequest_neutral (client : Socks5Cli) : (serveRequest client).All Call.Neutral := by
  have hreply : ∀ c status, (socks5Writereply c status).All Call.Neutral := by
    refine fun c status => (socks5Writereply_all c status).mono fun c hc => ?_
    rcases hc with rfl | ⟨atyp, b, rfl⟩
    · exact ⟨by simp, by simp⟩
    · exact writen_neutral _ (by simp)
  unfold serveRequest
  split
  · refine (noted_neutral (socks5Connectproxy_neutral client) (by simp [Fn.Checks])).bind ?_
    rintro ⟨status, c⟩
    dsimp only
    split
    · exact (hreply c status).bind fun _ => trivial
    · refine (hreply c status).bind fun status => ?_
      split
      · trivial
      · exact ⟨⟨by simp, by simp⟩, fun _ => trivial⟩
  · trivial

theorem socks5Choosemethod_neutral (client : Socks5Cli) :
    (socks5Choosemethod client).All Call.Neutral := by
  refine (socks5Choosemethod_all client).mono fun c hc => ?_
  rcases hc with hc | ⟨m, rfl⟩
  · exact hc.neutral
  · exact writen_neutral _ (by simp)

theorem socks5Readrequest_neutral (client : Socks5Cli) :
    (socks5Readrequest client).All Call.Neutral := by
  refine (socks5Readrequest_all client).mono fun c hc => ?_
  rcases hc with hc | hc
  · exact hc.neutral
  · exact hc.neutral

/-- Only the authentication decides whether the status is honest. -/
theorem StatusHonest.of_neutral {t1 t2 : List SessionEvent} (h : StatusHonest fd t)
    (h1 : ∀ e ∈ t1, e.call.Neutral) (h2 : ∀ e ∈ t2, e.call.Neutral) :
    StatusHonest fd (t1 ++ t ++ t2) := by
  have hmem : ∀ e : SessionEvent, ¬ e.call.Neutral → (e ∈ t1 ++ t ++ t2 ↔ e ∈ t) := by
    intro e he
    have he1 : e ∉ t1 := fun hmem => he (h1 e hmem)
    have he2 : e ∉ t2 := fun hmem => he (h2 e hmem)
    simp [he1, he2]
  have htold : told fd ∈ t1 ++ t ++ t2 ↔ told fd ∈ t := hmem _ fun hn => hn.write fd rfl
  have hleave : ∀ f st, f.Checks →
      ((⟨.leave f st, ()⟩ : SessionEvent) ∈ t1 ++ t ++ t2 ↔ ⟨.leave f st, ()⟩ ∈ t) :=
    fun f st hf => hmem _ fun hn => hn.leave f hf st rfl
  constructor
  · intro ht f hf
    exact (hleave f 0 hf).mpr (h.passed (htold.mp ht) f hf)
  · intro f hf st hst hmem ht
    exact h.failed f hf st hst ((hleave f st hf).mp hmem) (htold.mp ht)

/-- Where the authentication ends dishonestly, the login is invalid. -/
theorem AuthEnd.honest_or (h : AuthEnd client t (st, c)) (hfd : client.clientfd = fd) :
    StatusHonest fd t ∨ st ≠ 0 ∧ ∃ user passwd : List UInt8, user.length < 256 ∧
      passwd.length < 256 ∧ [⟨.enter .readauth, ()⟩] ++ login fd user passwd <+: t ∧
      ⟨.writen fd [1, 0], false⟩ ∉ t ∧ ¬ LoginValid t (client.withLogin user passwd) := by
  subst hfd
  cases h with
  | @unread t _ hrun htold =>
    left
    have hnot : told client.clientfd ∉ ([⟨.enter .readauth, ()⟩] ++ t ++
        [⟨.leave .readauth 1, ()⟩] : List SessionEvent) := by simpa [told] using htold
    exact ⟨fun ht => absurd ht hnot, fun _ _ _ _ _ => hnot⟩
  | @malformed user passwd _ _ hu hp hstrip hst =>
    refine .inr ⟨hst, user, passwd, hu, hp, ⟨_, rfl⟩, ?_, ?_⟩
    · simp [login, byteEvent, chunkEvent]
    · rintro ⟨c', hc', -⟩
      rw [hstrip] at hc'
      exact hst (Prod.mk.inj hc').1
  | @checked user passwd t' _ _ hu hp hstrip hrun =>
    have hnotes : ∀ e ∈ t', e.call.LooksUpUser := (socks5Doauth_all c).runs hrun
    have hmem : ∀ e : SessionEvent, ¬ e.call.LooksUpUser → e ∉ t' := fun e he hmem =>
      he (hnotes e hmem)
    by_cases hst : st = 0
    · left
      subst hst
      constructor
      · rintro - f (rfl | rfl | rfl) <;> simp [loginAccepted]
      · intro f hf st hst hleave
        simp [loginAccepted, login, byteEvent, chunkEvent, hst,
          hmem ⟨.leave f st, ()⟩ (by simp [Call.LooksUpUser])] at hleave
    · refine .inr ⟨hst, user, passwd, hu, hp, ⟨_, by simp [loginAccepted]; rfl⟩, ?_, ?_⟩
      · simp [loginAccepted, login, byteEvent, chunkEvent,
          hmem ⟨.writen _ [1, 0], false⟩ (by simp [Call.LooksUpUser])]
      · rintro ⟨c', hc', hvouched⟩
        rw [hstrip] at hc'
        obtain rfl := (Prod.mk.inj hc').2
        refine hst ((doauth_runs hrun).mpr ?_)
        simpa [Vouched, loginAccepted, login, byteEvent, chunkEvent] using hvouched

theorem StatusHonest.nil : StatusHonest fd [] := ⟨by simp [told], by simp [told]⟩

theorem neutral_honest (h : ∀ e ∈ t, e.call.Neutral) : StatusHonest fd t := by
  have hnil : ∀ e ∈ ([] : List SessionEvent), e.call.Neutral := by simp
  simpa using StatusHonest.nil.of_neutral h hnil

theorem selected_runs {m : UInt8}
    (h : Runs (noted .choosemethod Prod.fst (socks5Choosemethod (.start fd))) t (.done (0, m))) :
    (∀ e ∈ t, e.call.Neutral) ∧ ∃ ms : List UInt8, ms.length < 256 ∧
      m = (if 2 ∈ ms then 2 else 0xFF) ∧
      t = [⟨.enter .choosemethod, ()⟩] ++ greeting fd ms ++
        [⟨.writen fd [5, m], true⟩, ⟨.leave .choosemethod 0, ()⟩] := by
  refine ⟨(noted_neutral (socks5Choosemethod_neutral _) (by simp [Fn.Checks])).runs h, ?_⟩
  obtain ⟨t, rfl, hrun⟩ := runs_noted.mp h
  obtain ⟨ms, hlen, hm, rfl⟩ := choosemethod_runs hrun
  exact ⟨ms, hlen, hm, by simp⟩

theorem Admitted.honest {t1 t2 : List SessionEvent} {m : UInt8} (h : Admitted fd t1 t2 m client) :
    StatusHonest fd t2 := by
  obtain ⟨-, ms, -, hm, -⟩ := selected_runs h.choosemethod
  have hauth := h.authenticate
  split_ifs at hm
  · subst hm
    rcases (authenticate_runs hauth).honest_or rfl with hhonest | ⟨hst, -⟩
    · exact hhonest
    · exact absurd rfl hst
  · subst hm
    obtain ⟨rfl, -⟩ := runs_done.mp hauth
    exact .nil

theorem loginInvalid_of_refused {t1 t2 : List SessionEvent} {m : UInt8}
    (hgreeting : Runs (noted .choosemethod Prod.fst (socks5Choosemethod (.start fd))) t1
      (.done (0, m)))
    (hm : m = 2) {user passwd : List UInt8} (hu : user.length < 256) (hp : passwd.length < 256)
    (hpre : [⟨.enter .readauth, ()⟩] ++ login fd user passwd <+: t2)
    (hwrite : ⟨.writen fd [1, 0], false⟩ ∉ t2)
    (hinvalid : ¬ LoginValid t2 ((Socks5Cli.start fd).withLogin user passwd)) :
    LoginInvalid fd ([⟨.getpeername fd, true⟩] ++ t1 ++ t2 ++ closes c) := by
  obtain ⟨-, ms, hlen, hsel, rfl⟩ := selected_runs hgreeting
  have hms : 2 ∈ ms := by
    by_contra hms
    rw [if_neg hms, hm] at hsel
    cases hsel
  obtain ⟨rest, rfl⟩ := hpre
  subst hm
  refine ⟨ms, user, passwd, hlen, hu, hp, hms, ⟨rest ++ closes c, ?_⟩, ?_, ?_⟩
  · simp [loginRead]
  · simpa [greeting, byteEvent, closes] using hwrite
  · rintro ⟨c', hc', hvouched⟩
    refine hinvalid ⟨c', hc', ?_⟩
    simpa [Vouched, greeting, byteEvent, closes] using hvouched

theorem socks5Run_honest {r : Option Int} (hrun : Runs (socks5Run fd) t (.done r))
    (hvalid : ¬ LoginInvalid fd t) : StatusHonest fd t := by
  obtain ⟨t', c, hend, rfl⟩ := socks5Run_ends hrun
  have hsingle : ∀ (c : Call) (r : c.Result), c.Neutral →
      ∀ e ∈ [(⟨c, r⟩ : SessionEvent)], e.call.Neutral := by
    intro c r hc e he
    rwa [List.mem_singleton.mp he]
  have hpeer := fun r => hsingle (.getpeername fd) r ⟨by simp, by simp⟩
  have hcloses : ∀ e ∈ closes c, e.call.Neutral :=
    List.forall_mem_append.mpr ⟨hsingle (.close c.clientfd) () ⟨by simp, by simp⟩,
      hsingle (.close c.proxyfd) () ⟨by simp, by simp⟩⟩
  have hrequest : ∀ client, (noted .readrequest Prod.fst (socks5Readrequest client)).All
      Call.Neutral := fun client =>
    noted_neutral (socks5Readrequest_neutral client) (by simp [Fn.Checks])
  cases hend with
  | nopeer => exact neutral_honest (List.forall_mem_append.mpr ⟨hpeer false, hcloses⟩)
  | greeting hst hgreeting =>
    have h1 := (noted_neutral (socks5Choosemethod_neutral _) (by simp [Fn.Checks])).runs hgreeting
    exact neutral_honest (List.forall_mem_append.mpr
      ⟨List.forall_mem_append.mpr ⟨hpeer true, h1⟩, hcloses⟩)
  | @login t1 t2 st m _ hst hgreeting hlogin =>
    obtain ⟨h1, ms, -, hm, -⟩ := selected_runs hgreeting
    have hpre := List.forall_mem_append.mpr ⟨hpeer true, h1⟩
    split_ifs at hm with hms
    · subst hm
      rcases (authenticate_runs hlogin).honest_or rfl with
        hhonest | ⟨-, user, passwd, hu, hp, hread, hwrite, hinvalid⟩
      · exact hhonest.of_neutral hpre hcloses
      · exact absurd (loginInvalid_of_refused hgreeting rfl hu hp hread hwrite hinvalid) hvalid
    · subst hm
      obtain ⟨-, hend⟩ := runs_done.mp hlogin
      cases hend
      exact absurd rfl hst
  | @request t1 t2 t3 st m _ _ hst hadmitted hread =>
    have hpre := List.forall_mem_append.mpr ⟨hpeer true, (selected_runs hadmitted.choosemethod).1⟩
    have h3 := (hrequest _).runs (runs_noted.mpr ⟨t3, rfl, hread⟩)
    have hpost := List.forall_mem_append.mpr ⟨h3, hcloses⟩
    simpa using hadmitted.honest.of_neutral hpre hpost
  | @served t1 t2 t3 t4 st m _ _ _ hadmitted hread hserve =>
    have hpre := List.forall_mem_append.mpr ⟨hpeer true, (selected_runs hadmitted.choosemethod).1⟩
    have h3 := (hrequest _).runs (runs_noted.mpr ⟨t3, rfl, hread⟩)
    have h4 := (serveRequest_neutral _).runs hserve
    have hpost := List.forall_mem_append.mpr ⟨List.forall_mem_append.mpr ⟨h3, h4⟩, hcloses⟩
    simpa using hadmitted.honest.of_neutral hpre hpost

theorem AuthEnd.of_login {user passwd : List UInt8} {x y : List SessionEvent}
    (h : AuthEnd client t (st, c)) (hu : user.length < 256) (hp : passwd.length < 256)
    (hpre : t ++ x = [⟨.enter .readauth, ()⟩] ++ login client.clientfd user passwd ++ y)
    (htaken : ⟨.writen client.clientfd [1, 0], false⟩ ∉ t) :
    told client.clientfd ∈ t ∧ (stripRedirectaddr (client.withLogin user passwd) = (st, c) ∧
      st ≠ 0 ∧ ⟨.leave .stripRedirectaddr st, ()⟩ ∈ t ∨
      stripRedirectaddr (client.withLogin user passwd) = (0, c) ∧ ⟨.leave .doauth st, ()⟩ ∈ t ∧
        (st = 0 → Vouched t c.user c.passwd)) := by
  have hlogin := readauth_login client hu hp
  -- a run of `socks5_readauth` that wrote 01 00 has read just this login
  have haccepted : ∀ {user' passwd' : List UInt8} {z : List SessionEvent}, user'.length < 256 →
      passwd'.length < 256 →
      login client.clientfd user' passwd' ++ ([told client.clientfd] ++ z) =
        login client.clientfd user passwd ++ y →
      client.withLogin user' passwd' = client.withLogin user passwd := by
    intro user' passwd' z hu' hp' heq
    have hcomplete := (readauth_login client hu' hp').append (.cons (r := true) (.nil _))
    rw [← List.append_assoc] at heq
    obtain ⟨t'', -, -, hrun⟩ := hcomplete.extend hlogin heq
    obtain ⟨r, t3, rfl, hend⟩ := runs_call_done.mp hrun
    cases r with
    | false =>
      obtain ⟨-, hend⟩ := runs_done.mp hend
      cases (Prod.mk.inj (Prog.done.inj hend)).1
    | true =>
      obtain ⟨-, hend⟩ := runs_done.mp hend
      exact (Prod.mk.inj (Prog.done.inj hend)).2
  cases h with
  | @unread t _ hrun htold =>
    exfalso
    rw [List.append_assoc, List.append_assoc, List.append_assoc, List.append_cancel_left_eq] at hpre
    obtain ⟨t'', rfl, -, hrest⟩ := hrun.extend hlogin hpre
    obtain ⟨r, t3, rfl, hend⟩ := runs_call_done.mp hrest
    cases r with
    | false => simp at htaken
    | true =>
      obtain ⟨-, hend⟩ := runs_done.mp hend
      cases (Prod.mk.inj (Prog.done.inj hend)).1
  | @malformed user' passwd' _ _ hu' hp' hstrip hst =>
    simp only [List.append_assoc, List.append_cancel_left_eq] at hpre
    rw [haccepted hu' hp' hpre] at hstrip
    exact ⟨by simp [told], .inl ⟨hstrip, hst, by simp⟩⟩
  | @checked user' passwd' t' _ _ hu' hp' hstrip hrun =>
    simp only [loginAccepted, List.append_assoc, List.append_cancel_left_eq] at hpre
    rw [haccepted hu' hp' hpre] at hstrip
    refine ⟨by simp [told, loginAccepted], .inr ⟨hstrip, by simp, fun hst => ?_⟩⟩
    have hvouched := (doauth_runs hrun).mp hst
    simpa [Vouched, loginAccepted, login, byteEvent, chunkEvent] using hvouched

/-- An invalid login that is read ends the honesty of a session. -/
theorem AuthEnd.not_honest {user passwd : List UInt8} {t2 x y : List SessionEvent}
    (h : AuthEnd (.start fd) t2 (st, c)) (hu : user.length < 256) (hp : passwd.length < 256)
    (hpre : t2 ++ x = [⟨.enter .readauth, ()⟩] ++ login fd user passwd ++ y)
    (hsub : t2 ⊆ t) (htaken : ⟨.writen fd [1, 0], false⟩ ∉ t)
    (hinvalid : ¬ LoginValid t ((Socks5Cli.start fd).withLogin user passwd)) :
    ¬ StatusHonest fd t := by
  intro hhonest
  obtain ⟨htold, hcases⟩ := h.of_login hu hp hpre fun hmem => htaken (hsub hmem)
  rcases hcases with ⟨-, hst, hleave⟩ | ⟨hstrip, hleave, hvouched⟩
  · exact hhonest.failed _ (.inr (.inl rfl)) st hst (hsub hleave) (hsub htold)
  · by_cases hst : st = 0
    · refine hinvalid ⟨c, hstrip, ?_⟩
      rcases hvouched hst with hcache | ⟨hcache, hdb⟩
      · exact .inl (hsub hcache)
      · exact .inr ⟨hsub hcache, hsub hdb⟩
    · exact hhonest.failed _ (.inr (.inr rfl)) st hst (hsub hleave) (hsub htold)

theorem LoginInvalid.not_honest {r : Option Int} (hrun : Runs (socks5Run fd) t (.done r))
    (h : LoginInvalid fd t) : ¬ StatusHonest fd t := by
  obtain ⟨ms, user, passwd, hlen, hu, hp, hms, ⟨rest, hpre⟩, htaken, hinvalid⟩ := h
  -- the run begins with this greeting
  have hgreeting : ∀ {t1 u : List SessionEvent} {st : Int} {m : UInt8},
      Runs (noted .choosemethod Prod.fst (socks5Choosemethod (.start fd))) t1 (.done (st, m)) →
      [⟨.getpeername fd, true⟩] ++ t1 ++ u = t →
      st = 0 ∧ m = 2 ∧ u = [⟨.enter .readauth, ()⟩] ++ login fd user passwd ++ rest := by
    intro t1 u st m hrun1 heq
    have hchoose : Runs (noted .choosemethod Prod.fst (socks5Choosemethod (.start fd)))
        ([⟨.enter .choosemethod, ()⟩] ++ (greeting fd ms ++ [⟨.writen fd [5, 2], true⟩]) ++
          [⟨.leave .choosemethod 0, ()⟩]) (.done (0, 2)) :=
      runs_noted.mpr ⟨_, rfl, socks5Choosemethod_answers (.start fd) hlen (if_pos hms).symm⟩
    have hsplit : t1 ++ u = ([⟨.enter .choosemethod, ()⟩] ++
        (greeting fd ms ++ [⟨.writen fd [5, 2], true⟩]) ++ [⟨.leave .choosemethod 0, ()⟩]) ++
          ([⟨.enter .readauth, ()⟩] ++ login fd user passwd ++ rest) := by
      simpa [loginRead] using heq.trans hpre.symm
    obtain ⟨t'', -, hu', hend⟩ := hrun1.extend hchoose hsplit
    obtain ⟨rfl, hend⟩ := runs_done.mp hend
    cases hend
    exact ⟨rfl, rfl, hu'.symm⟩
  obtain ⟨t', c, hend, rfl⟩ := socks5Run_ends hrun
  cases hend with
  | nopeer => simp [loginRead] at hpre
  | greeting hst hrun1 => exact absurd (hgreeting hrun1 rfl).1 hst
  | @login t1 t2 st m _ hst hrun1 hrun2 =>
    obtain ⟨-, rfl, hsplit⟩ := hgreeting (u := t2 ++ closes c) hrun1 (by simp)
    refine (authenticate_runs hrun2).not_honest hu hp hsplit ?_ htaken hinvalid
    intro e he
    simp [he]
  | @request t1 t2 t3 st m _ _ hst hadmitted hread =>
    obtain ⟨-, rfl, hsplit⟩ := hgreeting (u := t2 ++ ([⟨.enter .readrequest, ()⟩] ++ t3 ++
      [⟨.leave .readrequest st, ()⟩] ++ closes c)) hadmitted.choosemethod (by simp)
    refine (authenticate_runs hadmitted.authenticate).not_honest hu hp hsplit ?_ htaken hinvalid
    intro e he
    simp [he]
  | @served t1 t2 t3 t4 st m _ _ _ hadmitted hread hserve =>
    obtain ⟨-, rfl, hsplit⟩ := hgreeting (u := t2 ++ ([⟨.enter .readrequest, ()⟩] ++ t3 ++
      [⟨.leave .readrequest 0, ()⟩] ++ t4 ++ closes c)) hadmitted.choosemethod (by simp)
    refine (authenticate_runs hadmitted.authenticate).not_honest hu hp hsplit ?_ htaken hinvalid
    intro e he
    simp [he]

end Told

/-- A client is told of a success honestly unless it sends an invalid login, and takes what is
written to it. -/
theorem socks5Run_told_iff {fd : Int} {t : List SessionEvent} {r : Option Int}
    (hrun : Runs (socks5Run fd) t (.done r)) : StatusHonest fd t ↔ ¬ LoginInvalid fd t :=
  ⟨fun hhonest hinvalid => hinvalid.not_honest hrun hhonest, socks5Run_honest hrun⟩

/-- A string whose length byte is `len` is the first `len` bytes. -/
theorem take_of_length_byte {bs us vs : List UInt8} {len : UInt8} (hbs : bs.length < 256)
    (h : UInt8.ofNat bs.length :: (bs ++ us) = len :: vs) :
    bs = vs.take len.toNat ∧ us = vs.drop len.toNat := by
  obtain ⟨rfl, rfl⟩ := List.cons.inj h
  have hlen : (UInt8.ofNat bs.length).toNat = bs.length := by simpa using hbs
  rw [hlen, List.take_left, List.drop_left]
  exact ⟨rfl, rfl⟩

/-- A session with a valid login is told of a success honestly. -/
theorem socks5Run_told_served : told 4 ∈ servedRun ∧ StatusHonest 4 servedRun := by
  refine ⟨by simp [servedRun, told], (socks5Run_told_iff servedRun_runs).mpr ?_⟩
  rintro ⟨ms, user, passwd, hlen, hu, hp, -, ⟨rest, hpre⟩, -, hinvalid⟩
  have hread : 5 :: UInt8.ofNat ms.length :: (ms ++ 1 :: UInt8.ofNat user.length ::
      (user ++ UInt8.ofNat passwd.length :: (passwd ++ clientBytes 4 rest))) =
        clientBytes 4 servedRun := by
    rw [← hpre]
    simp [loginRead, clientBytes_greeting, clientBytes_login, greetingBytes, loginBytes, readBytes]
  obtain ⟨-, hread⟩ := take_of_length_byte hlen (List.cons.inj hread).2
  obtain ⟨huser, hread⟩ := take_of_length_byte hu (List.cons.inj hread).2
  obtain ⟨hpasswd, -⟩ := take_of_length_byte hp hread
  have huser : user = [117, 45, 49, 46, 49, 46, 49, 46, 49, 45, 49] := huser
  have hpasswd : passwd = [112] := hpasswd
  subst huser hpasswd
  let client : Socks5Cli := { Socks5Cli.start 4 with
    user := [117], passwd := [112], srvpeer := ⟨.inet, [1, 1, 1, 1], [0, 1]⟩ }
  exact hinvalid ⟨client, rfl, .inr ⟨by simp [servedRun, client], by simp [servedRun, client]⟩⟩

/-- A session with the login `u`, which is not of the form user-ip-port, and the password `p`. -/
def malformedRun : List SessionEvent :=
  [⟨.getpeername 4, true⟩, ⟨.enter .choosemethod, ()⟩, byteEvent 4 5, byteEvent 4 1, byteEvent 4 2,
    ⟨.writen 4 [5, 2], true⟩, ⟨.leave .choosemethod 0, ()⟩, ⟨.enter .readauth, ()⟩, byteEvent 4 1,
    byteEvent 4 1, byteEvent 4 117, byteEvent 4 1, byteEvent 4 112, ⟨.writen 4 [1, 0], true⟩,
    ⟨.leave .readauth 0, ()⟩, ⟨.enter .stripRedirectaddr, ()⟩, ⟨.leave .stripRedirectaddr 1, ()⟩,
    ⟨.close 4, ()⟩, ⟨.close 0, ()⟩]

theorem malformedRun_told :
    Runs (socks5Run 4) malformedRun (.done (some 1)) ∧ told 4 ∈ malformedRun ∧
      ¬ StatusHonest 4 malformedRun := by
  refine ⟨?_, by simp [told, malformedRun], fun h => ?_⟩
  · repeat apply Runs.cons
    exact .nil _
  · refine h.failed .stripRedirectaddr (.inr (.inl rfl)) 1 (by decide) ?_ ?_
    · simp [malformedRun]
    · simp [told, malformedRun]

end Silksocks
