import Silksocks.ClientMessages

/-! How the runs of `socks5_run` end: which functions have run, and with which status. -/

namespace Silksocks

open Program Prog

section Runs

variable {client c : Socks5Cli} {t : List SessionEvent} {st : Int} {fd : Int}

/-- The cache, or for a user that it does not hold the database, has this password. -/
def Vouched (t : List SessionEvent) (user passwd : List UInt8) : Prop :=
  ⟨.cacheGetapp user, some passwd⟩ ∈ t ∨
    ⟨.cacheGetapp user, none⟩ ∈ t ∧ ⟨.sqlgetApppasswd user, some passwd⟩ ∈ t

theorem doauth_runs (h : Runs (socks5Doauth client) t (.done st)) :
    st = 0 ↔ Vouched t client.user client.passwd := by
  simp only [socks5Doauth, call, call_bind, done_bind, pure_eq] at h
  obtain ⟨cached, t1, rfl, h1⟩ := runs_call_done.mp h
  cases cached with
  | some apppasswd =>
    obtain ⟨rfl, hend⟩ := runs_done.mp h1
    have hst := Prog.done.inj hend
    by_cases hp : client.passwd = apppasswd
    · simp [hst, hp, Vouched]
    · simp [hst, hp, Vouched]
  | none =>
    obtain ⟨found, t2, rfl, h2⟩ := runs_call_done.mp h1
    cases found with
    | none =>
      obtain ⟨rfl, hend⟩ := runs_done.mp h2
      have hst := Prog.done.inj hend
      simp [hst, Vouched]
    | some apppasswd =>
      obtain ⟨-, t3, rfl, h3⟩ := runs_call_done.mp h2
      obtain ⟨rfl, hend⟩ := runs_done.mp h3
      have hst := Prog.done.inj hend
      by_cases hp : client.passwd = apppasswd
      · simp [hst, hp, Vouched]
      · simp [hst, hp, Vouched]

/-- The events at the label `done`. -/
def closes (client : Socks5Cli) : List SessionEvent :=
  [⟨.close client.clientfd, ()⟩, ⟨.close client.proxyfd, ()⟩]

/-- A session has answered the greeting and passed the authentication, with the events `t1` and
`t2`. -/
structure Admitted (fd : Int) (t1 t2 : List SessionEvent) (m : UInt8) (client : Socks5Cli) :
    Prop where
  choosemethod : Runs (noted .choosemethod Prod.fst (socks5Choosemethod (.start fd))) t1
    (.done (0, m))
  authenticate : Runs (authenticate (.start fd) m) t2 (.done (0, client))

/-- How a run of `socks5_run` gets to its label `done`: the function that failed, or the service of
the request. -/
inductive ServeEnd (fd : Int) : List SessionEvent → Option Int × Socks5Cli → Prop
  | nopeer : ServeEnd fd [⟨.getpeername fd, false⟩] (none, .start fd)
  | greeting {t : List SessionEvent} {st : Int} {m : UInt8} (hst : st ≠ 0)
    (hrun : Runs (noted .choosemethod Prod.fst (socks5Choosemethod (.start fd))) t
      (.done (st, m))) :
    ServeEnd fd ([⟨.getpeername fd, true⟩] ++ t) (some st, .start fd)
  | login {t1 t2 : List SessionEvent} {st : Int} {m : UInt8} {c : Socks5Cli} (hst : st ≠ 0)
    (hgreeting : Runs (noted .choosemethod Prod.fst (socks5Choosemethod (.start fd))) t1
      (.done (0, m)))
    (hrun : Runs (authenticate (.start fd) m) t2 (.done (st, c))) :
    ServeEnd fd ([⟨.getpeername fd, true⟩] ++ t1 ++ t2) (some st, c)
  | request {t1 t2 t3 : List SessionEvent} {st : Int} {m : UInt8} {client c : Socks5Cli}
    (hst : st ≠ 0) (hadmitted : Admitted fd t1 t2 m client)
    (hrun : Runs (socks5Readrequest client) t3 (.done (st, c))) :
    ServeEnd fd ([⟨.getpeername fd, true⟩] ++ t1 ++ t2 ++ [⟨.enter .readrequest, ()⟩] ++ t3 ++
      [⟨.leave .readrequest st, ()⟩]) (some st, c)
  | served {t1 t2 t3 t4 : List SessionEvent} {st : Int} {m : UInt8} {client client' c : Socks5Cli}
    (hadmitted : Admitted fd t1 t2 m client)
    (hread : Runs (socks5Readrequest client) t3 (.done (0, client')))
    (hrun : Runs (serveRequest client') t4 (.done (st, c))) :
    ServeEnd fd ([⟨.getpeername fd, true⟩] ++ t1 ++ t2 ++ [⟨.enter .readrequest, ()⟩] ++ t3 ++
      [⟨.leave .readrequest 0, ()⟩] ++ t4) (some st, c)

theorem serve_runs {r : Option Int} (h : Runs (serve (.start fd)) t (.done (r, c))) :
    ServeEnd fd t (r, c) := by
  simp only [serve, call, call_bind, done_bind, pure_eq] at h
  obtain ⟨peer, t, rfl, h1⟩ := runs_call_done.mp h
  cases peer with
  | false =>
    obtain ⟨rfl, hend⟩ := runs_done.mp h1
    cases hend
    exact .nopeer
  | true =>
  obtain ⟨⟨st1, m⟩, t1, t, rfl, hgreeting, h2⟩ := runs_bind_done.mp h1
  dsimp only at h2
  split at h2
  · rename_i hst
    obtain ⟨rfl, hend⟩ := runs_done.mp h2
    cases hend
    simpa using ServeEnd.greeting hst hgreeting
  rename_i hst1
  rw [not_not.mp hst1] at hgreeting
  obtain ⟨⟨st2, c2⟩, t2, t, rfl, hlogin, h3⟩ := runs_bind_done.mp h2
  dsimp only at h3
  split at h3
  · rename_i hst
    obtain ⟨rfl, hend⟩ := runs_done.mp h3
    cases hend
    simpa using ServeEnd.login hst hgreeting hlogin
  rename_i hst2
  rw [not_not.mp hst2] at hlogin
  obtain ⟨⟨st3, c3⟩, _, t, rfl, hrequest, h4⟩ := runs_bind_done.mp h3
  obtain ⟨t3, rfl, hread⟩ := runs_noted.mp hrequest
  dsimp only at h4
  split at h4
  · rename_i hst
    obtain ⟨rfl, hend⟩ := runs_done.mp h4
    cases hend
    simpa using ServeEnd.request hst ⟨hgreeting, hlogin⟩ hread
  rename_i hst3
  rw [not_not] at hst3
  subst hst3
  obtain ⟨⟨st4, c4⟩, t4, t, rfl, hserve, h5⟩ := runs_bind_done.mp h4
  obtain ⟨rfl, hend⟩ := runs_done.mp h5
  cases hend
  simpa using ServeEnd.served ⟨hgreeting, hlogin⟩ hread hserve

theorem socks5Run_ends {r : Option Int} (h : Runs (socks5Run fd) t (.done r)) :
    ∃ t' c, ServeEnd fd t' (r, c) ∧ t = t' ++ closes c := by
  obtain ⟨⟨r', c⟩, t', t'', rfl, hserve, hclose⟩ := runs_bind_done.mp h
  simp only [call, call_bind, done_bind, pure_eq] at hclose
  obtain ⟨-, t1, rfl, h1⟩ := runs_call_done.mp hclose
  obtain ⟨-, t2, rfl, h2⟩ := runs_call_done.mp h1
  obtain ⟨rfl, hend⟩ := runs_done.mp h2
  cases hend
  exact ⟨t', c, serve_runs hserve, rfl⟩

end Runs

end Silksocks
