import Silksocks.SocksCalls

/-! Authentication gates a session: before it reads a request, uses the table of names or the
resolver, opens a socket or starts the relay, it must have selected the method 02 and passed the
three checks of the login.  `socks5_run` keeps to this in every run but those in which it refused
the greeting: it answers 05 FF, and goes on to the request all the same. -/

namespace Silksocks

open Program Prog Contract

/-- The calls that only an authenticated session may make. -/
def Call.guarded : Call → Bool
  | enter .readrequest | hashtblGet _ | hashtblPut _ _ _ | hostServ _ | socket | negotiate _ _ =>
    true
  | _ => false

/-- The method 02 was selected and the login passed its checks. -/
structure Authenticated (clientfd : Int) (before : List SessionEvent) : Prop where
  selected : ⟨.writen clientfd [5, 2], true⟩ ∈ before
  readauth : ⟨.leave .readauth 0, ()⟩ ∈ before
  stripRedirectaddr : ⟨.leave .stripRedirectaddr 0, ()⟩ ∈ before
  doauth : ⟨.leave .doauth 0, ()⟩ ∈ before

/-- Every guarded call of a trace comes after the authentication. -/
def Gated (clientfd : Int) (t : List SessionEvent) : Prop :=
  ∀ before e after, t = before ++ e :: after → e.call.guarded = true →
    Authenticated clientfd before

/-- The client sends a greeting with the methods `ms`. -/
def greeting (clientfd : Int) (ms : List UInt8) : List SessionEvent :=
  [byteEvent clientfd 5, byteEvent clientfd (UInt8.ofNat ms.length)] ++ ms.map (byteEvent clientfd)

/-- The session has a peer, whose greeting does not offer the method 02 and which takes the answer
05 FF. -/
def GreetingRefused (clientfd : Int) (t : List SessionEvent) : Prop :=
  ∃ ms : List UInt8, ms.length < 256 ∧ 2 ∉ ms ∧
    [⟨.getpeername clientfd, true⟩, ⟨.enter .choosemethod, ()⟩] ++ greeting clientfd ms ++
      [⟨.writen clientfd [5, 0xFF], true⟩] <+: t

theorem GreetingRefused.append {clientfd : Int} {t : List SessionEvent}
    (h : GreetingRefused clientfd t) (t' : List SessionEvent) :
    GreetingRefused clientfd (t ++ t') := by
  obtain ⟨ms, hlen, hms, hpre⟩ := h
  exact ⟨ms, hlen, hms, hpre.trans (List.prefix_append t t')⟩

/-! ### What holds at each call -/

/-- Where guarded calls may be made: after the authentication, or after a refused greeting. -/
def Open (clientfd : Int) (before : List SessionEvent) : Prop :=
  Authenticated clientfd before ∨ GreetingRefused clientfd before

theorem Open.append {clientfd : Int} {t : List SessionEvent} (h : Open clientfd t)
    (t' : List SessionEvent) : Open clientfd (t ++ t') := by
  rcases h with h | h
  · left
    exact ⟨List.mem_append_left _ h.selected, List.mem_append_left _ h.readauth,
      List.mem_append_left _ h.stripRedirectaddr, List.mem_append_left _ h.doauth⟩
  · exact .inr (h.append t')

/-- The contract of a session with this client. -/
abbrev gate (clientfd : Int) : Contract (List SessionEvent) Call.Result :=
  history (fun before c => c.guarded = true → Open clientfd before) fun _ => True

section Gate

variable {α : Type} {fd : Int} {s : List SessionEvent}

theorem gate_call {c : Call} {next : c.Result → Session α} {Q : List SessionEvent → α → Prop} :
    (gate fd).wp Q s (.call c next) ↔
      (c.guarded = true → Open fd s) ∧ ∀ r, (gate fd).wp Q (s ++ [⟨c, r⟩]) (next r) := by
  simp [gate, history, wp_call]

/-- A program that makes no guarded call, after which only the trace so far is known. -/
theorem gate_of_unguarded {p : Session α} {Q : List SessionEvent → α → Prop}
    (h : p.All fun c => c.guarded = false) (hQ : ∀ t a, Q (s ++ t) a) : (gate fd).wp Q s p := by
  refine wp_of_all (I := (s <+: ·)) h (List.prefix_refl s) (fun _ c _ hc => ?_) ?_ ?_
  · simp [gate, history, hc]
  · exact fun s' e hpre _ => hpre.trans (List.prefix_append s' [e])
  · rintro _ a ⟨t, rfl⟩
    exact hQ t a

theorem gate_of_open {p : Session α} (h : Open fd s) : (gate fd).wp (fun _ _ => True) s p :=
  wp_of_all (I := Open fd) all_true h (fun _ _ ho _ _ => ho) (fun _ _ ho _ => ho.append _)
    fun _ _ _ => trivial

theorem selected_cons (a : UInt8) (ms : List UInt8) (climethod : UInt8) :
    (if 2 ∈ a :: ms then 2 else climethod) =
      if 2 ∈ ms then 2 else if a = 0x02 && needauth then 0x02 else climethod := by
  by_cases h : a = 2
  · simp [h, needauth]
  · simp [h, Ne.symm h]

theorem readMethods_gate {b : Nat} {climethod : UInt8}
    {Q : List SessionEvent → Int × UInt8 → Prop}
    (hok : ∀ ms : List UInt8, ms.length = b →
      Q (s ++ ms.map (byteEvent fd)) (0, if 2 ∈ ms then 2 else climethod))
    (hfail : ∀ t m, Q (s ++ t) (1, m)) : (gate fd).wp Q s (readMethods fd b climethod) := by
  induction b generalizing s climethod with
  | zero => simpa [readMethods] using hok [] rfl
  | succ b ih =>
    refine gate_call.mpr ⟨by simp [Call.guarded], fun r => ?_⟩
    cases r with
    | none => exact hfail _ _
    | some a =>
      refine ih (fun ms hms => ?_) fun t m => ?_
      · have hcons := hok (a.byte :: ms) (by simp [hms])
        rw [selected_cons] at hcons
        simpa [byteEvent, Bytes.ofByte_byte] using hcons
      · simpa using hfail (_ :: t) m

/-- A greeting that is read and answered selects the method 02 where it is offered, and 0xFF where
it is not. -/
theorem socks5Choosemethod_gate {client : Socks5Cli}
    {Q : List SessionEvent → Int × UInt8 → Prop}
    (hok : ∀ ms : List UInt8, ms.length < 256 → ∀ m : UInt8, m = (if 2 ∈ ms then 2 else 0xFF) →
      Q (s ++ greeting client.clientfd ms ++ [⟨.writen client.clientfd [5, m], true⟩]) (0, m))
    (hfail : ∀ t st m, st ≠ 0 → Q (s ++ t) (st, m)) :
    (gate client.clientfd).wp Q s (socks5Choosemethod client) := by
  have hread : ∀ c : Bytes 1, (⟨.readn client.clientfd 1, some c⟩ : SessionEvent) =
      byteEvent client.clientfd c.byte := fun c => by rw [byteEvent, Bytes.ofByte_byte]
  simp only [socks5Choosemethod, readByte, writen, call_bind, done_bind, pure_eq]
  refine gate_call.mpr ⟨by simp [Call.guarded], fun ver => ?_⟩
  cases ver with
  | none => exact hfail _ _ _ (by decide)
  | some ver =>
  simp only [Option.map_some, ne_eq, ite_not]
  split
  · rename_i hver
    refine gate_call.mpr ⟨by simp [Call.guarded], fun n => ?_⟩
    cases n with
    | none => simpa using hfail [_, _] 1 0 (by decide)
    | some n =>
    rw [Option.map_some, wp_bind]
    refine readMethods_gate (fun ms hms => ?_) fun t m => ?_
    · have hlen : ms.length < 256 := hms ▸ n.byte.toNat_lt
      have hn : n.byte = UInt8.ofNat ms.length := by rw [hms, UInt8.ofNat_toNat]
      have hmethod : (if needauth && (if 2 ∈ ms then (2 : UInt8) else 0) = 0 then (0xFF : UInt8)
          else if 2 ∈ ms then 2 else 0) = if 2 ∈ ms then 2 else 0xFF := by
        by_cases h : 2 ∈ ms <;> simp [h, needauth]
      refine gate_call.mpr ⟨by simp [Call.guarded], fun r => ?_⟩
      have hstate : s ++ [⟨.readn client.clientfd 1, some ver⟩] ++
          [⟨.readn client.clientfd 1, some n⟩] ++ ms.map (byteEvent client.clientfd) =
          s ++ greeting client.clientfd ms := by
        rw [hread, hread, hver, hn]
        simp [greeting]
      rw [hstate]
      cases r with
      | true => exact hok ms hlen _ hmethod
      | false => simpa using hfail (greeting client.clientfd ms ++ [_]) 1 _ (by decide)
    · simpa using hfail (_ :: _ :: t) 1 m (by decide)
  · exact hfail _ _ _ (by decide)

theorem noted_gate {f : Fn} {status : α → Int} {p : Session α} {Q : List SessionEvent → α → Prop}
    (hopen : f = .readrequest → Open fd s)
    (h : (gate fd).wp (fun s' a => Q (s' ++ [⟨.leave f (status a), ()⟩]) a)
      (s ++ [⟨.enter f, ()⟩]) p) : (gate fd).wp Q s (noted f status p) := by
  rw [noted_eq]
  refine gate_call.mpr ⟨fun hg => hopen ?_, fun _ => ?_⟩
  · cases f <;> simp_all [Call.guarded]
  · refine wp_bind.mpr (wp_mono h fun s' a hQ => ?_)
    exact gate_call.mpr ⟨by simp [Call.guarded], fun _ => hQ⟩

theorem socks5Readauth_unguarded (client : Socks5Cli) :
    (socks5Readauth client).All fun c => c.guarded = false := by
  refine (socks5Readauth_all client).mono fun c hc => ?_
  rcases hc with hc | rfl
  · cases c <;> simp_all [Call.Reads, Call.guarded]
  · rfl

theorem socks5Doauth_unguarded (client : Socks5Cli) :
    (socks5Doauth client).All fun c => c.guarded = false := by
  refine (socks5Doauth_all client).mono fun c hc => ?_
  cases c <;> simp_all [Call.LooksUpUser, Call.guarded]

/-- With the method 02, only a login that passes all checks returns 0. -/
theorem authenticate_gate {client : Socks5Cli} {Q : List SessionEvent → Int × Socks5Cli → Prop}
    (hselected : ⟨.writen fd [5, 2], true⟩ ∈ s)
    (hok : ∀ t c, Authenticated fd (s ++ t) → Q (s ++ t) (0, c))
    (hfail : ∀ t st c, st ≠ 0 → Q (s ++ t) (st, c)) :
    (gate fd).wp Q s (authenticate client 0x02) := by
  unfold authenticate
  rw [if_pos rfl, wp_bind]
  apply noted_gate (by simp)
  apply gate_of_unguarded (socks5Readauth_unguarded client)
  rintro t1 ⟨st1, client⟩
  simp only
  split
  · rename_i h
    simpa using hfail (_ :: (t1 ++ [_])) st1 client h
  · rename_i h1
    rw [wp_bind]
    apply noted_gate (by simp)
    simp only [pure_eq, wp_done]
    split
    · rename_i h
      simpa using hfail (_ :: (t1 ++ [_, _, _])) _ (stripRedirectaddr client).2 h
    · rename_i h2
      rw [wp_bind]
      apply noted_gate (by simp)
      apply gate_of_unguarded (socks5Doauth_unguarded _)
      intro t3 st3
      rw [wp_done, not_not.mp h1, not_not.mp h2, id_eq]
      obtain rfl | h3 := eq_or_ne st3 0
      · have hauth : Authenticated fd (s ++ ([⟨.enter .readauth, ()⟩] ++ t1 ++
            [⟨.leave .readauth 0, ()⟩, ⟨.enter .stripRedirectaddr, ()⟩,
              ⟨.leave .stripRedirectaddr 0, ()⟩, ⟨.enter .doauth, ()⟩] ++ t3 ++
            [⟨.leave .doauth 0, ()⟩])) := by
          constructor <;> simp [hselected]
        simpa using hok _ (stripRedirectaddr client).2 hauth
      · simpa using hfail (_ :: (t1 ++ _ :: _ :: _ :: _ :: (t3 ++ [_]))) st3 _ h3

theorem serve_gate (fd : Int) : (gate fd).wp (fun _ _ => True) [] (serve (.start fd)) := by
  simp only [serve, call, call_bind, done_bind, pure_eq]
  refine gate_call.mpr ⟨by simp [Call.guarded], fun peer => ?_⟩
  cases peer with
  | false => trivial
  | true =>
  rw [Bool.not_true, if_neg (by decide), wp_bind]
  apply noted_gate (by simp)
  refine socks5Choosemethod_gate (fun ms hlen m hm => ?_) fun t st m hst => ?_
  · simp only [ne_eq, not_true_eq_false, if_false]
    by_cases h : 2 ∈ ms
    · rw [if_pos h] at hm
      subst hm
      rw [wp_bind]
      refine authenticate_gate ?_ (fun t c hauth => ?_) fun t st c hst => ?_
      · simp [Socks5Cli.start]
      · exact gate_of_open (.inl hauth)
      · simp [hst]
    · rw [if_neg h] at hm
      subst hm
      refine gate_of_open (.inr ⟨ms, hlen, h, ?_⟩)
      simp [Socks5Cli.start]
  · simp [hst]

theorem socks5Run_gate (fd : Int) : (gate fd).wp (fun _ _ => True) [] (socks5Run fd) := by
  refine wp_bind.mpr (wp_mono (serve_gate fd) fun s a _ => ?_)
  exact gate_of_unguarded (by simp [call, Call.guarded]) fun _ _ => trivial

end Gate

/-! ### Sessions that refuse the greeting -/

theorem readMethods_runs (fd : Int) (ms : List UInt8) (climethod : UInt8) :
    Runs (readMethods fd ms.length climethod) (ms.map (byteEvent fd))
      (.done (0, if 2 ∈ ms then 2 else climethod)) := by
  induction ms generalizing climethod with
  | nil => exact .nil _
  | cons a ms ih =>
    rw [selected_cons]
    exact .cons (ih _)

theorem socks5Choosemethod_answers (client : Socks5Cli) {ms : List UInt8} {m : UInt8}
    (hlen : ms.length < 256) (hm : m = if 2 ∈ ms then 2 else 0xFF) :
    Runs (socks5Choosemethod client)
      (greeting client.clientfd ms ++ [⟨.writen client.clientfd [5, m], true⟩])
      (.done (0, m)) := by
  have hn : (UInt8.ofNat ms.length).toNat = ms.length := by simpa using hlen
  have hread := readMethods_runs client.clientfd ms 0
  simp only [socks5Choosemethod, readByte, writen, call_bind, done_bind, pure_eq]
  refine .cons (.cons ?_)
  simp only [Option.map_some, Bytes.byte_ofByte, ne_eq]
  rw [hn]
  refine hread.bind.append ?_
  subst hm
  by_cases h : 2 ∈ ms
  · rw [if_pos h, if_pos h]
    exact .cons (.nil _)
  · rw [if_neg h, if_neg h]
    exact .cons (.nil _)

/-- A session that has refused the greeting reads the request next. -/
theorem socks5Run_refused {fd : Int} {ms : List UInt8} {t : List SessionEvent} {st : Option Int}
    (hlen : ms.length < 256) (hms : 2 ∉ ms)
    (hrun : Runs (socks5Run fd)
      ([⟨.getpeername fd, true⟩, ⟨.enter .choosemethod, ()⟩] ++ greeting fd ms ++
        [⟨.writen fd [5, 0xFF], true⟩] ++ t) (.done st)) :
    ∃ t', t = [⟨.leave .choosemethod 0, ()⟩, ⟨.enter .readrequest, ()⟩] ++ t' := by
  have hchoose := socks5Choosemethod_answers (.start fd) hlen (if_neg hms).symm
  simp only [socks5Run, serve, call, noted_eq, call_bind, done_bind, pure_eq] at hrun
  cases hrun with
  | cons hrun =>
  simp only [Bool.not_true, if_neg Bool.false_ne_true, call_bind] at hrun
  cases hrun with
  | cons hrun =>
  have hrest := Runs.suffix hchoose.bind.bind.bind hrun
  simp only [done_bind, call_bind] at hrest
  cases hrest with
  | cons hrest =>
  have hskip : authenticate (.start fd) 0xFF = .done (0, .start fd) := rfl
  simp only [ne_eq, not_true_eq_false, if_false, hskip, done_bind, call_bind] at hrest
  cases hrest with
  | cons hrest => exact ⟨_, rfl⟩

/-- A session is gated as long as it has not refused a greeting, and no session that has refused
one ends gated. -/
theorem socks5Run_gated_iff (fd : Int) (t : List SessionEvent) :
    (∀ q, Runs (socks5Run fd) t q → ¬ GreetingRefused fd t → Gated fd t) ∧
      ∀ st, Runs (socks5Run fd) t (.done st) → (Gated fd t ↔ ¬ GreetingRefused fd t) := by
  have hgated : ∀ q, Runs (socks5Run fd) t q → ¬ GreetingRefused fd t → Gated fd t := by
    rintro q hrun hrefused before e after rfl hg
    rcases history_demand (socks5Run_gate fd) hrun (fun _ _ => trivial) hg with h | h
    · exact h
    · exact absurd (h.append _) hrefused
  refine ⟨hgated, fun st hrun => ⟨?_, hgated _ hrun⟩⟩
  rintro h ⟨ms, hlen, hms, t, rfl⟩
  obtain ⟨t, rfl⟩ := socks5Run_refused hlen hms hrun
  have hauth := h ([⟨.getpeername fd, true⟩, ⟨.enter .choosemethod, ()⟩] ++ greeting fd ms ++
    [⟨.writen fd [5, 0xFF], true⟩, ⟨.leave .choosemethod 0, ()⟩]) ⟨.enter .readrequest, ()⟩ t
    (by simp) rfl
  simpa [greeting, byteEvent] using hauth.selected

/-- A session with the login `u-1.1.1.1-1` and the password `p`, which gets a connection to
10.0.0.1:80 from its upstream and ends with its relay. -/
def servedRun : List SessionEvent :=
  [⟨.getpeername 4, true⟩, ⟨.enter .choosemethod, ()⟩] ++ greeting 4 [2] ++
    [⟨.writen 4 [5, 2], true⟩, ⟨.leave .choosemethod 0, ()⟩, ⟨.enter .readauth, ()⟩, byteEvent 4 1,
      byteEvent 4 11, chunkEvent 4 [117, 45, 49, 46, 49, 46, 49, 46, 49, 45, 49], byteEvent 4 1,
      chunkEvent 4 [112], ⟨.writen 4 [1, 0], true⟩, ⟨.leave .readauth 0, ()⟩,
      ⟨.enter .stripRedirectaddr, ()⟩, ⟨.leave .stripRedirectaddr 0, ()⟩, ⟨.enter .doauth, ()⟩,
      ⟨.cacheGetapp [117], none⟩, ⟨.sqlgetApppasswd [117], some [112]⟩,
      ⟨.cachePutapp [117] [112], ()⟩, ⟨.leave .doauth 0, ()⟩, ⟨.enter .readrequest, ()⟩,
      byteEvent 4 5, byteEvent 4 1, byteEvent 4 0, byteEvent 4 1, chunkEvent 4 [10, 0, 0, 1],
      chunkEvent 4 [0, 80], ⟨.leave .readrequest 0, ()⟩, ⟨.enter .connectproxy, ()⟩,
      ⟨.socket, (5 : Int)⟩, ⟨.connectNonb 5 ⟨.inet, [1, 1, 1, 1], [0, 1]⟩, true⟩,
      ⟨.writen 5 [5, 1, 2], true⟩, chunkEvent 5 [5, 2],
      ⟨.cacheGetip 0x01010101, some ⟨[117], [112]⟩⟩, ⟨.writen 5 [1, 1, 117, 1, 112], true⟩,
      chunkEvent 5 [1, 0], ⟨.writen 5 [5, 1, 0, 1, 10, 0, 0, 1, 0, 80], true⟩,
      chunkEvent 5 [5, 0, 0, 1], chunkEvent 5 [10, 0, 0, 2, 4, 56], ⟨.leave .connectproxy 0, ()⟩,
      ⟨.getsockname 5, some ⟨.inet, [10, 0, 0, 3], [48, 57]⟩⟩,
      ⟨.writen 4 [5, 0, 0, 1, 10, 0, 0, 3, 48, 57], true⟩, ⟨.negotiate 4 5, (0 : Int)⟩,
      ⟨.close 4, ()⟩, ⟨.close 5, ()⟩]

theorem servedRun_runs : Runs (socks5Run 4) servedRun (.done (some 0)) := by
  repeat apply Runs.cons
  exact .nil _

/-- It is gated, and starts the relay. -/
theorem socks5Run_gated_served :
    Gated 4 servedRun ∧ ⟨.negotiate 4 5, (0 : Int)⟩ ∈ servedRun := by
  refine ⟨((socks5Run_gated_iff 4 _).2 _ servedRun_runs).mpr ?_, by simp [servedRun]⟩
  rintro ⟨ms, -, -, hpre⟩
  have hanswer : ⟨.writen 4 [5, 0xFF], true⟩ ∈ servedRun := hpre.subset (by simp)
  simp [servedRun, greeting, byteEvent, chunkEvent] at hanswer

/-- A session that answers the greeting 05 01 00 with 05 FF, then reads the request to connect to
10.0.0.1:80, and opens a socket for it. -/
def refusedRun : List SessionEvent :=
  [⟨.getpeername 4, true⟩, ⟨.enter .choosemethod, ()⟩, byteEvent 4 5, byteEvent 4 1,
    byteEvent 4 0, ⟨.writen 4 [5, 0xFF], true⟩, ⟨.leave .choosemethod 0, ()⟩,
    ⟨.enter .readrequest, ()⟩, byteEvent 4 5, byteEvent 4 1, byteEvent 4 0, byteEvent 4 1,
    ⟨.readn 4 4, some (.ofQuad 10 0 0 1)⟩, ⟨.readn 4 2, some (.ofPair 0 80)⟩,
    ⟨.leave .readrequest 0, ()⟩, ⟨.enter .connectproxy, ()⟩, ⟨.socket, (5 : Int)⟩]

theorem refusedRun_not_gated :
    (∃ q, Runs (socks5Run 4) refusedRun q) ∧ ⟨.socket, (5 : Int)⟩ ∈ refusedRun ∧
      ¬ Gated 4 refusedRun := by
  refine ⟨⟨?rest, ?runs⟩, by simp [refusedRun], fun h => ?_⟩
  case runs =>
    repeat apply Runs.cons
    exact .nil _
  · have hauth := h (refusedRun.take 16) ⟨.socket, (5 : Int)⟩ [] rfl rfl
    simpa [refusedRun, byteEvent] using hauth.selected

end Silksocks
